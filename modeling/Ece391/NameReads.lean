import Ece391.Directory

/-! # What `dir_read` stores in the caller's buffer

The size goes through a byte, the scan for the end of the name is bounded by that byte,
and the copy takes one byte more than the scan passed.
-/

namespace Ece391

/-- A read of one entry that respects a buffer of `nbytes` bytes: a negative size is
refused, and otherwise as much of the name is stored as fits. -/
def RespectsBuffer (entry : Dentry) (nbytes : Int) (result : SysReturn) : Prop :=
  ∃ value out, result = .returned value out ∧
    (out.length : Int) ≤ max 0 (min nbytes FILE_NAME_SIZE) ∧ out <+: entry.fileName ∧
    (0 ≤ nbytes → value = min nbytes entry.name.length) ∧ (nbytes < 0 → value = -1 ∧ out = [])

/-- The size that `dir_read` scans and copies with, when it is not negative. -/
theorem bytesCpy_eq {size : Nat} :
    (if (size : Int) > FILE_NAME_SIZE then FILE_NAME_SIZE else toU32 size % 256) =
      min size FILE_NAME_SIZE := by
  have hbyte : toU32 size = size % 2 ^ 32 := Int.toNat_emod (Int.natCast_nonneg size) (by decide)
  rw [hbyte]
  by_cases hlarge : (size : Int) > FILE_NAME_SIZE
  · rw [if_pos hlarge]
    omega
  · rw [if_neg hlarge]
    simp only [FILE_NAME_SIZE] at hlarge ⊢
    omega

/-- With a size that is not negative the name is stored as far as the size goes, and one
byte more. -/
theorem Kernel.dirRead_size {img : Image} {k : Kernel} {size : Nat}
    (hmore : (k.dirIndex : Int) < int32 img.amtDentrys) :
    (k.dirRead img size).1 =
      .returned (min (min size FILE_NAME_SIZE) (img.entry k.dirIndex).name.length : Nat)
        ((List.range (min (min size FILE_NAME_SIZE) (img.entry k.dirIndex).name.length + 1)).map
          (img.entry k.dirIndex).byte) := by
  have hscan : Kernel.nameStop (img.entry k.dirIndex) (min size FILE_NAME_SIZE) 0 =
      min (min size FILE_NAME_SIZE) (img.entry k.dirIndex).name.length := by
    rw [nameStop_min (img.entry_length k.dirIndex) (by omega), List.drop_zero, Nat.zero_add,
      Dentry.name]
  rw [k.dirRead_below size hmore, bytesCpy_eq, hscan]

/-- The buffer is respected exactly when the size is not negative and leaves room behind the
name, in the buffer and in the name field. -/
theorem dirRead_respects_iff {img : Image} {k : Kernel} (nbytes : Int)
    (hmore : (k.dirIndex : Int) < int32 img.amtDentrys) :
    RespectsBuffer (img.entry k.dirIndex) nbytes (k.dirRead img nbytes).1 ↔
      0 ≤ nbytes ∧ ((img.entry k.dirIndex).name.length : Int) < min nbytes FILE_NAME_SIZE := by
  have hlength := img.entry_length k.dirIndex
  rcases lt_or_ge nbytes 0 with hneg | hnonneg
  · refine iff_of_false ?_ fun hroom => by omega
    rintro ⟨value, out, hresult, -, -, -, hrefused⟩
    rw [k.dirRead_below nbytes hmore] at hresult
    injection hresult with hvalue
    have hfailed := (hrefused hneg).1
    omega
  · obtain ⟨size, rfl⟩ := Int.eq_ofNat_of_zero_le hnonneg
    rw [Kernel.dirRead_size hmore]
    constructor
    · rintro ⟨value, out, hresult, hfits, -, -, -⟩
      injection hresult with hvalue hout
      rw [← hout, List.length_map, List.length_range] at hfits
      exact ⟨hnonneg, by omega⟩
    · rintro ⟨-, hroom⟩
      have hstop : min (min size FILE_NAME_SIZE) (img.entry k.dirIndex).name.length =
          (img.entry k.dirIndex).name.length := by omega
      rw [hstop]
      refine ⟨_, _, rfl, ?_, ?_, fun _ => ?_, fun hneg => by omega⟩
      · rw [List.length_map, List.length_range]
        omega
      · rw [Dentry.map_byte_take hlength (by omega)]
        exact List.take_prefix _ _
      · omega

/-- The directory's own entry, read with room for its name of one byte. -/
theorem dirRead_respects_room :
    ∃ k : Kernel, (k.dirIndex : Int) < int32 threeFiles.amtDentrys ∧
      RespectsBuffer (threeFiles.entry k.dirIndex) 2 (k.dirRead threeFiles 2).1 := by
  obtain ⟨-, k, -, -, -, -, hindex, -⟩ := threeFiles_opened
  have hmore : (k.dirIndex : Int) < int32 threeFiles.amtDentrys := by
    rw [hindex]
    decide
  refine ⟨k, hmore, (dirRead_respects_iff 2 hmore).mpr ?_⟩
  rw [hindex]
  decide +kernel

/-- A buffer of one byte gets two, and a negative size is not refused. -/
theorem dirRead_overruns :
    ∃ k : Kernel, (k.dirIndex : Int) < int32 threeFiles.amtDentrys ∧
      (k.dirRead threeFiles 1).1 = .returned 1 [46, 0] ∧
      (k.dirRead threeFiles (-1)).1 = .returned 1 [46, 0] ∧
      ¬ RespectsBuffer (threeFiles.entry k.dirIndex) 1 (k.dirRead threeFiles 1).1 ∧
      ¬ RespectsBuffer (threeFiles.entry k.dirIndex) (-1) (k.dirRead threeFiles (-1)).1 := by
  obtain ⟨-, k, -, -, -, -, hindex, -⟩ := threeFiles_opened
  have hmore : (k.dirIndex : Int) < int32 threeFiles.amtDentrys := by
    rw [hindex]
    decide
  have hshort : (k.dirRead threeFiles 1).1 = .returned 1 [46, 0] := by
    rw [k.dirRead_below 1 hmore, hindex]
    dsimp only
    decide +kernel
  have hnegative : (k.dirRead threeFiles (-1)).1 = .returned 1 [46, 0] := by
    rw [k.dirRead_below (-1) hmore, hindex]
    dsimp only
    decide +kernel
  refine ⟨k, hmore, hshort, hnegative, ?_, ?_⟩
  · rintro ⟨value, out, hresult, hfits, -⟩
    rw [hshort] at hresult
    injection hresult with hvalue hout
    subst hout
    simp [FILE_NAME_SIZE] at hfits
  · rintro ⟨value, out, hresult, -, -, -, hrefused⟩
    rw [hnegative] at hresult
    injection hresult with hvalue hout
    exact absurd (hrefused (by decide)).1 (by omega)

end Ece391
