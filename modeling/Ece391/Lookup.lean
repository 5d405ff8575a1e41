import Ece391.Directory
import Ece391.Lib.BoundedText

/-! # The two lookups of the boot block

`read_dentry_by_name` compares a name with the 32 bytes of each entry's name field and
stops at the entry count; `read_dentry_by_index` checks an index against the count. A name
of 32 bytes has no NUL behind it, so that a longer file name is compared as far as its
first 32 bytes only; and the index equal to the count passes the check.
-/

namespace Ece391

open BoundedText

theorem byteDiff_eq_zero {first second : UInt8} : byteDiff first second = 0 ↔ first = second := by
  refine ⟨fun hdiff => ?_, fun heq => by simp [byteDiff, heq]⟩
  have hfirst := first.toNat_lt
  have hsecond := second.toNat_lt
  have hnat : first.toNat = second.toNat := by
    unfold byteDiff at hdiff
    dsimp only at hdiff
    split at hdiff <;> split at hdiff <;> omega
  exact UInt8.toNat_inj.mp hnat

/-- `strncmp` compares the texts of two fields. -/
theorem strncmpFrom_eq_zero {first second : Nat → UInt8} {remaining i : Nat} :
    strncmpFrom first second remaining i = 0 ↔
      text NUL first remaining i = text NUL second remaining i := by
  induction remaining generalizing i with
  | zero => simp [strncmpFrom, text]
  | succ remaining ih =>
      rw [text_succ_eq_iff, strncmpFrom]
      by_cases heq : first i = second i
      · by_cases hnul : first i = NUL
        · rw [if_pos (.inr hnul), byteDiff_eq_zero]
          exact ⟨fun hsame => ⟨hsame, .inl hnul⟩, And.left⟩
        · rw [if_neg (not_or.mpr ⟨not_not.mpr heq, hnul⟩), ih]
          exact ⟨fun hrest => ⟨heq, .inr hrest⟩, fun hsame => hsame.2.resolve_left hnul⟩
      · rw [if_pos (.inl heq), byteDiff_eq_zero]
        exact ⟨fun hsame => absurd hsame heq, fun hsame => absurd hsame.1 heq⟩

/-- The name field of an entry in memory holds the entry's name. -/
theorem Image.text_entry (img : Image) (index : Nat) :
    text NUL (fun i => img.mem (u32 (u32 (img.dentryAddr index) + i))) FILE_NAME_SIZE 0 =
      (img.entry index).name := by
  rw [text_eq_takeWhile, Dentry.name, Image.entry, Image.loadDentry, Image.bytes]
  simp only [u32_u32_add, Nat.zero_add]
  rfl

/-- The loop returns the first entry whose name is what the comparison sees of `fname`. -/
theorem dentryLoop_eq {img : Image} {fname : List UInt8} (hfname : NUL ∉ fname)
    (remaining index : Nat) :
    dentryLoop img fname remaining (u32 (img.dentryAddr index)) =
      ((List.range' index remaining).find? fun i =>
        (img.entry i).name = fname.take FILE_NAME_SIZE).map img.entry := by
  induction remaining generalizing index with
  | zero => rfl
  | succ remaining ih =>
      have hnext : u32 (u32 (img.dentryAddr index) + 64) = u32 (img.dentryAddr (index + 1)) := by
        rw [u32_u32_add, Image.dentryAddr, Image.dentryAddr]
        congr 1
      have hquery : text NUL (cstring fname) FILE_NAME_SIZE 0 = fname.take FILE_NAME_SIZE :=
        text_getD hfname FILE_NAME_SIZE 0
      have hmatch : strncmp (fun i => img.mem (u32 (u32 (img.dentryAddr index) + i)))
          (cstring fname) FILE_NAME_SIZE = 0 ↔
            (img.entry index).name = fname.take FILE_NAME_SIZE := by
        rw [strncmp, strncmpFrom_eq_zero, img.text_entry, hquery]
      rw [dentryLoop, List.range'_succ, List.find?_cons, hnext, ih]
      by_cases hname : (img.entry index).name = fname.take FILE_NAME_SIZE
      · rw [if_pos (hmatch.mpr hname), img.loadDentry_u32, decide_eq_true hname]
        rfl
      · rw [if_neg fun hzero => hname (hmatch.mp hzero), decide_eq_false hname]

/-- The lookup by name, on an image with a count that is not negative as an `int`. -/
theorem readDentryByName_eq {img : Image} (hcount : img.amtDentrys ≤ 63) {fname : List UInt8}
    (hfname : NUL ∉ fname) :
    readDentryByName img fname =
      ((List.range img.amtDentrys).find? fun i =>
        (img.entry i).name = fname.take FILE_NAME_SIZE).map img.entry := by
  have hint : (int32 img.amtDentrys).toNat = img.amtDentrys := by
    rw [int32, if_pos (by omega)]
    rfl
  rw [readDentryByName, hint, dentryLoop_eq hfname, List.range_eq_range']

theorem readDentryByName_eq_some {img : Image} (hcount : img.amtDentrys ≤ 63) {fname : List UInt8}
    (hfname : NUL ∉ fname) {entry : Dentry} :
    readDentryByName img fname = some entry ↔
      ∃ i < img.amtDentrys, entry = img.entry i ∧ (img.entry i).name = fname.take FILE_NAME_SIZE ∧
        ∀ j < i, (img.entry j).name ≠ fname.take FILE_NAME_SIZE := by
  rw [readDentryByName_eq hcount hfname, Option.map_eq_some_iff]
  constructor
  · rintro ⟨i, hfind, rfl⟩
    obtain ⟨hname, hmem, hfirst⟩ := List.find?_range_eq_some.mp hfind
    exact ⟨i, List.mem_range.mp hmem, rfl, by simpa using hname,
      fun j hj => by simpa using hfirst j hj⟩
  · rintro ⟨i, hlt, rfl, hname, hfirst⟩
    refine ⟨i, List.find?_range_eq_some.mpr ⟨by simpa using hname, List.mem_range.mpr hlt, ?_⟩, rfl⟩
    intro j hj
    simpa using hfirst j hj

theorem readDentryByName_eq_none {img : Image} (hcount : img.amtDentrys ≤ 63) {fname : List UInt8}
    (hfname : NUL ∉ fname) :
    readDentryByName img fname = none ↔
      ∀ i < img.amtDentrys, (img.entry i).name ≠ fname.take FILE_NAME_SIZE := by
  rw [readDentryByName_eq hcount hfname, Option.map_eq_none_iff, List.find?_range_eq_none]
  simp

theorem Dentry.name_length_le (img : Image) (index : Nat) :
    (img.entry index).name.length ≤ FILE_NAME_SIZE := by
  rw [← img.text_entry]
  exact text_length_le _ _ _

/-! ## Lookup by name -/

/-- What a lookup returns, and the structure behind the pointer it was given. -/
def storeDentry (found : Option Dentry) (dentry : Dentry) : Int × Dentry :=
  match found with
  | some entry => (0, entry)
  | none => (-1, dentry)

/-- The first entry with the whole name is stored; when there is none the lookup fails. -/
structure ExactLookup (img : Image) (fname : List UInt8) (dentry : Dentry) (result : Int × Dentry) :
    Prop where
  found : result.1 = 0 ↔ ∃ i < img.amtDentrys, (img.entry i).name = fname
  first : ∀ i < img.amtDentrys, (img.entry i).name = fname →
    (∀ j < i, (img.entry j).name ≠ fname) → result.2 = img.entry i
  missing : result.1 ≠ 0 → result = (-1, dentry)

/-- A file name that fits the field is looked up as a whole. -/
theorem exactLookup_short {img : Image} (hcount : img.amtDentrys ≤ 63) {fname : List UInt8}
    (hfname : NUL ∉ fname) (hshort : fname.length ≤ FILE_NAME_SIZE) (dentry : Dentry) :
    ExactLookup img fname dentry (storeDentry (readDentryByName img fname) dentry) := by
  have htake : fname.take FILE_NAME_SIZE = fname := List.take_of_length_le hshort
  cases hfind : readDentryByName img fname with
  | none =>
      have hnone := (readDentryByName_eq_none hcount hfname).mp hfind
      rw [htake] at hnone
      refine ⟨⟨fun h => absurd h (by simp [storeDentry]), ?_⟩, ?_, fun _ => rfl⟩
      · rintro ⟨i, hlt, hname⟩
        exact absurd hname (hnone i hlt)
      · intro i hlt hname
        exact absurd hname (hnone i hlt)
  | some entry =>
      obtain ⟨i, hlt, rfl, hname, hfirst⟩ := (readDentryByName_eq_some hcount hfname).mp hfind
      rw [htake] at hname hfirst
      refine ⟨⟨fun _ => ⟨i, hlt, hname⟩, fun _ => rfl⟩, ?_, fun h => absurd rfl h⟩
      intro j hj hname' hfirst'
      rcases Nat.lt_trichotomy i j with hless | rfl | hless
      · exact absurd hname (hfirst' i hless)
      · rfl
      · exact absurd hname' (hfirst j hless)

/-- The lookup by name is exact unless the file name goes on behind an entry's 32 bytes. -/
theorem exactLookup_iff {img : Image} (hcount : img.amtDentrys ≤ 63) {fname : List UInt8}
    (hfname : NUL ∉ fname) (dentry : Dentry) :
    ExactLookup img fname dentry (storeDentry (readDentryByName img fname) dentry) ↔
      ¬ (FILE_NAME_SIZE < fname.length ∧
        ∃ i < img.amtDentrys, (img.entry i).name = fname.take FILE_NAME_SIZE) := by
  by_cases hshort : fname.length ≤ FILE_NAME_SIZE
  · refine ⟨fun _ hlong => ?_, fun _ => exactLookup_short hcount hfname hshort dentry⟩
    exact absurd hlong.1 (Nat.not_lt.mpr hshort)
  · have hlong : FILE_NAME_SIZE < fname.length := Nat.lt_of_not_le hshort
    -- no entry has a name that long
    have hnone : ∀ i, (img.entry i).name ≠ fname := by
      intro i heq
      have hle := Dentry.name_length_le img i
      rw [heq] at hle
      exact hshort hle
    constructor
    · rintro hexact ⟨-, i, hlt, hname⟩
      cases hfind : readDentryByName img fname with
      | none => exact (readDentryByName_eq_none hcount hfname).mp hfind i hlt hname
      | some entry =>
          rw [hfind] at hexact
          obtain ⟨j, -, hname'⟩ := hexact.found.mp rfl
          exact hnone j hname'
    · intro hother
      have hfind : readDentryByName img fname = none := by
        rw [readDentryByName_eq_none hcount hfname]
        intro i hlt hname
        exact hother ⟨hlong, i, hlt, hname⟩
      rw [hfind]
      refine ⟨⟨fun h => absurd h (by simp [storeDentry]), ?_⟩,
        fun i _ hname => absurd hname (hnone i), fun _ => rfl⟩
      rintro ⟨i, -, hname⟩
      exact absurd hname (hnone i)

/-- The shell is found under its name. -/
theorem exactLookup_shell :
    ExactLookup shellImage shellCommand (shellImage.entry 7)
      (storeDentry (readDentryByName shellImage shellCommand) (shellImage.entry 7)) := by
  refine (exactLookup_iff (by decide +kernel) (by decide) _).mpr ?_
  rintro ⟨hlong, -⟩
  exact absurd hlong (by decide)

/-- A boot block with one entry, whose name fills the field with the letter `a`. -/
def fullName : Image where
  filesysAddr := 0x410000
  mem addr := if addr = 0x410000 then 1 else if 0x410040 ≤ addr ∧ addr < 0x410060 then 97 else 0

/-- A name of 33 letters is found under the first 32 of them. -/
theorem fullName_found :
    ¬ ExactLookup fullName (List.replicate 33 97) (fullName.entry 7)
      (storeDentry (readDentryByName fullName (List.replicate 33 97)) (fullName.entry 7)) := by
  intro hexact
  have hfind : (storeDentry (readDentryByName fullName (List.replicate 33 97))
      (fullName.entry 7)).1 = 0 := by decide +kernel
  obtain ⟨i, -, hname⟩ := hexact.found.mp hfind
  have hle := Dentry.name_length_le fullName i
  rw [hname, List.length_replicate] at hle
  exact absurd hle (by decide)

/-! ## Lookup by index -/

/-- What `read_dentry_by_index` accepts, and what it stores. -/
theorem readDentryByIndex_eq_some {img : Image} {index : Nat} {entry : Dentry} :
    readDentryByIndex img index = some entry ↔
      index ≤ img.amtDentrys ∧ entry = img.entry index := by
  unfold readDentryByIndex
  split
  · next hpast =>
    simp only [false_iff, not_and, reduceCtorEq]
    intro hle
    omega
  · next hle =>
    rw [Option.some_inj]
    exact ⟨fun heq => ⟨by omega, heq.symm⟩, fun h => h.2.symm⟩

/-- The lookup by index takes the indices of the entries, and a name is found exactly where
one of them has it, in the first one. -/
structure LookupsAgree (img : Image) (index : Nat) (name : List UInt8) (dentry : Dentry) :
    Prop where
  byIndex : storeDentry (readDentryByIndex img index) dentry =
    if index < img.amtDentrys then (0, img.entry index) else (-1, dentry)
  found : (∃ entry, readDentryByName img name = some entry) ↔
    ∃ i entry, readDentryByIndex img i = some entry ∧ entry.name = name
  first : ∀ entry, readDentryByName img name = some entry →
    ∃ i, readDentryByIndex img i = some entry ∧ entry.name = name ∧
      ∀ j < i, ∀ other, readDentryByIndex img j = some other → other.name ≠ name

/-- The check of the index is exact but for the index behind the last entry. -/
theorem readDentryByIndex_exact_iff (img : Image) (index : Nat) (dentry : Dentry) :
    storeDentry (readDentryByIndex img index) dentry =
        (if index < img.amtDentrys then (0, img.entry index) else (-1, dentry)) ↔
      index ≠ img.amtDentrys := by
  rcases Nat.lt_trichotomy index img.amtDentrys with hlt | rfl | hgt
  · rw [if_pos hlt, readDentryByIndex_eq_some.mpr ⟨hlt.le, rfl⟩]
    exact ⟨fun _ => hlt.ne, fun _ => rfl⟩
  · rw [if_neg (Nat.lt_irrefl _), readDentryByIndex_eq_some.mpr ⟨le_rfl, rfl⟩]
    refine ⟨fun heq => absurd (congrArg Prod.fst heq) ?_, fun h => absurd rfl h⟩
    simp [storeDentry]
  · rw [if_neg hgt.not_gt, readDentryByIndex, if_pos hgt]
    exact ⟨fun _ => hgt.ne', fun _ => rfl⟩

/-- The lookups agree except for the index behind the last entry, and for a name that only
stands there. -/
theorem lookupsAgree_iff {img : Image} (hcount : img.amtDentrys ≤ 63) {name : List UInt8}
    (hname : NUL ∉ name) (hshort : name.length < FILE_NAME_SIZE) (index : Nat) (dentry : Dentry) :
    LookupsAgree img index name dentry ↔
      index ≠ img.amtDentrys ∧
        ¬ ((img.entry img.amtDentrys).name = name ∧
          ∀ i < img.amtDentrys, (img.entry i).name ≠ name) := by
  have htake : name.take FILE_NAME_SIZE = name := List.take_of_length_le hshort.le
  have hnone : readDentryByName img name = none ↔
      ∀ i < img.amtDentrys, (img.entry i).name ≠ name := by
    rw [readDentryByName_eq_none hcount hname, htake]
  constructor
  · intro hagree
    refine ⟨(readDentryByIndex_exact_iff img index dentry).mp hagree.byIndex, ?_⟩
    rintro ⟨hlast, hmissing⟩
    obtain ⟨entry, hfind⟩ := hagree.found.mpr
      ⟨img.amtDentrys, _, readDentryByIndex_eq_some.mpr ⟨le_rfl, rfl⟩, hlast⟩
    rw [hnone.mpr hmissing] at hfind
    cases hfind
  · rintro ⟨hindex, hlast⟩
    have hfirst : ∀ entry, readDentryByName img name = some entry →
        ∃ i, readDentryByIndex img i = some entry ∧ entry.name = name ∧
          ∀ j < i, ∀ other, readDentryByIndex img j = some other → other.name ≠ name := by
      intro entry hfind
      obtain ⟨i, hlt, rfl, heq, hbefore⟩ := (readDentryByName_eq_some hcount hname).mp hfind
      rw [htake] at heq hbefore
      refine ⟨i, readDentryByIndex_eq_some.mpr ⟨hlt.le, rfl⟩, heq, fun j hj other hother => ?_⟩
      obtain ⟨-, rfl⟩ := readDentryByIndex_eq_some.mp hother
      exact hbefore j hj
    refine ⟨(readDentryByIndex_exact_iff img index dentry).mpr hindex, ⟨?_, ?_⟩, hfirst⟩
    · rintro ⟨entry, hfind⟩
      obtain ⟨i, hat, heq, -⟩ := hfirst entry hfind
      exact ⟨i, entry, hat, heq⟩
    · rintro ⟨i, entry, hat, heq⟩
      obtain ⟨hle, rfl⟩ := readDentryByIndex_eq_some.mp hat
      by_contra hmissing
      have hnotFound := hnone.mp (Option.eq_none_iff_forall_ne_some.mpr fun entry hfind =>
        hmissing ⟨entry, hfind⟩)
      rcases Nat.lt_or_eq_of_le hle with hlt | rfl
      · exact hnotFound i hlt heq
      · exact hlast ⟨heq, hnotFound⟩

/-- The shell is found by its name and by its index. -/
theorem lookupsAgree_shell :
    LookupsAgree shellImage 0 shellCommand (shellImage.entry 7) := by
  refine (lookupsAgree_iff (by decide +kernel) (by decide) (by decide) 0 _).mpr ?_
  refine ⟨by decide +kernel, ?_⟩
  rintro ⟨-, hmissing⟩
  exact hmissing 0 (by decide +kernel) (by decide +kernel)

/-- The index behind the only entry is accepted, with a nameless entry that no name finds. -/
theorem lookups_disagree : ¬ LookupsAgree shellImage 1 [] (shellImage.entry 7) := by
  intro hagree
  have hone : shellImage.amtDentrys = 1 := by decide +kernel
  have hindex := congrArg Prod.fst hagree.byIndex
  rw [hone, if_neg (Nat.lt_irrefl 1)] at hindex
  have haccepted : (storeDentry (readDentryByIndex shellImage 1) (shellImage.entry 7)).1 = 0 := by
    decide +kernel
  rw [haccepted] at hindex
  exact absurd hindex (by decide)

end Ece391
