import Mathlib.Logic.Function.Basic
import Mathlib.Data.List.Induction

/-! # The page walk of a 32-bit x86

A directory of 1024 entries leads to pages of 4 MB or to tables of 1024 entries, and
these to pages of 4 KB. Of an entry the walk reads the present, the user and the size
bit and the address; what the processor sets by itself it does not read.
-/

namespace PageWalk

open Function

def entriesPerTable : Nat := 1024
def smallPage : Nat := 0x1000
def largePage : Nat := 0x400000

/-- Where a virtual address leads, and whether user code may follow it. -/
structure Mapping where
  phys : Nat
  user : Bool
  deriving DecidableEq

/-- Bit 0 of an entry. -/
def Present (entry : Nat) : Prop := entry % 2 = 1

/-- Bit 2 of an entry. -/
def userBit (entry : Nat) : Bool := entry / 4 % 2 = 1

/-- Bit 7 of a directory entry. -/
def Large (entry : Nat) : Prop := entry / 128 % 2 = 1

instance (entry : Nat) : Decidable (Present entry) := inferInstanceAs (Decidable (_ = _))
instance (entry : Nat) : Decidable (Large entry) := inferInstanceAs (Decidable (_ = _))

theorem userBit_eq_true {entry : Nat} : userBit entry = true ↔ entry / 4 % 2 = 1 :=
  decide_eq_true_iff

theorem userBit_eq_false {entry : Nat} : userBit entry = false ↔ ¬ entry / 4 % 2 = 1 :=
  decide_eq_false_iff_not

/-- The address part of an entry, for pages of a size. -/
def target (entry size : Nat) : Nat := entry / size * size

/-- The directory entry of an address. -/
def directoryEntry (word : Nat → Nat) (directory vaddr : Nat) : Nat :=
  word (directory + 4 * (vaddr / largePage))

/-- The entry of an address in the table a directory entry names. -/
def tableEntry (word : Nat → Nat) (pde vaddr : Nat) : Nat :=
  word (target pde smallPage + 4 * (vaddr / smallPage % entriesPerTable))

/-- The walk from a directory; `word` is the word at a physical address. -/
def walk (word : Nat → Nat) (directory vaddr : Nat) : Option Mapping :=
  let pde := directoryEntry word directory vaddr
  if ¬ Present pde then none
  else if Large pde then some ⟨target pde largePage + vaddr % largePage, userBit pde⟩
  else
    let pte := tableEntry word pde vaddr
    if ¬ Present pte then none
    else some ⟨target pte smallPage + vaddr % smallPage, userBit pde && userBit pte⟩

section Walk

variable {word : Nat → Nat} {directory vaddr : Nat}

theorem walk_of_absent (habsent : ¬ Present (directoryEntry word directory vaddr)) :
    walk word directory vaddr = none := if_pos habsent

theorem walk_of_large (hpresent : Present (directoryEntry word directory vaddr))
    (hlarge : Large (directoryEntry word directory vaddr)) :
    walk word directory vaddr =
      some ⟨target (directoryEntry word directory vaddr) largePage + vaddr % largePage,
        userBit (directoryEntry word directory vaddr)⟩ := by
  unfold walk
  rw [if_neg (not_not_intro hpresent), if_pos hlarge]

theorem walk_of_table_absent (hsmall : ¬ Large (directoryEntry word directory vaddr))
    (habsent : ¬ Present (tableEntry word (directoryEntry word directory vaddr) vaddr)) :
    walk word directory vaddr = none := by
  by_cases hpresent : Present (directoryEntry word directory vaddr)
  · unfold walk
    rw [if_neg (not_not_intro hpresent), if_neg hsmall, if_pos habsent]
  · exact walk_of_absent hpresent

theorem walk_of_table (hpresent : Present (directoryEntry word directory vaddr))
    (hsmall : ¬ Large (directoryEntry word directory vaddr))
    (htable : Present (tableEntry word (directoryEntry word directory vaddr) vaddr)) :
    walk word directory vaddr =
      some ⟨target (tableEntry word (directoryEntry word directory vaddr) vaddr) smallPage +
          vaddr % smallPage,
        userBit (directoryEntry word directory vaddr) &&
          userBit (tableEntry word (directoryEntry word directory vaddr) vaddr)⟩ := by
  unfold walk
  rw [if_neg (not_not_intro hpresent), if_neg hsmall, if_neg (not_not_intro htable)]

/-- No address of a directory entry is mapped: the entry is absent, or all entries of the
table it names are. -/
def Vacant (word : Nat → Nat) (pde : Nat) : Prop :=
  Present pde →
    ¬ Large pde ∧ ∀ j < entriesPerTable, ¬ Present (word (target pde smallPage + 4 * j))

theorem walk_of_vacant (hvacant : Vacant word (directoryEntry word directory vaddr)) :
    walk word directory vaddr = none := by
  by_cases hpresent : Present (directoryEntry word directory vaddr)
  · obtain ⟨hsmall, habsent⟩ := hvacant hpresent
    exact walk_of_table_absent hsmall (habsent _ (Nat.mod_lt _ (by decide)))
  · exact walk_of_absent hpresent

/-- Conversely, an entry of which no address is mapped is vacant. -/
theorem vacant_of_walk {i : Nat}
    (hnone : ∀ vaddr, vaddr / largePage = i → walk word directory vaddr = none) :
    Vacant word (word (directory + 4 * i)) := by
  intro hpresent
  have hentry : ∀ vaddr, vaddr / largePage = i →
      directoryEntry word directory vaddr = word (directory + 4 * i) := by
    rintro vaddr rfl
    rfl
  have hsmall : ¬ Large (word (directory + 4 * i)) := by
    intro hlarge
    have hfirst : i * largePage / largePage = i := Nat.mul_div_cancel i (by decide)
    have hwalk := hnone _ hfirst
    rw [walk_of_large (by rwa [hentry _ hfirst]) (by rwa [hentry _ hfirst])] at hwalk
    exact absurd hwalk (by simp)
  refine ⟨hsmall, fun j hj hentryPresent => ?_⟩
  -- the address of page `j` below the entry
  have hdir : (i * largePage + j * smallPage) / largePage = i := by
    simp only [entriesPerTable, largePage, smallPage] at hj ⊢
    omega
  have hindex : (i * largePage + j * smallPage) / smallPage % entriesPerTable = j := by
    simp only [entriesPerTable, largePage, smallPage] at hj ⊢
    omega
  have htable : Present (tableEntry word
      (directoryEntry word directory (i * largePage + j * smallPage))
      (i * largePage + j * smallPage)) := by
    unfold tableEntry
    rwa [hentry _ hdir, hindex]
  have hwalk := hnone _ hdir
  rw [walk_of_table (by rwa [hentry _ hdir]) (by rwa [hentry _ hdir]) htable] at hwalk
  exact absurd hwalk (by simp)

end Walk

/-! ## Tables in pages of their own -/

/-- Entries of tables that start at page boundaries do not overlap. -/
theorem entry_inj {base base' i j : Nat} (hbase : base % smallPage = 0)
    (hbase' : base' % smallPage = 0) (hi : i < entriesPerTable) (hj : j < entriesPerTable)
    (heq : base + 4 * i = base' + 4 * j) : base = base' ∧ i = j := by
  simp only [smallPage, entriesPerTable] at *
  omega

/-! ## Successive stores -/

/-- Words stored one after the other. -/
def storeAll (word : Nat → Nat) (stores : List (Nat × Nat)) : Nat → Nat :=
  stores.foldl (fun word store => update word store.1 store.2) word

@[simp] theorem storeAll_nil (word : Nat → Nat) : storeAll word [] = word := rfl

theorem storeAll_append (word : Nat → Nat) (first second : List (Nat × Nat)) :
    storeAll word (first ++ second) = storeAll (storeAll word first) second :=
  List.foldl_append

/-- A word is what was stored there last, or what it was before. -/
theorem storeAll_eq (word : Nat → Nat) (stores : List (Nat × Nat)) (addr : Nat) :
    storeAll word stores addr =
      (((stores.filter fun store => store.1 = addr).getLast?).map Prod.snd).getD (word addr) := by
  induction stores using List.reverseRecOn with
  | nil => rfl
  | append_singleton stores store ih =>
      rw [storeAll_append, List.filter_append]
      change update (storeAll word stores) store.1 store.2 addr = _
      by_cases heq : store.1 = addr
      · subst heq
        simp
      · rw [update_of_ne (Ne.symm heq), ih]
        simp [heq]

end PageWalk
