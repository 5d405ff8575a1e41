import Ece391.Kernel
import Ece391.Lib.PageWalk
import Mathlib.Tactic.IntervalCases

/-! # The address-space map

The three tables of `paging.h` are declared with 16 entries each and start a page of
their own; the processor reads 1024 entries from there. `paging_init` fills the 16 and
four entries of the page table behind them, and the other functions go on with three
entries. What the remaining words hold is whatever memory held.
-/

namespace Ece391

open Function PageWalk

def PAGE_TABLE_SIZE : Nat := 0x10
def KERNEL_PHYS_ADDR : Nat := 0x400000
/-- The directory entry of the program page; the name is the source's. -/
def _4B : Nat := 0x20

/-- The bits `paging_init` calls `page`, `kernelPage` and `videoPage`. -/
def tableBits : Nat := 0x017
def kernelPage : Nat := 0x83
def videoPage : Nat := 0x003

/-! ## The tables in memory -/

inductive Table where
  | pageTable
  | pgTbl_vidMem
  | pageDirectory
  deriving DecidableEq

/-- Where the linker puts the tables: each at a page boundary of its own. -/
structure TableLayout where
  base : Table → Nat
  aligned : ∀ t, base t % PAGE_MEM_SIZE = 0
  inj : Injective base

/-- The addresses in the linked kernel. -/
def linkedTables : TableLayout where
  base
    | .pageTable => 0x409000
    | .pgTbl_vidMem => pgTbl_vidMem
    | .pageDirectory => 0x40a000
  aligned t := by cases t <;> decide
  inj t t' heq := by cases t <;> cases t' <;> first | rfl | exact absurd heq (by decide)

/-- An assignment to an entry of a table. -/
structure EntryStore where
  table : Table
  index : Nat
  value : Nat
  deriving DecidableEq

namespace TableLayout

variable (layout : TableLayout)

def entryAddr (t : Table) (i : Nat) : Nat := layout.base t + 4 * i

/-- The stores of `paging_init`, in order. -/
def pagingInit : List EntryStore :=
  ((List.range PAGE_TABLE_SIZE).flatMap fun i =>
      [⟨.pageTable, i, 0⟩, ⟨.pageDirectory, i, 0x00000002⟩]) ++
    [⟨.pageDirectory, 0, layout.base .pageTable ||| tableBits⟩,
      ⟨.pageDirectory, 1, KERNEL_PHYS_ADDR ||| kernelPage⟩,
      ⟨.pageTable, VideoPage.screen.addr / PAGE_MEM_SIZE, VideoPage.screen.addr ||| videoPage⟩,
      ⟨.pageTable, (VideoPage.buffer .T1).addr / PAGE_MEM_SIZE,
        (VideoPage.buffer .T1).addr ||| kernelPage⟩,
      ⟨.pageTable, (VideoPage.buffer .T2).addr / PAGE_MEM_SIZE,
        (VideoPage.buffer .T2).addr ||| kernelPage⟩,
      ⟨.pageTable, (VideoPage.buffer .T3).addr / PAGE_MEM_SIZE,
        (VideoPage.buffer .T3).addr ||| kernelPage⟩]

end TableLayout

/-- What the other functions change in the map. `pit_handler` remaps the program page
only when it rotates, to the head of the next terminal. -/
inductive MapUpdate where
  | execute (pcbIndex : Nat)
  | halt (processNum : Nat)
  | pitHandler (page : VideoPage) (head : Option Nat)
  | vidmap (page : VideoPage)

/-- The directory entry for the frame of a process, as the word that is stored. -/
def programEntry (num : Nat) : Nat := u32 (userPageOf num)

namespace MapUpdate

/-- The stores of an update, in order. -/
def stores (layout : TableLayout) : MapUpdate → List EntryStore
  | .execute pcbIndex => [⟨.pageDirectory, _4B, programEntry (pcbIndex + 1)⟩]
  | .halt processNum => [⟨.pageDirectory, _4B, programEntry processNum⟩]
  | .pitHandler page head =>
      ⟨.pgTbl_vidMem, 0, vidEntryOf page⟩ ::
        (head.map fun num => EntryStore.mk .pageDirectory _4B (programEntry num)).toList
  | .vidmap page =>
      [⟨.pageDirectory, USER_VID_ADDR / _4MB, layout.base .pgTbl_vidMem ||| VID_PAGE⟩,
        ⟨.pgTbl_vidMem, 0, vidEntryOf page⟩]

/-- The process whose frame the update maps. -/
def program? : MapUpdate → Option Nat
  | .execute pcbIndex => some (pcbIndex + 1)
  | .halt processNum => some processNum
  | .pitHandler _ head => head
  | .vidmap _ => none

/-- The page the update puts behind the user's video page. -/
def video? : MapUpdate → Option VideoPage
  | .pitHandler page _ | .vidmap page => some page
  | .execute _ | .halt _ => none

/-- The page with which the update installs the user's video table. -/
def vidmap? : MapUpdate → Option VideoPage
  | .vidmap page => some page
  | .execute _ | .halt _ | .pitHandler _ _ => none

end MapUpdate

/-- The last value of a kind in a sequence of updates. -/
def lastOf {α : Type} (kind : MapUpdate → Option α) (updates : List MapUpdate) : Option α :=
  (updates.filterMap kind).getLast?

/-- Physical memory when the kernel starts: the declared entries have static storage and
are zero. -/
structure TableMemory (layout : TableLayout) where
  word : Nat → Nat
  zero : ∀ t, ∀ i < PAGE_TABLE_SIZE, word (layout.entryAddr t i) = 0

namespace TableMemory

variable {layout : TableLayout} (memory : TableMemory layout) (updates : List MapUpdate)

/-- All stores of `paging_init` and a sequence of updates. -/
def allStores (layout : TableLayout) (updates : List MapUpdate) : List EntryStore :=
  layout.pagingInit ++ updates.flatMap (MapUpdate.stores layout)

/-- Memory after them. -/
def after : Nat → Nat :=
  storeAll memory.word ((allStores layout updates).map fun store =>
    (layout.entryAddr store.table store.index, store.value))

/-- The walk from `pageDirectory`, which is what `paging_init` loads into CR3. -/
def mapped (vaddr : Nat) : Option Mapping :=
  walk (memory.after updates) (layout.base .pageDirectory) vaddr

/-- An entry no store has reached. -/
def Unwritten (layout : TableLayout) (updates : List MapUpdate) (t : Table) (i : Nat) : Prop :=
  ∀ store ∈ allStores layout updates, ¬ (store.table = t ∧ store.index = i)

/-- Every store lies inside the array it names. -/
def StoresInside (layout : TableLayout) (updates : List MapUpdate) : Prop :=
  ∀ store ∈ allStores layout updates, store.index < PAGE_TABLE_SIZE

/-- The addresses the map is meant to have. -/
inductive Meant (updates : List MapUpdate) (vaddr : Nat) : Prop
  | kernel (hge : _4MB ≤ vaddr) (hlt : vaddr < _8MB)
  | video (page : VideoPage) (hge : page.addr ≤ vaddr) (hlt : vaddr < page.addr + PAGE_MEM_SIZE)
  | program (num : Nat) (hlast : lastOf MapUpdate.program? updates = some num)
      (hge : _128MB ≤ vaddr) (hlt : vaddr < USER_VID_ADDR)
  | userVideo (page : VideoPage) (hlast : lastOf MapUpdate.vidmap? updates = some page)
      (hge : USER_VID_ADDR ≤ vaddr) (hlt : vaddr < USER_VID_ADDR + PAGE_MEM_SIZE)

/-- The kernel's pages and the video pages map to themselves for the supervisor, the
program page and, after `vidmap`, the user's video page for the user; nothing else is
present. -/
structure AddressSpaceMap : Prop where
  kernel : ∀ vaddr, _4MB ≤ vaddr → vaddr < _8MB → memory.mapped updates vaddr = some ⟨vaddr, false⟩
  video : ∀ (page : VideoPage) (vaddr : Nat), page.addr ≤ vaddr →
    vaddr < page.addr + PAGE_MEM_SIZE → memory.mapped updates vaddr = some ⟨vaddr, false⟩
  program : ∀ num, lastOf MapUpdate.program? updates = some num → ∀ vaddr, _128MB ≤ vaddr →
    vaddr < USER_VID_ADDR →
    memory.mapped updates vaddr = some ⟨frameOf (programEntry num) + (vaddr - _128MB), true⟩
  userVideo : (lastOf MapUpdate.vidmap? updates).isSome → ∃ page : VideoPage, ∀ vaddr,
    USER_VID_ADDR ≤ vaddr → vaddr < USER_VID_ADDR + PAGE_MEM_SIZE →
    memory.mapped updates vaddr = some ⟨page.addr + (vaddr - USER_VID_ADDR), true⟩
  absent : ∀ vaddr < 2 ^ 32, ¬ Meant updates vaddr → memory.mapped updates vaddr = none

/-- What memory must hold behind the arrays: the directory entries lead nowhere, and the
entries of the two tables are not present. The user's video table counts after `vidmap`. -/
structure BehindAbsent : Prop where
  directory : ∀ i, PAGE_TABLE_SIZE ≤ i → i < entriesPerTable →
    Unwritten layout updates .pageDirectory i →
    Vacant (memory.after updates) (memory.word (layout.entryAddr .pageDirectory i))
  table : ∀ i, PAGE_TABLE_SIZE ≤ i → i < entriesPerTable → Unwritten layout updates .pageTable i →
    ¬ Present (memory.word (layout.entryAddr .pageTable i))
  video : (lastOf MapUpdate.vidmap? updates).isSome → ∀ i, PAGE_TABLE_SIZE ≤ i →
    i < entriesPerTable → ¬ Present (memory.word (layout.entryAddr .pgTbl_vidMem i))

end TableMemory

/-! ## The entries after the stores -/

/-- The value stored in an entry last. -/
def lastStored (stores : List EntryStore) (t : Table) (i : Nat) : Option Nat :=
  ((stores.filter fun store => store.table = t ∧ store.index = i).getLast?).map EntryStore.value

theorem lastStored_append (first second : List EntryStore) (t : Table) (i : Nat) :
    lastStored (first ++ second) t i =
      (lastStored second t i).or (lastStored first t i) := by
  unfold lastStored
  rw [List.filter_append, List.getLast?_append, Option.map_or]

theorem lastStored_eq_none {stores : List EntryStore} {t : Table} {i : Nat}
    (hnone : ∀ store ∈ stores, ¬ (store.table = t ∧ store.index = i)) :
    lastStored stores t i = none := by
  have hempty : (stores.filter fun store => store.table = t ∧ store.index = i) = [] := by
    rw [List.filter_eq_nil_iff]
    simpa using hnone
  unfold lastStored
  rw [hempty]
  rfl

namespace TableLayout

variable (layout : TableLayout)

theorem entryAddr_inj {t t' : Table} {i j : Nat} (hi : i < entriesPerTable)
    (hj : j < entriesPerTable) :
    layout.entryAddr t i = layout.entryAddr t' j ↔ t = t' ∧ i = j := by
  constructor
  · intro heq
    obtain ⟨hbase, hindex⟩ := entry_inj (layout.aligned t) (layout.aligned t') hi hj heq
    exact ⟨layout.inj hbase, hindex⟩
  · rintro ⟨rfl, rfl⟩
    rfl

theorem pagingInit_index : ∀ store ∈ layout.pagingInit, store.index < entriesPerTable := by
  intro store hstore
  rcases List.mem_append.mp hstore with hloop | hrest
  · obtain ⟨i, hi, hmem⟩ := List.mem_flatMap.mp hloop
    have hlt : i < PAGE_TABLE_SIZE := List.mem_range.mp hi
    simp only [PAGE_TABLE_SIZE] at hlt
    simp only [List.mem_cons, List.not_mem_nil, or_false] at hmem
    rcases hmem with rfl | rfl <;> simp only [entriesPerTable] <;> omega
  · simp only [List.mem_cons, List.not_mem_nil, or_false] at hrest
    rcases hrest with rfl | rfl | rfl | rfl | rfl | rfl <;>
      simp [entriesPerTable, VideoPage.addr, PAGE_MEM_SIZE]

/-- What the loop and the six assignments of `paging_init` leave. -/
theorem pagingInit_pageDirectory_zero : lastStored layout.pagingInit .pageDirectory 0 =
    some (layout.base .pageTable ||| tableBits) := rfl

theorem pagingInit_pageDirectory_one : lastStored layout.pagingInit .pageDirectory 1 =
    some (KERNEL_PHYS_ADDR ||| kernelPage) := rfl

theorem pagingInit_pageDirectory {i : Nat} (hge : 2 ≤ i) (hlt : i < PAGE_TABLE_SIZE) :
    lastStored layout.pagingInit .pageDirectory i = some 2 := by
  simp only [PAGE_TABLE_SIZE] at hlt
  interval_cases i <;> rfl

theorem pagingInit_pageTable {i : Nat} (hlt : i < PAGE_TABLE_SIZE) :
    lastStored layout.pagingInit .pageTable i = some 0 := by
  simp only [PAGE_TABLE_SIZE] at hlt
  interval_cases i <;> rfl

/-- The four video pages are present and closed to the user. -/
theorem pagingInit_video (page : VideoPage) :
    ∃ bits, lastStored layout.pagingInit .pageTable (page.addr / PAGE_MEM_SIZE) =
      some (page.addr ||| bits) ∧ (bits = videoPage ∨ bits = kernelPage) := by
  cases page with
  | screen => exact ⟨videoPage, rfl, .inl rfl⟩
  | buffer t => cases t <;> exact ⟨kernelPage, rfl, .inr rfl⟩

end TableLayout

theorem MapUpdate.stores_index (layout : TableLayout) (update : MapUpdate) :
    ∀ store ∈ update.stores layout, store.index < entriesPerTable := by
  intro store hstore
  cases update with
  | execute | halt =>
      obtain rfl := List.mem_singleton.mp hstore
      simp [_4B, entriesPerTable]
  | pitHandler page head =>
      cases head with
      | none =>
          obtain rfl := List.mem_singleton.mp hstore
          simp [entriesPerTable]
      | some num =>
          simp only [stores, Option.map_some, Option.toList_some, List.mem_cons,
            List.not_mem_nil, or_false] at hstore
          rcases hstore with rfl | rfl <;> simp [_4B, entriesPerTable]
  | vidmap page =>
      simp only [stores, List.mem_cons, List.not_mem_nil, or_false] at hstore
      rcases hstore with rfl | rfl <;> simp [USER_VID_ADDR, _4MB, entriesPerTable]

/-- An update writes three entries only. -/
theorem MapUpdate.lastStored_stores (layout : TableLayout) (update : MapUpdate) (t : Table)
    (i : Nat) :
    lastStored (update.stores layout) t i =
      if t = .pageDirectory ∧ i = _4B then update.program?.map programEntry
      else if t = .pageDirectory ∧ i = USER_VID_ADDR / _4MB then
        update.vidmap?.map fun _ => layout.base .pgTbl_vidMem ||| VID_PAGE
      else if t = .pgTbl_vidMem ∧ i = 0 then update.video?.map vidEntryOf
      else none := by
  by_cases hprogram : t = .pageDirectory ∧ i = _4B
  · obtain ⟨rfl, rfl⟩ := hprogram
    rw [if_pos ⟨rfl, rfl⟩]
    cases update with
    | execute | halt | vidmap => rfl
    | pitHandler page head => cases head <;> rfl
  rw [if_neg hprogram]
  by_cases hdirectory : t = .pageDirectory ∧ i = USER_VID_ADDR / _4MB
  · obtain ⟨rfl, rfl⟩ := hdirectory
    rw [if_pos ⟨rfl, rfl⟩]
    cases update with
    | execute | halt | vidmap => rfl
    | pitHandler page head => cases head <;> rfl
  rw [if_neg hdirectory]
  by_cases hvideo : t = .pgTbl_vidMem ∧ i = 0
  · obtain ⟨rfl, rfl⟩ := hvideo
    rw [if_pos ⟨rfl, rfl⟩]
    cases update with
    | execute | halt | vidmap => rfl
    | pitHandler page head => cases head <;> rfl
  rw [if_neg hvideo]
  apply lastStored_eq_none
  rintro store hstore ⟨rfl, rfl⟩
  cases update with
  | execute | halt =>
      obtain rfl := List.mem_singleton.mp hstore
      exact hprogram ⟨rfl, rfl⟩
  | pitHandler page head =>
      rcases List.mem_cons.mp hstore with rfl | hrest
      · exact hvideo ⟨rfl, rfl⟩
      · obtain ⟨num, -, rfl⟩ : ∃ num, head = some num ∧
            EntryStore.mk .pageDirectory _4B (programEntry num) = store := by
          simpa using hrest
        exact hprogram ⟨rfl, rfl⟩
  | vidmap page =>
      rcases List.mem_cons.mp hstore with rfl | hrest
      · exact hdirectory ⟨rfl, rfl⟩
      · obtain rfl := List.mem_singleton.mp hrest
        exact hvideo ⟨rfl, rfl⟩

theorem lastOf_append {α : Type} (kind : MapUpdate → Option α) (updates : List MapUpdate)
    (update : MapUpdate) :
    lastOf kind (updates ++ [update]) = (kind update).or (lastOf kind updates) := by
  unfold lastOf
  rw [List.filterMap_append, List.getLast?_append]
  cases hkind : kind update <;> simp [hkind]

theorem lastOf_isSome {α : Type} (kind : MapUpdate → Option α) {updates : List MapUpdate}
    {update : MapUpdate} {value : α} (hmem : update ∈ updates) (hkind : kind update = some value) :
    (lastOf kind updates).isSome := by
  have hvalue : value ∈ updates.filterMap kind := List.mem_filterMap.mpr ⟨update, hmem, hkind⟩
  rw [lastOf, List.getLast?_isSome]
  exact List.ne_nil_of_mem hvalue

/-- In a sequence of updates the last one of each kind is what stays. -/
theorem lastStored_updates (layout : TableLayout) (updates : List MapUpdate) (t : Table) (i : Nat) :
    lastStored (updates.flatMap (MapUpdate.stores layout)) t i =
      if t = .pageDirectory ∧ i = _4B then
        (lastOf MapUpdate.program? updates).map programEntry
      else if t = .pageDirectory ∧ i = USER_VID_ADDR / _4MB then
        (lastOf MapUpdate.vidmap? updates).map fun _ => layout.base .pgTbl_vidMem ||| VID_PAGE
      else if t = .pgTbl_vidMem ∧ i = 0 then (lastOf MapUpdate.video? updates).map vidEntryOf
      else none := by
  induction updates using List.reverseRecOn with
  | nil => simp [lastStored, lastOf]
  | append_singleton updates update ih =>
      rw [List.flatMap_append, lastStored_append, ih, List.flatMap_singleton,
        update.lastStored_stores]
      simp only [lastOf_append, Option.map_or]
      split
      · rfl
      · split
        · rfl
        · split <;> rfl

namespace TableMemory

variable {layout : TableLayout} (memory : TableMemory layout) (updates : List MapUpdate)

theorem allStores_index : ∀ store ∈ allStores layout updates, store.index < entriesPerTable := by
  intro store hstore
  rcases List.mem_append.mp hstore with hinit | hupdate
  · exact layout.pagingInit_index store hinit
  · obtain ⟨update, -, hmem⟩ := List.mem_flatMap.mp hupdate
    exact update.stores_index layout store hmem

/-- An entry holds what was stored in it last, or what memory held. -/
theorem after_entry (t : Table) {i : Nat} (hi : i < entriesPerTable) :
    memory.after updates (layout.entryAddr t i) =
      (lastStored (allStores layout updates) t i).getD (memory.word (layout.entryAddr t i)) := by
  unfold after lastStored
  rw [storeAll_eq, List.filter_map, List.getLast?_map]
  have hsame : (allStores layout updates).filter
        ((fun store : Nat × Nat => decide (store.1 = layout.entryAddr t i)) ∘
          fun store : EntryStore => (layout.entryAddr store.table store.index, store.value)) =
      (allStores layout updates).filter fun store => store.table = t ∧ store.index = i := by
    apply List.filter_congr
    intro store hstore
    have hindex := allStores_index updates store hstore
    simp only [Function.comp_apply, layout.entryAddr_inj hindex hi]
  rw [hsame, Option.map_map]
  rfl

theorem after_of_unwritten {t : Table} {i : Nat} (hi : i < entriesPerTable)
    (hunwritten : Unwritten layout updates t i) :
    memory.after updates (layout.entryAddr t i) = memory.word (layout.entryAddr t i) := by
  rw [memory.after_entry updates t hi, lastStored_eq_none hunwritten]
  rfl

/-- What `paging_init` wrote and no update touches. -/
theorem after_of_init {t : Table} {i value : Nat} (hi : i < entriesPerTable)
    (hinit : lastStored layout.pagingInit t i = some value)
    (hprogram : ¬ (t = .pageDirectory ∧ i = _4B))
    (hvidmap : ¬ (t = .pageDirectory ∧ i = USER_VID_ADDR / _4MB))
    (hvideo : ¬ (t = .pgTbl_vidMem ∧ i = 0)) :
    memory.after updates (layout.entryAddr t i) = value := by
  rw [memory.after_entry updates t hi, allStores, lastStored_append, lastStored_updates,
    if_neg hprogram, if_neg hvidmap, if_neg hvideo, hinit]
  rfl

theorem after_program {num : Nat} (hlast : lastOf MapUpdate.program? updates = some num) :
    memory.after updates (layout.entryAddr .pageDirectory _4B) = programEntry num := by
  rw [memory.after_entry updates _ (by decide), allStores, lastStored_append, lastStored_updates,
    if_pos ⟨rfl, rfl⟩, hlast, Option.map_some, Option.some_or, Option.getD_some]

theorem after_vidmap {page : VideoPage} (hlast : lastOf MapUpdate.vidmap? updates = some page) :
    memory.after updates (layout.entryAddr .pageDirectory (USER_VID_ADDR / _4MB)) =
      layout.base .pgTbl_vidMem ||| VID_PAGE := by
  rw [memory.after_entry updates _ (by decide), allStores, lastStored_append, lastStored_updates,
    if_neg (by decide), if_pos ⟨rfl, rfl⟩, hlast, Option.map_some, Option.some_or,
    Option.getD_some]

theorem after_video {page : VideoPage} (hlast : lastOf MapUpdate.video? updates = some page) :
    memory.after updates (layout.entryAddr .pgTbl_vidMem 0) = vidEntryOf page := by
  rw [memory.after_entry updates _ (by decide), allStores, lastStored_append, lastStored_updates,
    if_neg (by decide), if_neg (by decide), if_pos ⟨rfl, rfl⟩, hlast, Option.map_some,
    Option.some_or, Option.getD_some]

/-- The entries of the user's video table behind the first one keep what memory held. -/
theorem after_vidMem {i : Nat} (hpos : 0 < i) (hi : i < entriesPerTable) :
    memory.after updates (layout.entryAddr .pgTbl_vidMem i) =
      memory.word (layout.entryAddr .pgTbl_vidMem i) := by
  have hinit : lastStored layout.pagingInit .pgTbl_vidMem i = none := by
    apply lastStored_eq_none
    rintro store hstore ⟨htable, -⟩
    rcases List.mem_append.mp hstore with hloop | hrest
    · obtain ⟨i, -, hmem⟩ := List.mem_flatMap.mp hloop
      simp only [List.mem_cons, List.not_mem_nil, or_false] at hmem
      rcases hmem with rfl | rfl <;> cases htable
    · simp only [List.mem_cons, List.not_mem_nil, or_false] at hrest
      rcases hrest with rfl | rfl | rfl | rfl | rfl | rfl <;> cases htable
  rw [memory.after_entry updates _ hi, allStores, lastStored_append, lastStored_updates,
    if_neg (fun h => nomatch h.1), if_neg (fun h => nomatch h.1), if_neg (fun h => by omega), hinit]
  rfl

end TableMemory

/-! ## The bits of the entries -/

/-- Flags are put beside an address that is aligned. -/
theorem or_flags {addr flags : Nat} (haligned : addr % smallPage = 0) (hflags : flags < smallPage) :
    addr ||| flags = addr + flags := by
  obtain ⟨page, rfl⟩ := Nat.dvd_of_mod_eq_zero haligned
  exact (Nat.two_pow_add_eq_or_of_lt (i := 12) hflags page).symm

theorem programEntry_eq (num : Nat) :
    programEntry num = (largePage * (num + 1) + MAP_MASK) % 2 ^ 32 := by
  have hframe : _8MB + num * _4MB - _4MB = largePage * (num + 1) := by
    simp only [_8MB, _4MB, largePage]
    omega
  have haligned : largePage * (num + 1) % smallPage = 0 := by
    simp only [largePage, smallPage]
    omega
  rw [programEntry, userPageOf, u32, hframe, or_flags haligned (by decide)]

theorem programEntry_bits (num : Nat) :
    Present (programEntry num) ∧ Large (programEntry num) ∧ userBit (programEntry num) = true := by
  rw [programEntry_eq]
  simp only [userBit_eq_true, Present, Large, largePage, MAP_MASK]
  omega

/-- An entry that leads to a table or a small page with given flags. -/
theorem target_or_flags {addr flags : Nat} (haligned : addr % smallPage = 0)
    (hflags : flags < smallPage) : target (addr ||| flags) smallPage = addr := by
  rw [or_flags haligned hflags]
  simp only [target, smallPage] at *
  omega

theorem VideoPage.addr_aligned (page : VideoPage) : page.addr % smallPage = 0 := by
  cases page with
  | screen => rfl
  | buffer t => cases t <;> rfl

theorem VideoPage.addr_lt (page : VideoPage) : page.addr / PAGE_MEM_SIZE < entriesPerTable := by
  cases page with
  | screen => decide
  | buffer t => cases t <;> decide

theorem vidEntryOf_bits (page : VideoPage) :
    Present (vidEntryOf page) ∧ userBit (vidEntryOf page) = true := by
  rw [vidEntryOf, or_flags page.addr_aligned (by decide)]
  have haligned := page.addr_aligned
  simp only [userBit_eq_true, Present, VID_PAGE, smallPage] at *
  omega

namespace TableLayout

variable (layout : TableLayout)

/-- A directory entry that names one of the tables. -/
theorem table_bits (t : Table) {flags : Nat} (hflags : flags = tableBits ∨ flags = VID_PAGE) :
    Present (layout.base t ||| flags) ∧ ¬ Large (layout.base t ||| flags) ∧
      userBit (layout.base t ||| flags) = true ∧
      target (layout.base t ||| flags) smallPage = layout.base t := by
  have haligned : layout.base t % smallPage = 0 := layout.aligned t
  have hlt : flags < smallPage := by rcases hflags with rfl | rfl <;> decide
  refine ⟨?_, ?_, ?_, target_or_flags haligned hlt⟩
  all_goals
    rw [or_flags haligned hlt]
    simp only [userBit_eq_true, Present, Large, smallPage] at *
    rcases hflags with rfl | rfl <;> simp only [tableBits, VID_PAGE] <;> omega

end TableLayout

/-! ## The walk -/

namespace TableMemory

variable {layout : TableLayout} (memory : TableMemory layout) (updates : List MapUpdate)
  {vaddr : Nat}

theorem directoryEntry_eq {i : Nat} (hi : vaddr / largePage = i) :
    directoryEntry (memory.after updates) (layout.base .pageDirectory) vaddr =
      memory.after updates (layout.entryAddr .pageDirectory i) := by
  subst hi
  rfl

/-- Below 4 MB the page table decides. -/
theorem directoryEntry_low (hlt : vaddr < _4MB) :
    directoryEntry (memory.after updates) (layout.base .pageDirectory) vaddr =
      layout.base .pageTable ||| tableBits := by
  have hi : vaddr / largePage = 0 := Nat.div_eq_of_lt hlt
  rw [memory.directoryEntry_eq updates hi]
  exact memory.after_of_init updates (by decide) layout.pagingInit_pageDirectory_zero
    (by decide) (by decide) (by decide)

theorem tableEntry_low (hlt : vaddr < _4MB) :
    tableEntry (memory.after updates) (layout.base .pageTable ||| tableBits) vaddr =
      memory.after updates (layout.entryAddr .pageTable (vaddr / smallPage)) := by
  have hindex : vaddr / smallPage % entriesPerTable = vaddr / smallPage := by
    simp only [smallPage, entriesPerTable, _4MB] at *
    omega
  rw [tableEntry, (layout.table_bits .pageTable (.inl rfl)).2.2.2, hindex]
  rfl

theorem mapped_kernel (hge : _4MB ≤ vaddr) (hlt : vaddr < _8MB) :
    memory.mapped updates vaddr = some ⟨vaddr, false⟩ := by
  have hi : vaddr / largePage = 1 := by
    simp only [_4MB, _8MB, largePage] at *
    omega
  have hentry := (memory.directoryEntry_eq updates hi).trans
    (memory.after_of_init updates (by decide) layout.pagingInit_pageDirectory_one
      (by decide) (by decide) (by decide))
  rw [mapped, walk_of_large (by rw [hentry]; decide) (by rw [hentry]; decide), hentry]
  have hphys : target (KERNEL_PHYS_ADDR ||| kernelPage) largePage + vaddr % largePage = vaddr := by
    have htarget : target (KERNEL_PHYS_ADDR ||| kernelPage) largePage = _4MB := by decide
    rw [htarget]
    simp only [_4MB, _8MB, largePage] at *
    omega
  rw [hphys]
  rfl

theorem mapped_video (page : VideoPage) (hge : page.addr ≤ vaddr)
    (hlt : vaddr < page.addr + PAGE_MEM_SIZE) :
    memory.mapped updates vaddr = some ⟨vaddr, false⟩ := by
  obtain ⟨bits, hinit, hbits⟩ := layout.pagingInit_video page
  have haligned := page.addr_aligned
  have hindexLt := page.addr_lt
  have hlow : vaddr < _4MB := by
    simp only [_4MB, PAGE_MEM_SIZE, smallPage, entriesPerTable] at *
    omega
  have hindex : vaddr / smallPage = page.addr / PAGE_MEM_SIZE := by
    simp only [PAGE_MEM_SIZE, smallPage] at *
    omega
  have hsmall : bits < smallPage := by rcases hbits with rfl | rfl <;> decide
  have hentry := memory.directoryEntry_low updates hlow
  have htable := memory.tableEntry_low updates hlow
  have hafter := memory.after_of_init updates hindexLt hinit
    (by simp) (by simp) (by simp)
  rw [hindex, hafter] at htable
  obtain ⟨hpresent, hnotLarge, -⟩ := layout.table_bits .pageTable (.inl rfl)
  have hbit : Present (page.addr ||| bits) ∧ userBit (page.addr ||| bits) = false := by
    rw [or_flags haligned hsmall]
    simp only [userBit_eq_false, Present, smallPage] at *
    rcases hbits with rfl | rfl <;> simp only [videoPage, kernelPage] <;> omega
  rw [mapped,
    walk_of_table (by rwa [hentry]) (by rwa [hentry]) (by rw [hentry, htable]; exact hbit.1),
    hentry, htable, hbit.2, Bool.and_false, target_or_flags haligned hsmall]
  have hphys : page.addr + vaddr % smallPage = vaddr := by
    simp only [PAGE_MEM_SIZE, smallPage] at *
    omega
  rw [hphys]

theorem mapped_program {num : Nat} (hlast : lastOf MapUpdate.program? updates = some num)
    (hge : _128MB ≤ vaddr) (hlt : vaddr < USER_VID_ADDR) :
    memory.mapped updates vaddr =
      some ⟨frameOf (programEntry num) + (vaddr - _128MB), true⟩ := by
  have hi : vaddr / largePage = _4B := by
    simp only [_128MB, USER_VID_ADDR, largePage, _4B] at *
    omega
  have hentry := (memory.directoryEntry_eq updates hi).trans (memory.after_program updates hlast)
  obtain ⟨hpresent, hlarge, huser⟩ := programEntry_bits num
  rw [mapped, walk_of_large (by rwa [hentry]) (by rwa [hentry]), hentry, huser]
  have hoffset : vaddr % largePage = vaddr - _128MB := by
    simp only [_128MB, USER_VID_ADDR, largePage] at *
    omega
  rw [hoffset]
  rfl

/-- Once `vidmap` has installed the user's video table, its entries decide. -/
theorem directoryEntry_userVideo {page : VideoPage}
    (hlast : lastOf MapUpdate.vidmap? updates = some page)
    (hi : vaddr / largePage = USER_VID_ADDR / _4MB) :
    directoryEntry (memory.after updates) (layout.base .pageDirectory) vaddr =
      layout.base .pgTbl_vidMem ||| VID_PAGE :=
  (memory.directoryEntry_eq updates hi).trans (memory.after_vidmap updates hlast)

theorem tableEntry_userVideo {i : Nat} (hi : vaddr / smallPage % entriesPerTable = i) :
    tableEntry (memory.after updates) (layout.base .pgTbl_vidMem ||| VID_PAGE) vaddr =
      memory.after updates (layout.entryAddr .pgTbl_vidMem i) := by
  rw [tableEntry, (layout.table_bits .pgTbl_vidMem (.inr rfl)).2.2.2, hi]
  rfl

theorem lastOf_video_of_vidmap {updates : List MapUpdate}
    (hvidmap : (lastOf MapUpdate.vidmap? updates).isSome) :
    ∃ page, lastOf MapUpdate.video? updates = some page := by
  induction updates using List.reverseRecOn with
  | nil => simp [lastOf] at hvidmap
  | append_singleton updates update ih =>
      rw [lastOf_append] at hvidmap ⊢
      cases update with
      | execute | halt => exact ih hvidmap
      | pitHandler page | vidmap page => exact ⟨page, rfl⟩

theorem mapped_userVideo {page shown : VideoPage}
    (hlast : lastOf MapUpdate.vidmap? updates = some page)
    (hshown : lastOf MapUpdate.video? updates = some shown)
    (hge : USER_VID_ADDR ≤ vaddr) (hlt : vaddr < USER_VID_ADDR + PAGE_MEM_SIZE) :
    memory.mapped updates vaddr = some ⟨shown.addr + (vaddr - USER_VID_ADDR), true⟩ := by
  have hi : vaddr / largePage = USER_VID_ADDR / _4MB := by
    simp only [USER_VID_ADDR, PAGE_MEM_SIZE, largePage, _4MB] at *
    omega
  have hindex : vaddr / smallPage % entriesPerTable = 0 := by
    simp only [USER_VID_ADDR, PAGE_MEM_SIZE, smallPage, entriesPerTable] at *
    omega
  have hentry := memory.directoryEntry_userVideo updates hlast hi
  have htable := (memory.tableEntry_userVideo updates hindex).trans
    (memory.after_video updates hshown)
  obtain ⟨hpresent, hnotLarge, huser, -⟩ := layout.table_bits .pgTbl_vidMem (.inr rfl)
  obtain ⟨hentryPresent, hentryUser⟩ := vidEntryOf_bits shown
  rw [mapped, walk_of_table (by rwa [hentry]) (by rwa [hentry]) (by rwa [hentry, htable]),
    hentry, htable, huser, hentryUser]
  have hoffset : vaddr % smallPage = vaddr - USER_VID_ADDR := by
    simp only [USER_VID_ADDR, PAGE_MEM_SIZE, smallPage] at *
    omega
  rw [hoffset, vidEntryOf, target_or_flags shown.addr_aligned (by decide)]
  rfl

/-- A page of 4 KB below 4 MB that is no video page. -/
theorem mapped_low_none (hlt : vaddr < _4MB)
    (habsent : ¬ Present (memory.after updates (layout.entryAddr .pageTable (vaddr / smallPage)))) :
    memory.mapped updates vaddr = none := by
  have hentry := memory.directoryEntry_low updates hlt
  obtain ⟨-, hsmall, -⟩ := layout.table_bits .pageTable (.inl rfl)
  apply walk_of_table_absent
  · rwa [hentry]
  · rwa [hentry, memory.tableEntry_low updates hlt]

/-- Behind the user's video page, once its table is installed. -/
theorem mapped_userVideo_none {page : VideoPage}
    (hlast : lastOf MapUpdate.vidmap? updates = some page)
    (hi : vaddr / largePage = USER_VID_ADDR / _4MB)
    (habsent : ¬ Present (memory.after updates
      (layout.entryAddr .pgTbl_vidMem (vaddr / smallPage % entriesPerTable)))) :
    memory.mapped updates vaddr = none := by
  have hentry := memory.directoryEntry_userVideo updates hlast hi
  obtain ⟨-, hsmall, -⟩ := layout.table_bits .pgTbl_vidMem (.inr rfl)
  apply walk_of_table_absent
  · rwa [hentry]
  · rwa [hentry, memory.tableEntry_userVideo updates rfl]

/-- The entries behind the arrays that some store reaches. -/
theorem written_cases {t : Table} {i : Nat} (hge : PAGE_TABLE_SIZE ≤ i)
    (hwritten : ¬ Unwritten layout updates t i) :
    (t = .pageTable ∧ ∃ page : VideoPage, i = page.addr / PAGE_MEM_SIZE) ∨
      (t = .pageDirectory ∧ i = _4B ∧ (lastOf MapUpdate.program? updates).isSome) ∨
      (t = .pageDirectory ∧ i = USER_VID_ADDR / _4MB ∧
        (lastOf MapUpdate.vidmap? updates).isSome) := by
  simp only [Unwritten, not_forall, not_not] at hwritten
  obtain ⟨store, hstore, rfl, rfl⟩ := hwritten
  rcases List.mem_append.mp hstore with hinit | hupdate
  · rcases List.mem_append.mp hinit with hloop | hrest
    · obtain ⟨i, hi, hmem⟩ := List.mem_flatMap.mp hloop
      have hlt : i < PAGE_TABLE_SIZE := List.mem_range.mp hi
      simp only [List.mem_cons, List.not_mem_nil, or_false] at hmem
      rcases hmem with rfl | rfl <;> exact absurd hlt (Nat.not_lt.mpr hge)
    · simp only [List.mem_cons, List.not_mem_nil, or_false] at hrest
      rcases hrest with rfl | rfl | rfl | rfl | rfl | rfl
      · exact absurd hge (by decide : ¬ PAGE_TABLE_SIZE ≤ 0)
      · exact absurd hge (by decide : ¬ PAGE_TABLE_SIZE ≤ 1)
      all_goals exact .inl ⟨rfl, _, rfl⟩
  · obtain ⟨update, hmember, hmem⟩ := List.mem_flatMap.mp hupdate
    have hfirst : ¬ PAGE_TABLE_SIZE ≤ 0 := by decide
    cases update with
    | execute | halt =>
        obtain rfl := List.mem_singleton.mp hmem
        exact .inr (.inl ⟨rfl, rfl, lastOf_isSome _ hmember rfl⟩)
    | pitHandler page head =>
        rcases List.mem_cons.mp hmem with rfl | hrest
        · exact absurd hge hfirst
        · cases head with
          | none => exact absurd hrest List.not_mem_nil
          | some num =>
              obtain rfl := List.mem_singleton.mp hrest
              exact .inr (.inl ⟨rfl, rfl, lastOf_isSome _ hmember rfl⟩)
    | vidmap page =>
        rcases List.mem_cons.mp hmem with rfl | hrest
        · exact .inr (.inr ⟨rfl, rfl, lastOf_isSome _ hmember rfl⟩)
        · obtain rfl := List.mem_singleton.mp hrest
          exact absurd hge hfirst

/-- Whatever the map is meant to have it has; the rest is absent when memory behind the
arrays is. -/
theorem BehindAbsent.addressSpaceMap {memory : TableMemory layout} {updates : List MapUpdate}
    (hbehind : memory.BehindAbsent updates) : memory.AddressSpaceMap updates where
  kernel _ hge hlt := memory.mapped_kernel updates hge hlt
  video page _ hge hlt := memory.mapped_video updates page hge hlt
  program _ hlast _ hge hlt := memory.mapped_program updates hlast hge hlt
  userVideo hinstalled := by
    obtain ⟨page, hlast⟩ := Option.isSome_iff_exists.mp hinstalled
    obtain ⟨shown, hshown⟩ := lastOf_video_of_vidmap hinstalled
    exact ⟨shown, fun vaddr hge hlt => memory.mapped_userVideo updates hlast hshown hge hlt⟩
  absent vaddr hlt hmeant := by
    have hi : vaddr / largePage < entriesPerTable := by
      simp only [largePage, entriesPerTable]
      omega
    -- the first entry of the directory leads to `pageTable`, the second maps the kernel
    by_cases hlow : vaddr < _4MB
    · apply memory.mapped_low_none updates hlow
      have hj : vaddr / smallPage < entriesPerTable := by
        simp only [smallPage, entriesPerTable, _4MB] at *
        omega
      rcases Nat.lt_or_ge (vaddr / smallPage) PAGE_TABLE_SIZE with hinside | hge
      · rw [memory.after_of_init updates hj (layout.pagingInit_pageTable hinside) (by simp)
          (by simp) (by simp)]
        decide
      · by_cases hunwritten : Unwritten layout updates .pageTable (vaddr / smallPage)
        · rw [memory.after_of_unwritten updates hj hunwritten]
          exact hbehind.table _ hge hj hunwritten
        · obtain ⟨-, page, hpage⟩ | ⟨htable, -⟩ | ⟨htable, -⟩ :=
            written_cases updates hge hunwritten
          · refine absurd (.video page ?_ ?_) hmeant
            all_goals
              have haligned := page.addr_aligned
              simp only [smallPage, PAGE_MEM_SIZE] at *
              omega
          · cases htable
          · cases htable
    have hone : vaddr / largePage ≠ 1 := by
      intro hone
      refine hmeant (.kernel (Nat.not_lt.mp hlow) ?_)
      simp only [largePage, _8MB] at *
      omega
    rcases Nat.lt_or_ge (vaddr / largePage) PAGE_TABLE_SIZE with hinside | hge
    · apply walk_of_absent
      have htwo : 2 ≤ vaddr / largePage := by
        simp only [largePage, _4MB] at *
        omega
      rw [memory.directoryEntry_eq updates rfl, memory.after_of_init updates hi
        (layout.pagingInit_pageDirectory htwo hinside) ?_ ?_ (by simp)]
      · decide
      all_goals
        rintro ⟨-, heq⟩
        rw [heq] at hinside
        exact absurd hinside (by decide)
    by_cases hunwritten : Unwritten layout updates .pageDirectory (vaddr / largePage)
    · apply walk_of_vacant
      rw [memory.directoryEntry_eq updates rfl, memory.after_of_unwritten updates hi hunwritten]
      exact hbehind.directory _ hge hi hunwritten
    · obtain ⟨htable, -⟩ | ⟨-, hindex, hlast⟩ | ⟨-, hindex, hlast⟩ :=
        written_cases updates hge hunwritten
      · cases htable
      · obtain ⟨num, hlast⟩ := Option.isSome_iff_exists.mp hlast
        refine absurd (.program num hlast ?_ ?_) hmeant
        all_goals
          simp only [largePage, _4B, _128MB, USER_VID_ADDR] at *
          omega
      · have hinstalled := hlast
        obtain ⟨page, hlast⟩ := Option.isSome_iff_exists.mp hlast
        apply memory.mapped_userVideo_none updates hlast hindex
        have hj : vaddr / smallPage % entriesPerTable < entriesPerTable := Nat.mod_lt _ (by decide)
        rcases Nat.eq_zero_or_pos (vaddr / smallPage % entriesPerTable) with hzero | hpos
        · refine absurd (.userVideo page hlast ?_ ?_) hmeant
          all_goals
            simp only [largePage, smallPage, entriesPerTable, USER_VID_ADDR, _4MB,
              PAGE_MEM_SIZE] at *
            omega
        · rw [memory.after_vidMem updates hpos hj]
          rcases Nat.lt_or_ge (vaddr / smallPage % entriesPerTable) PAGE_TABLE_SIZE
            with hinside | hge
          · rw [memory.zero _ _ hinside]
            decide
          · exact hbehind.video hinstalled _ hge hj

/-- A value that was stored was stored by some store. -/
theorem not_unwritten (value : Nat) {t : Table} {i : Nat}
    (hstored : lastStored (allStores layout updates) t i = some value) :
    ¬ Unwritten layout updates t i := by
  intro hunwritten
  rw [lastStored_eq_none hunwritten] at hstored
  exact absurd hstored (by simp)

theorem not_unwritten_video (page : VideoPage) :
    ¬ Unwritten layout updates .pageTable (page.addr / PAGE_MEM_SIZE) := by
  obtain ⟨bits, hinit, -⟩ := layout.pagingInit_video page
  refine not_unwritten updates (page.addr ||| bits) ?_
  rw [allStores, lastStored_append, lastStored_updates, hinit]
  simp

theorem not_unwritten_program {num : Nat} (hlast : lastOf MapUpdate.program? updates = some num) :
    ¬ Unwritten layout updates .pageDirectory _4B := by
  refine not_unwritten updates (programEntry num) ?_
  rw [allStores, lastStored_append, lastStored_updates, if_pos ⟨rfl, rfl⟩, hlast]
  rfl

theorem not_unwritten_vidmap {page : VideoPage}
    (hlast : lastOf MapUpdate.vidmap? updates = some page) :
    ¬ Unwritten layout updates .pageDirectory (USER_VID_ADDR / _4MB) := by
  refine not_unwritten updates (layout.base .pgTbl_vidMem ||| VID_PAGE) ?_
  rw [allStores, lastStored_append, lastStored_updates, if_neg (by decide), if_pos ⟨rfl, rfl⟩,
    hlast]
  rfl

/-- A map without other addresses says that memory behind the arrays is absent. -/
theorem AddressSpaceMap.behindAbsent {memory : TableMemory layout} {updates : List MapUpdate}
    (hmap : memory.AddressSpaceMap updates) : memory.BehindAbsent updates where
  directory i hge hi hunwritten := by
    rw [← memory.after_of_unwritten updates hi hunwritten]
    apply vacant_of_walk
    intro vaddr hindex
    refine hmap.absent vaddr ?_ ?_
    · simp only [largePage, entriesPerTable] at *
      omega
    · -- the entries that are meant lie elsewhere or were written
      rintro (⟨hlow, hhigh⟩ | ⟨page, hlow, hhigh⟩ | ⟨num, hlast, hlow, hhigh⟩ |
        ⟨page, hlast, hlow, hhigh⟩)
      · simp only [largePage, PAGE_TABLE_SIZE, _4MB, _8MB] at *
        omega
      · have hlt := page.addr_lt
        simp only [largePage, PAGE_TABLE_SIZE, PAGE_MEM_SIZE, entriesPerTable] at *
        omega
      · have hprogram : i = _4B := by
          simp only [largePage, _4B, _128MB, USER_VID_ADDR] at *
          omega
        exact not_unwritten_program updates hlast (hprogram ▸ hunwritten)
      · have hvidmap : i = USER_VID_ADDR / _4MB := by
          simp only [largePage, _4MB, USER_VID_ADDR, PAGE_MEM_SIZE] at *
          omega
        exact not_unwritten_vidmap updates hlast (hvidmap ▸ hunwritten)
  table i hge hi hunwritten := by
    rw [← memory.after_of_unwritten updates hi hunwritten]
    intro hpresent
    have hlow : i * smallPage < _4MB := by
      simp only [smallPage, entriesPerTable, _4MB] at *
      omega
    have hindex : i * smallPage / smallPage = i := Nat.mul_div_cancel i (by decide)
    have hnone := hmap.absent (i * smallPage) ?_ ?_
    · have hentry := memory.directoryEntry_low updates hlow
      have htable := memory.tableEntry_low updates hlow
      rw [hindex] at htable
      obtain ⟨htablePresent, hsmall, -⟩ := layout.table_bits .pageTable (.inl rfl)
      rw [mapped,
        walk_of_table (by rwa [hentry]) (by rwa [hentry]) (by rwa [hentry, htable])] at hnone
      exact absurd hnone (by simp)
    · simp only [_4MB] at hlow
      omega
    · rintro (⟨hge', hhigh⟩ | ⟨page, hge', hhigh⟩ | ⟨num, hlast, hge', hhigh⟩ |
        ⟨page, hlast, hge', hhigh⟩)
      · omega
      · have hvideo : i = page.addr / PAGE_MEM_SIZE := by
          have haligned := page.addr_aligned
          simp only [smallPage, PAGE_MEM_SIZE] at *
          omega
        exact not_unwritten_video updates page (hvideo ▸ hunwritten)
      · simp only [_4MB, _128MB] at *
        omega
      · simp only [_4MB, USER_VID_ADDR] at *
        omega
  video hinstalled i hge hi := by
    obtain ⟨page, hlast⟩ := Option.isSome_iff_exists.mp hinstalled
    have hpos : 0 < i := Nat.lt_of_lt_of_le (by decide) hge
    rw [← memory.after_vidMem updates hpos hi]
    intro hpresent
    have hindex : (USER_VID_ADDR + i * smallPage) / largePage = USER_VID_ADDR / _4MB := by
      simp only [smallPage, largePage, entriesPerTable, USER_VID_ADDR, _4MB] at *
      omega
    have hentryIndex : (USER_VID_ADDR + i * smallPage) / smallPage % entriesPerTable = i := by
      simp only [smallPage, entriesPerTable, USER_VID_ADDR] at *
      omega
    have hnone := hmap.absent (USER_VID_ADDR + i * smallPage) ?_ ?_
    · have hentry := memory.directoryEntry_userVideo updates hlast hindex
      have htable := memory.tableEntry_userVideo updates hentryIndex
      obtain ⟨htablePresent, hsmall, -⟩ := layout.table_bits .pgTbl_vidMem (.inr rfl)
      rw [mapped,
        walk_of_table (by rwa [hentry]) (by rwa [hentry]) (by rwa [hentry, htable])] at hnone
      exact absurd hnone (by simp)
    · simp only [smallPage, entriesPerTable, USER_VID_ADDR] at *
      omega
    · rintro (⟨hge', hhigh⟩ | ⟨page, hge', hhigh⟩ | ⟨num, hlast, hge', hhigh⟩ |
        ⟨page, hlast, hge', hhigh⟩)
      · simp only [USER_VID_ADDR, _8MB] at *
        omega
      · have hlt := page.addr_lt
        simp only [USER_VID_ADDR, PAGE_MEM_SIZE, entriesPerTable] at *
        omega
      · simp only [USER_VID_ADDR] at *
        omega
      · simp only [smallPage, PAGE_TABLE_SIZE, PAGE_MEM_SIZE] at *
        omega

/-- `paging_init` itself stores the video pages behind the end of `pageTable`. -/
theorem not_storesInside : ¬ StoresInside layout updates := by
  intro hinside
  have hmem : ⟨.pageTable, VideoPage.screen.addr / PAGE_MEM_SIZE,
      VideoPage.screen.addr ||| videoPage⟩ ∈ allStores layout updates := by
    apply List.mem_append_left
    apply List.mem_append_right
    exact List.mem_cons_of_mem _ (List.mem_cons_of_mem _ List.mem_cons_self)
  exact absurd (hinside _ hmem) (by decide)

end TableMemory

/-- Never does every store lie inside the declared arrays. The map itself is the meant one
exactly when memory behind the arrays, where no store reached it, holds no entry that leads
anywhere. -/
theorem address_space_map (layout : TableLayout) (memory : TableMemory layout)
    (updates : List MapUpdate) :
    ¬ (memory.AddressSpaceMap updates ∧ TableMemory.StoresInside layout updates) ∧
      (memory.AddressSpaceMap updates ↔ memory.BehindAbsent updates) :=
  ⟨fun h => TableMemory.not_storesInside updates h.2,
    fun hmap => hmap.behindAbsent, fun hbehind => hbehind.addressSpaceMap⟩

/-- Memory that holds the word 0x87 behind the arrays. -/
def largeBehind : TableMemory linkedTables where
  word addr := if addr % PAGE_MEM_SIZE < 4 * PAGE_TABLE_SIZE then 0 else 0x87
  zero t i hi := by
    simp only [PAGE_TABLE_SIZE] at hi
    apply if_pos
    cases t <;> simp only [linkedTables, TableLayout.entryAddr, PAGE_MEM_SIZE, PAGE_TABLE_SIZE,
      pgTbl_vidMem] <;> omega

/-- After `paging_init` alone: the store for `VIDEO` has index 184 in an array of 16, and
the address 68 MB is present. -/
theorem address_space_not_mapped :
    ¬ (largeBehind.AddressSpaceMap [] ∧ TableMemory.StoresInside linkedTables []) ∧
      largeBehind.mapped [] 0x4400000 ≠ none := by
  refine ⟨fun h => ?_, by decide +kernel⟩
  exact absurd (h.2 ⟨.pageTable, 184, 0xB8003⟩ (by decide +kernel)) (by decide)

end Ece391
