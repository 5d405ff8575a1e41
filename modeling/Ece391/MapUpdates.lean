import Ece391.Devices
import Ece391.Paging

/-! # The kernel's steps as updates of the address-space map

The kernel state keeps three of the entries. Each of its steps changes them as a sequence
of updates does the tables in memory, so that the state's `translate` is the walk.
-/

namespace Ece391

open Function Transition PageWalk

/-! ## The kernel's entries -/

/-- The three entries that change after boot, as words. -/
structure MapEntries where
  program : Nat
  directory : Nat
  video : Nat

/-- What an update makes of the three entries. -/
def MapUpdate.apply (base : Nat) (entries : MapEntries) (update : MapUpdate) : MapEntries where
  program := (update.program?.map programEntry).getD entries.program
  directory := (update.vidmap?.map fun _ => base ||| VID_PAGE).getD entries.directory
  video := (update.video?.map vidEntryOf).getD entries.video

theorem MapUpdate.apply_execute (base : Nat) (entries : MapEntries) (pcbIndex : Nat) :
    (execute pcbIndex).apply base entries =
      { entries with program := programEntry (pcbIndex + 1) } := by
  unfold apply program?
  rw [Option.map_some, Option.getD_some]
  rfl

theorem MapUpdate.apply_halt (base : Nat) (entries : MapEntries) (processNum : Nat) :
    (halt processNum).apply base entries = { entries with program := programEntry processNum } := by
  unfold apply program?
  rw [Option.map_some, Option.getD_some]
  rfl

theorem MapUpdate.apply_aim (base : Nat) (entries : MapEntries) (page : VideoPage) :
    (pitHandler page none).apply base entries = { entries with video := vidEntryOf page } := rfl

theorem MapUpdate.apply_vidmap (base : Nat) (entries : MapEntries) (page : VideoPage) :
    (vidmap page).apply base entries =
      { entries with directory := base ||| VID_PAGE, video := vidEntryOf page } := rfl

theorem MapUpdate.apply_rotate (base : Nat) (entries : MapEntries) (page : VideoPage) (num : Nat) :
    (pitHandler page (some num)).apply base entries =
      { entries with program := programEntry num, video := vidEntryOf page } := by
  unfold apply program?
  rw [Option.map_some, Option.getD_some]
  rfl

def Kernel.mapEntries (k : Kernel) : MapEntries :=
  ⟨u32 k.userPageEntry, k.vidPageEntry, k.vidTableEntry⟩

def TableMemory.mapEntries {layout : TableLayout} (memory : TableMemory layout)
    (updates : List MapUpdate) : MapEntries :=
  ⟨memory.after updates (layout.entryAddr .pageDirectory _4B),
    memory.after updates (layout.entryAddr .pageDirectory (USER_VID_ADDR / _4MB)),
    memory.after updates (layout.entryAddr .pgTbl_vidMem 0)⟩

/-- Each entry holds the last value of its kind, or what memory held. -/
theorem TableMemory.mapEntries_eq {layout : TableLayout} (memory : TableMemory layout)
    (updates : List MapUpdate) :
    memory.mapEntries updates =
      { program := ((lastOf MapUpdate.program? updates).map programEntry).getD
          (memory.word (layout.entryAddr .pageDirectory _4B))
        directory := ((lastOf MapUpdate.vidmap? updates).map fun _ =>
          layout.base .pgTbl_vidMem ||| VID_PAGE).getD
            (memory.word (layout.entryAddr .pageDirectory (USER_VID_ADDR / _4MB)))
        video := ((lastOf MapUpdate.video? updates).map vidEntryOf).getD
          (memory.word (layout.entryAddr .pgTbl_vidMem 0)) } := by
  have hprogram : lastStored layout.pagingInit .pageDirectory _4B = none := rfl
  have hdirectory : lastStored layout.pagingInit .pageDirectory (USER_VID_ADDR / _4MB) = none := rfl
  have hvideo : lastStored layout.pagingInit .pgTbl_vidMem 0 = none := rfl
  unfold TableMemory.mapEntries
  congr 1
  · rw [memory.after_entry updates _ (by decide), allStores, lastStored_append, lastStored_updates,
      if_pos ⟨rfl, rfl⟩, hprogram, Option.or_none]
  · rw [memory.after_entry updates _ (by decide), allStores, lastStored_append, lastStored_updates,
      if_neg (by decide), if_pos ⟨rfl, rfl⟩, hdirectory, Option.or_none]
  · rw [memory.after_entry updates _ (by decide), allStores, lastStored_append, lastStored_updates,
      if_neg (by decide), if_neg (by decide), if_pos ⟨rfl, rfl⟩, hvideo, Option.or_none]

theorem getD_map_or {α β : Type} (f : α → β) (first second : Option α) (value : β) :
    ((first.or second).map f).getD value = (first.map f).getD ((second.map f).getD value) := by
  cases first <;> rfl

/-- In memory the updates act on the entries one after the other. -/
theorem TableMemory.mapEntries_foldl {layout : TableLayout} (memory : TableMemory layout)
    (updates : List MapUpdate) :
    memory.mapEntries updates =
      updates.foldl (MapUpdate.apply (layout.base .pgTbl_vidMem)) (memory.mapEntries []) := by
  induction updates using List.reverseRecOn with
  | nil => rfl
  | append_singleton updates update ih =>
      rw [List.foldl_append, ← ih, memory.mapEntries_eq, memory.mapEntries_eq updates]
      simp only [lastOf_append, getD_map_or, List.foldl_cons, List.foldl_nil, MapUpdate.apply]

/-- A call on a descriptor, a key press and an RTC interrupt leave the map. -/
theorem step_mapEntries {img : Image} {k after : Kernel} {event : Event} (hquiet : event.Quiet)
    (hnotVidmap : ∀ screenStart, event ≠ .vidmap screenStart)
    (hstep : step img k event = some after) : after.mapEntries = k.mapEntries := by
  cases event with
  | tick | execute | halt => exact hquiet.elim
  | vidmap screenStart => exact absurd rfl (hnotVidmap screenStart)
  | key | rtc =>
      obtain rfl := Option.some.inj hstep
      rfl
  | read fd buf nbytes =>
      obtain ⟨⟨result, last⟩, hread, rfl⟩ := Option.map_eq_some_iff.mp hstep
      obtain ⟨kb, display, rtc, dirIndex, pcb, rfl, -⟩ := Kernel.read_store hread
      rfl
  | write fd buf nbytes =>
      obtain ⟨⟨result, last⟩, hwrite, rfl⟩ := Option.map_eq_some_iff.mp hstep
      obtain ⟨kb, display, rtc, rfl, -⟩ := Kernel.write_store hwrite
      rfl
  | open_ filename =>
      obtain ⟨⟨result, last⟩, hopen, rfl⟩ := Option.map_eq_some_iff.mp hstep
      rcases Kernel.open_cases hopen with ⟨-, rfl, -⟩ | ⟨entry, fd, fops, -, -, rfl⟩
      · rfl
      · cases fops <;> rfl
  | close fd =>
      obtain ⟨⟨value, last⟩, hclose, rfl⟩ := Option.map_eq_some_iff.mp hstep
      rcases Kernel.close_cases hclose with ⟨-, rfl⟩ | ⟨-, -, -, rfl⟩ <;> rfl
  | getargs buf nbytes =>
      simp only [step, Option.map_eq_some_iff] at hstep
      obtain ⟨⟨result, last⟩, hargs, rfl⟩ := hstep
      obtain rfl := Kernel.getargs_same hargs
      rfl

/-- `execute` maps the frame of the slot it takes, when it takes one. -/
theorem Kernel.execute_mapEntries {k after : Kernel} {img : Image} {command : Option (List UInt8)}
    {regs : Regs} {result : ExecReturn}
    (hexecute : k.execute img command regs = some (result, after)) :
    ∃ updates : List MapUpdate,
      after.mapEntries = updates.foldl (MapUpdate.apply pgTbl_vidMem) k.mapEntries := by
  have hdirectory : after.vidPageEntry = k.vidPageEntry :=
    congrArg (fun devices => devices.2.2) (Kernel.execute_devices hexecute)
  rcases Kernel.execute_cases hexecute with
    ⟨-, -, hsame, -, hvideo, -⟩ | ⟨program, -, -, -, hlaunched⟩
  · have hentry : after.vidTableEntry = k.vidTableEntry := congrArg Prod.snd hvideo
    refine ⟨[], ?_⟩
    unfold Kernel.mapEntries
    rw [hsame.userPageEntry, hdirectory, hentry]
    rfl
  · have hentry : after.vidTableEntry = k.vidTableEntry := congrArg Prod.snd hlaunched.video
    refine ⟨[.execute (slotSearch k.pcbSlots)], ?_⟩
    rw [List.foldl_cons, List.foldl_nil, MapUpdate.apply_execute]
    unfold Kernel.mapEntries
    rw [hlaunched.userPageEntry, hdirectory, hentry]
    rfl

theorem Kernel.release_mapEntries {k after : Kernel} (hrelease : k.release = some after) :
    after.mapEntries = k.mapEntries := by
  unfold Kernel.release at hrelease
  obtain ⟨pcb, -, hrelease⟩ := Option.bind_eq_some_iff.mp hrelease
  obtain ⟨closed, hclosed, rfl⟩ := Option.map_eq_some_iff.mp hrelease
  obtain ⟨pcbs, dirIndex, rfl⟩ := Kernel.closeEntries_store hclosed
  rfl

/-- `halt` maps the parent's frame, or that of the shell it starts again. -/
theorem Kernel.halt_mapEntries {k after : Kernel} {img : Image} {status : UInt8} {regs : Regs}
    {result : HaltReturn} (hhalt : k.halt img status regs = some (result, after)) :
    ∃ updates : List MapUpdate,
      after.mapEntries = updates.foldl (MapUpdate.apply pgTbl_vidMem) k.mapEntries := by
  unfold Kernel.halt at hhalt
  obtain ⟨released, hrelease, hhalt⟩ := Option.bind_eq_some_iff.mp hhalt
  rw [← Kernel.release_mapEntries hrelease]
  split at hhalt
  · obtain ⟨parent, -, heq⟩ := Option.map_eq_some_iff.mp hhalt
    obtain ⟨-, rfl⟩ := Prod.mk.inj heq
    refine ⟨[.halt parent.processNum], ?_⟩
    rw [List.foldl_cons, List.foldl_nil, MapUpdate.apply_halt]
    rfl
  · obtain ⟨⟨last, final⟩, hexecuted, heq⟩ := Option.map_eq_some_iff.mp hhalt
    have hfinal : final = after := by cases last <;> exact (Prod.mk.inj heq).2
    subst hfinal
    obtain ⟨d, -, hreset⟩ := released.resetTerminal_eq
    rw [hreset] at hexecuted
    obtain ⟨updates, hupdates⟩ := Kernel.execute_mapEntries hexecuted
    exact ⟨updates, hupdates⟩

/-- A tick aims the user's video page, and then starts a shell, ends the start-up or maps
the next program. -/
theorem Kernel.pitHandler_mapEntries {k after : Kernel} {img : Image} {ebp : Nat} {inner : Regs}
    (htick : k.pitHandler img ebp inner = some after) :
    ∃ updates : List MapUpdate,
      after.mapEntries = updates.foldl (MapUpdate.apply pgTbl_vidMem) k.mapEntries := by
  have hdirectory : after.vidPageEntry = k.vidPageEntry :=
    congrArg (fun devices => devices.2.2) (Kernel.pitHandler_devices htick)
  rcases Nat.lt_trichotomy k.totalTerminal 3 with hmissing | hlast | hrunning
  · obtain ⟨left, result, hleft, hexecute⟩ := Kernel.pitHandler_shell hmissing htick
    obtain ⟨updates, hupdates⟩ := Kernel.execute_mapEntries hexecute
    have hkept : after.vidPageEntry = left.vidPageEntry :=
      congrArg (fun devices => devices.2.2) (Kernel.execute_devices hexecute)
    refine ⟨.pitHandler k.aimedNext.1 none :: updates, hupdates.trans ?_⟩
    have hentries : left.mapEntries =
        MapUpdate.apply pgTbl_vidMem k.mapEntries (.pitHandler k.aimedNext.1 none) := by
      have hentry : left.vidTableEntry = k.aimedNext.2 := congrArg Prod.snd hleft.video
      rw [MapUpdate.apply_aim]
      unfold Kernel.mapEntries
      rw [hleft.userPageEntry, ← hkept, hdirectory, hentry]
      rfl
    rw [hentries, List.foldl_cons]
  · obtain ⟨hsame, -, -, -, hvideo⟩ := Kernel.pitHandler_finish hlast htick
    have hentry : after.vidTableEntry = k.aimedNext.2 := congrArg Prod.snd hvideo
    refine ⟨[.pitHandler k.aimedNext.1 none], ?_⟩
    rw [List.foldl_cons, List.foldl_nil, MapUpdate.apply_aim]
    unfold Kernel.mapEntries
    rw [hsame.userPageEntry, hdirectory, hentry]
    rfl
  · have hrotated := Kernel.pitHandler_rotated hrunning htick
    have hentry : after.vidTableEntry = k.aimedNext.2 := congrArg Prod.snd hrotated.video
    refine ⟨[.pitHandler k.aimedNext.1 (some (k.head k.currScheduled.next))], ?_⟩
    rw [List.foldl_cons, List.foldl_nil, MapUpdate.apply_rotate]
    unfold Kernel.mapEntries
    rw [hrotated.userPageEntry, hdirectory, hentry]
    rfl

theorem Kernel.vidmap_mapEntries {k after : Kernel} {screenStart : Nat} {result : SysReturn}
    (hvidmap : k.vidmap screenStart = some (result, after)) :
    ∃ updates : List MapUpdate,
      after.mapEntries = updates.foldl (MapUpdate.apply pgTbl_vidMem) k.mapEntries := by
  unfold Kernel.vidmap at hvidmap
  split at hvidmap
  · obtain rfl := congrArg Prod.snd (Option.some.inj hvidmap)
    exact ⟨[], rfl⟩
  · obtain ⟨last, hlast, heq⟩ := Option.map_eq_some_iff.mp hvidmap
    obtain ⟨-, rfl⟩ := Prod.mk.inj heq
    obtain ⟨hsame, -, hvideo, -⟩ := Kernel.storeUserBytes_same hlast
    have hdirectory : last.vidPageEntry = pgTbl_vidMem ||| VID_PAGE :=
      congrArg (fun devices => devices.2.2) (Kernel.storeUserBytes_devices hlast)
    have hentry : last.vidTableEntry =
        vidEntryOf (Kernel.videoPageFor k.currScheduled k.currTerminal) := congrArg Prod.snd hvideo
    refine ⟨[.vidmap (Kernel.videoPageFor k.currScheduled k.currTerminal)], ?_⟩
    rw [List.foldl_cons, List.foldl_nil, MapUpdate.apply_vidmap]
    unfold Kernel.mapEntries
    rw [hsame.userPageEntry, hdirectory, hentry]

/-- Every step of the kernel is a sequence of updates of the map. -/
theorem step_updates {img : Image} {k after : Kernel} {event : Event}
    (hstep : step img k event = some after) :
    ∃ updates : List MapUpdate,
      after.mapEntries = updates.foldl (MapUpdate.apply pgTbl_vidMem) k.mapEntries := by
  cases event with
  | tick ebp inner => exact Kernel.pitHandler_mapEntries hstep
  | execute command regs =>
      obtain ⟨⟨result, last⟩, hexecute, rfl⟩ := Option.map_eq_some_iff.mp hstep
      exact Kernel.execute_mapEntries hexecute
  | halt status regs =>
      obtain ⟨⟨result, last⟩, hhalt, rfl⟩ := Option.map_eq_some_iff.mp hstep
      exact Kernel.halt_mapEntries hhalt
  | vidmap screenStart =>
      obtain ⟨⟨result, last⟩, hvidmap, rfl⟩ := Option.map_eq_some_iff.mp hstep
      exact Kernel.vidmap_mapEntries hvidmap
  | key | rtc | read | write | open_ | close | getargs =>
      refine ⟨[], step_mapEntries ?_ ?_ hstep⟩
      · exact trivial
      · simp

/-- In every run from boot the kernel's entries are what some sequence of updates makes of
the tables in memory. -/
theorem Reachable.mapEntries {img : Image} {m : BootMemory} {k : Kernel}
    {memory : TableMemory linkedTables} (hboot : (boot m).mapEntries = memory.mapEntries [])
    (hreach : Reachable (step img) (boot m) k) :
    ∃ updates, k.mapEntries = memory.mapEntries updates := by
  apply hreach.invariant (fun k => ∃ updates, k.mapEntries = memory.mapEntries updates) _
    ⟨[], hboot⟩
  rintro k event after ⟨updates, hk⟩ hstep
  obtain ⟨more, hafter⟩ := step_updates hstep
  refine ⟨updates ++ more, ?_⟩
  rw [hafter, hk, memory.mapEntries_foldl, memory.mapEntries_foldl (updates ++ more),
    List.foldl_append]
  rfl

/-! ## The walk behind `translate` -/

/-- The physical address of a byte a user address names. -/
def UserByte.phys : UserByte → Nat
  | .frame addr => addr
  | .video page offset => page.addr + offset

theorem vidPageAt_vidEntryOf (page : VideoPage) : vidPageAt (vidEntryOf page) = some page := by
  cases page with
  | screen => decide
  | buffer t => cases t <;> decide

/-- For user addresses the kernel state's `translate` is the walk through the tables, once
a program is mapped and nothing behind the arrays is. -/
theorem Kernel.translate_walk {k : Kernel} {memory : TableMemory linkedTables}
    {updates : List MapUpdate} {num vaddr : Nat}
    (hentries : k.mapEntries = memory.mapEntries updates)
    (hword : k.userPageEntry < 2 ^ 32) (hprogram : lastOf MapUpdate.program? updates = some num)
    (hmap : memory.AddressSpaceMap updates)
    (habsent : ¬ Present (memory.word
      (linkedTables.entryAddr .pageDirectory (USER_VID_ADDR / _4MB))))
    (huser : _128MB ≤ vaddr) (hlt : vaddr < 2 ^ 32) :
    memory.mapped updates vaddr = (k.translate vaddr).map fun byte => ⟨byte.phys, true⟩ := by
  have heq := hentries.trans (memory.mapEntries_eq updates)
  have hframe : k.userPageEntry = programEntry num := by
    have hentry := congrArg MapEntries.program heq
    rw [hprogram, Option.map_some, Option.getD_some] at hentry
    exact (Nat.mod_eq_of_lt hword).symm.trans hentry
  -- from the video page on there is nothing else, and without a `vidmap` not even this page
  have hbeyond : ∀ vaddr, USER_VID_ADDR ≤ vaddr → vaddr < 2 ^ 32 →
      (USER_VID_ADDR + PAGE_MEM_SIZE ≤ vaddr ∨ lastOf MapUpdate.vidmap? updates = none) →
      memory.mapped updates vaddr = none := by
    intro vaddr hge hlt hfree
    apply hmap.absent vaddr hlt
    rintro (⟨-, hhigh⟩ | ⟨page, -, hhigh⟩ | ⟨-, -, -, hhigh⟩ | ⟨page, hlast, -, hhigh⟩)
    · simp only [_8MB, USER_VID_ADDR] at *
      omega
    · have hpage := page.addr_lt
      simp only [USER_VID_ADDR, PAGE_MEM_SIZE, entriesPerTable] at *
      omega
    · omega
    · rcases hfree with hfree | hnone
      · omega
      · rw [hnone] at hlast
        cases hlast
  unfold Kernel.translate
  by_cases hprogramPage : vaddr < USER_VID_ADDR
  · rw [if_pos ⟨huser, hprogramPage⟩, hmap.program num hprogram vaddr huser hprogramPage, hframe]
    rfl
  rw [if_neg (fun h => hprogramPage h.2)]
  have hge := Nat.not_lt.mp hprogramPage
  by_cases hpage : vaddr < USER_VID_ADDR + PAGE_MEM_SIZE
  · cases hlast : lastOf MapUpdate.vidmap? updates with
    | none =>
        have hdirectory := congrArg MapEntries.directory heq
        rw [hlast, Option.map_none, Option.getD_none] at hdirectory
        change k.vidPageEntry =
          memory.word (linkedTables.entryAddr .pageDirectory (USER_VID_ADDR / _4MB)) at hdirectory
        rw [hbeyond vaddr hge hlt (.inr hlast), if_neg]
        · rfl
        · rintro ⟨-, -, hodd⟩
          rw [hdirectory] at hodd
          exact habsent hodd
    | some page =>
        obtain ⟨shown, hshown⟩ := TableMemory.lastOf_video_of_vidmap
          (Option.isSome_iff_exists.mpr ⟨page, hlast⟩)
        have hdirectory := congrArg MapEntries.directory heq
        have hvideo := congrArg MapEntries.video heq
        rw [hlast, Option.map_some, Option.getD_some] at hdirectory
        rw [hshown, Option.map_some, Option.getD_some] at hvideo
        change k.vidPageEntry = pgTbl_vidMem ||| VID_PAGE at hdirectory
        change k.vidTableEntry = vidEntryOf shown at hvideo
        rw [memory.mapped_userVideo updates hlast hshown hge hpage, hdirectory, hvideo,
          vidPageAt_vidEntryOf, if_pos ⟨hge, hpage, by decide⟩]
        rfl
  · rw [hbeyond vaddr hge hlt (.inl (Nat.not_lt.mp hpage)), if_neg (fun h => hpage h.2.1)]
    rfl

end Ece391
