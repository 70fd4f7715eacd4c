import MoggersOs.Kernel.Isolation
import MoggersOs.Kernel.Scheduler
/-
# A switch goes on where the process was stopped

`timer_isr` saves the context through the first PCB it finds running, and the switch reads it back through
`current_process_idx`. `Log` is kept by an observer of the run who reads no PCB, only which slot has the CPU and which
one a new process gets: per process the directory it was created with and the context it has to go on with. After every
switch the context handed to `process_context_switch` and CR3 are the ones in the log (`context_switch_transparent`).

What makes it work is that without kills the tables fill up from below. Every process takes two of the 31 frames the
kernel leaves, so there are never more than 15, no slot is used twice, no allocation fails, and the search for the
next process does not leave the table.

| here | there |
| --- | --- |
| `handedContext` | the argument of `process_context_switch` (`scheduler.c:91`) |
| `initialContext` | `new_pcb->context` of a slot that was never used before (`process.c:83-101`) |
| `Log.observe`   | what the event means for the log |
-/

namespace MoggersOs

def handedContext (k : Kernel) : Context := (k.process k.currentProcessIdx).context

def initialContext (r : ProcessRequest) (newPd : DirPtr) : Context := (startPcb r newPd zeroPcb).context

structure Log where
  resume    : Fin 16 → Context
  directory : Fin 16 → DirPtr

def Log.empty : Log := ⟨fun _ => zeroPcb.context, fun _ => .null⟩

/-- A process starts in the slot. -/
def Log.start (m : Log) (slot : Option (Fin 16)) (c : Context) (newPd : DirPtr) : Log :=
  match slot with
  | none => m
  | some i => ⟨Function.update m.resume i c, Function.update m.directory i newPd⟩

/-- The process on the CPU stops. -/
def Log.stop (m : Log) (current : Nat) (c : Context) : Log :=
  { m with resume := fun i => if current = i then c else m.resume i }

def Log.observe (m : Log) (k : Kernel) : KernelEvent → Log
  | .create r =>
    let newPd := (claimMemory k.paging r).pageDir
    m.start (processListGetInactiveIndex k) (initialContext r newPd) newPd
  | .destroy _ _ => m
  | .tick frame => m.stop k.currentProcessIdx (interruptedContext k frame)

/-- The process on the CPU has the context and the directory of the log. -/
def Resumed (k : Kernel) (m : Log) : Prop :=
  ∃ i : Fin 16, k.currentProcessIdx = i ∧ k.processUsed i = true ∧ handedContext k = m.resume i ∧ k.cr3 = m.directory i

/-- No process ends, and a new one has between 1 byte and a frame. -/
def Lasting : KernelEvent → Prop
  | .create r => 1 ≤ r.bufferSize ∧ r.bufferSize ≤ 0x400000
  | .destroy _ _ => False
  | .tick _ => True

def ObservedStep (x : Kernel × Log) (e : KernelEvent) (y : Kernel × Log) : Prop :=
  Lasting e ∧ e.Happens x.1 y.1 ∧ y.2 = x.2.observe x.1 e

theorem ObservedStep.of_happens {k k' : Kernel} {e : KernelEvent} (hl : Lasting e) (h : e.Happens k k') (m : Log) :
    ObservedStep (k, m) e (k', m.observe k e) := ⟨hl, h, rfl⟩

/-! ## The tables fill up from below -/

theorem find?_first {m n : Nat} {p : Fin m → Bool} (hn : n < m) (h : ∀ i, p i = true ↔ i.val < n) :
    Fin.find? (fun i => !p i) = some ⟨n, hn⟩ := by
  refine Fin.find?_eq_some_iff.mpr ⟨?_, fun j hj => ?_⟩
  · have hfree : ¬ p ⟨n, hn⟩ = true := fun hp => absurd ((h _).mp hp) (Nat.lt_irrefl n)
    simpa using hfree
  · simpa using (h j).mpr hj

theorem update_below {m n : Nat} {p : Fin m → Bool} (hn : n < m) (h : ∀ i, p i = true ↔ i.val < n) (i : Fin m) :
    Function.update p ⟨n, hn⟩ true i = true ↔ i.val < n + 1 := by
  by_cases hi : i = ⟨n, hn⟩
  · simp [hi]
  · have hne : i.val ≠ n := fun he => hi (Fin.ext he)
    rw [Function.update_of_ne hi, h i]
    omega

/-- The first `n` directories and the first `m` frames are taken. -/
structure FilledTo (p : Paging) (n m : Nat) : Prop where
  dirs   : ∀ i, p.pageDirectoryUsed i = true ↔ i.val < n
  frames : ∀ i, p.pageFrameMap i = true ↔ i.val < m
  free   : p.freePageFrameCount.toNat + m = 32

namespace FilledTo

variable {p : Paging} {n m : Nat}

theorem allocate (h : FilledTo p n m) (hm : m < 32) (d : DirPtr) (addr : UInt32) :
    FilledTo (pagingAllocateUserPageFrame p d addr).2 n (m + 1) := by
  have hfind : findFreeFrame p = some ⟨m, hm⟩ := find?_first hm h.frames
  have hfree := h.free
  have hcount : (updatePageDirectoryEntry { p with
      pageFrameMap := Function.update p.pageFrameMap ⟨m, hm⟩ true
      freePageFrameCount := p.freePageFrameCount - 1 } d (UInt32.ofNat m * 0x400000) addr userFlag).freePageFrameCount =
        p.freePageFrameCount - 1 := by
    cases d <;> rfl
  unfold pagingAllocateUserPageFrame
  rw [hfind]
  constructor
  · simpa using h.dirs
  · simpa using update_below hm h.frames
  · simp only [hcount]
    have hone : (1 : UInt32) ≤ p.freePageFrameCount := by
      rw [UInt32.le_iff_toNat_le]
      simp only [UInt32.reduceToNat]
      omega
    rw [UInt32.toNat_sub_of_le _ _ hone]
    simp only [UInt32.reduceToNat]
    omega

theorem newDirectory (h : FilledTo p n m) (hn : n < 32) : (pagingCreateNewPageDirectory p).1 = .pool ⟨n, hn⟩ ∧
    FilledTo (pagingCreateNewPageDirectory p).2 (n + 1) m := by
  unfold pagingCreateNewPageDirectory
  rw [find?_first hn h.dirs]
  exact ⟨rfl, update_below hn h.dirs, h.frames, h.free⟩

theorem claim (h : FilledTo p n m) (hn : n < 32) (hm : m + 1 < 32) (r : ProcessRequest) :
    (claimMemory p r).pageDir = .pool ⟨n, hn⟩ ∧ FilledTo (claimMemory p r).paging (n + 1) (m + 2) := by
  obtain ⟨hdir, hnew⟩ := h.newDirectory hn
  have hcode := hnew.allocate (show m < 32 by omega) (pagingCreateNewPageDirectory p).1 r.buf
  have hstack := hcode.allocate hm (pagingCreateNewPageDirectory p).1 0xBFFFFFFC
  refine ⟨hdir, ?_⟩
  simp only [claimMemory]
  exact hstack

end FilledTo

theorem bootPaging_filled (otherDirectory : UInt32 → PageDirectory) (afterMap : Nat → UInt8) :
    FilledTo (bootPaging otherDirectory afterMap) 0 1 := by
  have hinit : FilledTo (initialPaging otherDirectory afterMap) 0 0 := by
    constructor
    · simp [initialPaging]
    · simp [initialPaging]
    · simp [initialPaging]
  exact hinit.allocate (by decide) .kernel 0

/-- `n` processes, in the first `n` slots, with the first `n` directories and two frames each. -/
structure Populated (k : Kernel) (n : Nat) : Prop where
  paging : FilledTo k.paging n (2 * n + 1)
  count  : k.activeProcessCount.toNat = n
  used   : ∀ i, k.processUsed i = true ↔ i.val < n
  /-- A slot that was never used. -/
  blank  : ∀ i, n ≤ i.val → k.processList i = zeroPcb

theorem bootKernel_populated (otherDirectory : UInt32 → PageDirectory) (afterMap : Nat → UInt8)
    (afterList : Nat → Pcb) (afterUsed : Nat → UInt8) :
    Populated (bootKernel otherDirectory afterMap afterList afterUsed) 0 := by
  constructor
  · exact bootPaging_filled otherDirectory afterMap
  · simp [bootKernel]
  · simp [bootKernel]
  · simp [bootKernel]

/-! ## A creation -/

theorem pageFrameCountNeeded_small {r : ProcessRequest} (h1 : 1 ≤ r.bufferSize) (h2 : r.bufferSize ≤ 0x400000) :
    pageFrameCountNeeded r = 2 := by
  rw [UInt32.le_iff_toNat_le] at h1 h2
  simp only [UInt32.reduceToNat] at h1 h2
  have hsum : (r.bufferSize + 0x400000).toNat = r.bufferSize.toNat + 0x400000 := by
    rw [UInt32.toNat_add]
    simp only [UInt32.reduceToNat]
    omega
  unfold pageFrameCountNeeded ceilDiv
  rcases Nat.eq_or_lt_of_le h2 with he | hlt
  · have hs : r.bufferSize = 0x400000 := UInt32.toNat_inj.1 he
    rw [hs]
    rfl
  · have hdiv : (r.bufferSize + 0x400000) / 0x400000 = 1 := by
      refine UInt32.toNat_inj.1 ?_
      rw [UInt32.toNat_div, hsum]
      simp only [UInt32.reduceToNat]
      omega
    have hmod : (r.bufferSize + 0x400000) % 0x400000 ≠ 0 := by
      intro hz
      have hn := congrArg UInt32.toNat hz
      rw [UInt32.toNat_mod, hsum] at hn
      simp only [UInt32.reduceToNat] at hn
      omega
    rw [hdiv, if_pos hmod]
    rfl

/-- A creation that passes the checks leaves CR3 as it was, up to what loading it does. -/
theorem processCreateUserProcess_cr3 {k : Kernel} {r : ProcessRequest} (h : creationCheck k r = none) :
    (processCreateUserProcess k r 0).2.cr3 = pagingUsePageDirectory k.cr3 := by
  unfold processCreateUserProcess
  rw [h]
  cases processListGetInactiveIndex k with
  | none => simp [Kernel.modifySlot]
  | some i => simp [Kernel.modifySlot]

theorem processCreateUserProcess_context {k : Kernel} {r : ProcessRequest} (h : creationCheck k r = none) {i : Fin 16}
    (hi : processListGetInactiveIndex k = some i) (hblank : k.processList i = zeroPcb) :
    ((processCreateUserProcess k r 0).2.processList i).context = initialContext r (claimMemory k.paging r).pageDir := by
  unfold processCreateUserProcess
  rw [h]
  simp [hi, hblank, initialContext, startPcb, claimPcb]

/-- A successful creation takes the next slot, directory and two frames. -/
theorem Populated.create {k k' : Kernel} {n : Nat} {r : ProcessRequest} (h : Populated k n) (h1 : 1 ≤ r.bufferSize)
    (h2 : r.bufferSize ≤ 0x400000) (hr : processCreateUserProcess k r 0 = (0, k')) :
    creationCheck k r = none ∧ Populated k' (n + 1) ∧ ∃ (i : Fin 16) (j : Fin 32), i.val = n ∧
      processListGetInactiveIndex k = some i ∧ (claimMemory k.paging r).pageDir = .pool j := by
  have hfree := h.paging.free
  have hcheck := processCreateUserProcess_passes hr
  have hn : n < 15 := by
    have hneed := pageFrameCountNeeded_small h1 h2
    have henough := (creationCheck_passes.1 hcheck).2.2.1
    by_contra hge
    have hshort : k.paging.freePageFrameCount < 2 := by
      rw [UInt32.lt_iff_toNat_lt]
      simp only [UInt32.reduceToNat]
      omega
    simp [pagingAllocateCheck, hneed, hshort] at henough
  obtain ⟨i, hi, hslot⟩ : ∃ i : Fin 16, i.val = n ∧ processListGetInactiveIndex k = some i :=
    ⟨⟨n, by omega⟩, rfl, find?_first (by omega) h.used⟩
  obtain ⟨hdir, hfill⟩ := h.paging.claim (show n < 32 by omega) (by omega) r
  have hdoes := processCreateUserProcess_does hcheck 0
  rw [hr] at hdoes
  refine ⟨hcheck, ⟨?_, ?_, fun j => ?_, fun j hj => ?_⟩, i, _, hi, hslot, hdir⟩
  · rw [hdoes.paging]
    exact hfill
  · rw [hdoes.count, UInt32.toNat_add, h.count]
    simp only [UInt32.reduceToNat]
    omega
  · have hj := h.used j
    rw [hdoes.used, hslot]
    by_cases he : i = j
    · simp [he, ← hi]
    · have hne : i.val ≠ j.val := fun hx => he (Fin.ext hx)
      simp only [Option.some_beq_some, beq_iff_eq, Bool.or_eq_true, hj, he, or_false]
      omega
  · have hij : i ≠ j := by
      rintro rfl
      omega
    rw [hdoes.process j fun hs => hij (Option.some.inj (hslot.symm.trans hs))]
    exact h.blank j (by omega)

/-! ## A switch -/

namespace Kernel

variable (k : Kernel) (i : Fin 16) (state : ProcessState)

@[simp] theorem setState_paging : (k.setState i state).paging = k.paging := by rw [setState_fin]

@[simp] theorem setState_count : (k.setState i state).activeProcessCount = k.activeProcessCount := by rw [setState_fin]

@[simp] theorem setState_context (j : Fin 16) :
    ((k.setState i state).processList j).context = (k.processList j).context := by
  rw [setState_fin]
  by_cases hj : j = i
  · simp [hj]
  · simp [hj]

theorem setState_of_ne {j : Fin 16} (hj : j ≠ i) : (k.setState i state).processList j = k.processList j := by
  rw [setState_fin]
  simp [hj]

end Kernel

/-- What a switch to slot `n` leaves alone, and the directory it loads. -/
structure SwitchedTo (k : Kernel) (n : Fin 16) (k' : Kernel) : Prop where
  paging  : k'.paging = k.paging
  count   : k'.activeProcessCount = k.activeProcessCount
  current : k'.currentProcessIdx = n
  used    : k'.processUsed = k.processUsed
  context : ∀ i, (k'.processList i).context = (k.processList i).context
  idle    : ∀ i, k.processUsed i = false → k'.processList i = k.processList i
  cr3     : k'.cr3 = pagingUsePageDirectory (k.processList n).context.pageDirectoryVirtualAddr

theorem schedulerSwitch_switchedTo {k k' : Kernel} {c n : Fin 16} {fuel : Nat} (hc : k.currentProcessIdx = c)
    (hn : k.nextProcessIdx = n) (hcu : k.processUsed c = true) (hnu : k.processUsed n = true)
    (h : schedulerSwitchToNextProcess fuel k = some k') : SwitchedTo k n k' := by
  unfold schedulerSwitchToNextProcess at h
  simp only [hc, Kernel.setState_next, hn] at h
  obtain ⟨j, -, rfl⟩ := Option.map_eq_some_iff.mp h
  constructor
  · simp
  · simp
  · simp
  · simp
  · simp
  · intro i hi
    have hic : i ≠ c := by
      rintro rfl
      simp [hi] at hcu
    have hin : i ≠ n := by
      rintro rfl
      simp [hi] at hnu
    simp [Kernel.setState_of_ne _ _ _ hin, Kernel.setState_of_ne _ _ _ hic]
  · simp [Kernel.process_fin]

/-- The save goes into the current slot, and nowhere else. -/
theorem schedulerSaveContext_eq {k : Kernel} {c : Fin 16} (hc : processGetCurrentRunningPcbPointer k = some c)
    (ctx : Context) : schedulerSaveContext k ctx = { k with
      processList := Function.update k.processList c { k.processList c with context := ctx } } := by
  unfold schedulerSaveContext
  rw [hc]
  rfl

theorem schedulerSaveContext_used {k : Kernel} {ctx : Context} :
    (schedulerSaveContext k ctx).processUsed = k.processUsed := by
  unfold schedulerSaveContext
  simp

theorem schedulerSaveContext_context {k : Kernel} {c : Fin 16} (hc : processGetCurrentRunningPcbPointer k = some c)
    (ctx : Context) (i : Fin 16) : ((schedulerSaveContext k ctx).processList i).context =
      if c = i then ctx else (k.processList i).context := by
  rw [schedulerSaveContext_eq hc]
  by_cases hi : i = c
  · simp [hi]
  · simp [hi, Ne.symm hi]

namespace Populated

variable {k k' : Kernel} {n : Nat}

theorem saveContext {c : Fin 16} (h : Populated k n) (hcu : k.processUsed c = true)
    (hc : processGetCurrentRunningPcbPointer k = some c) (ctx : Context) :
    Populated (schedulerSaveContext k ctx) n := by
  rw [schedulerSaveContext_eq hc]
  refine ⟨h.paging, h.count, h.used, fun i hi => ?_⟩
  have hic : i ≠ c := by
    rintro rfl
    have hlt := (h.used i).mp hcu
    omega
  exact (Function.update_of_ne hic ..).trans (h.blank i hi)

theorem switchedTo {i : Fin 16} (h : Populated k n) (hs : SwitchedTo k i k') : Populated k' n := by
  refine ⟨hs.paging ▸ h.paging, by rw [hs.count, h.count], by simpa [hs.used] using h.used, fun j hj => ?_⟩
  have hidle : k.processUsed j = false := by
    rcases hu : k.processUsed j with _ | _
    · rfl
    · have hlt := (h.used j).mp hu
      omega
  rw [hs.idle j hidle, h.blank j hj]

/-- No more than 15 processes: slot 15 stays empty. -/
theorem staysInside (h : Populated k n) (hnext : NextLive k) : StaysInside k := by
  obtain ⟨i, hi, hu⟩ := hnext
  intro h15
  have hlt := (h.used i).mp hu
  have hfree := h.paging.free
  omega

end Populated

/-! ## The log -/

section
variable (m : Log) (i : Fin 16) (c : Context) (d : DirPtr)

@[simp] theorem Log.start_resume : (m.start (some i) c d).resume = Function.update m.resume i c := rfl
@[simp] theorem Log.start_directory : (m.start (some i) c d).directory = Function.update m.directory i d := rfl
@[simp] theorem Log.stop_directory (n : Nat) : (m.stop n c).directory = m.directory := rfl

@[simp] theorem Log.stop_resume (j : Fin 16) : (m.stop i c).resume j = if i = j then c else m.resume j := by
  simp only [Log.stop, Fin.val_inj]

end

/-- Every process has the context and the directory of the log. -/
structure Logged (k : Kernel) (m : Log) : Prop where
  populated : ∃ n, Populated k n
  context   : ∀ i, k.processUsed i = true → (k.processList i).context = m.resume i
  directory : ∀ i, k.processUsed i = true →
    (m.resume i).pageDirectoryVirtualAddr = m.directory i ∧ ∃ j, m.directory i = .pool j

/-- What holds between two events. -/
structure Tracked (k : Kernel) (m : Log) : Prop where
  scheduled : Scheduled k
  logged    : Logged k m
  cr3       : ∀ c : Fin 16, k.currentProcessIdx = c → k.cr3 = m.directory c

theorem Tracked.resumed {k : Kernel} {m : Log} (h : Tracked k m) : Resumed k m := by
  obtain ⟨c, hc, hu, -, -⟩ := h.scheduled.running
  refine ⟨c, hc, hu, ?_, h.cr3 c hc⟩
  rw [handedContext, hc, Kernel.process_fin, h.logged.context c hu]

namespace Logged

variable {k k' : Kernel} {m : Log}

/-- A new process is in the log with the context it is to start with. -/
theorem create {r : ProcessRequest} (h : Logged k m) (h1 : 1 ≤ r.bufferSize) (h2 : r.bufferSize ≤ 0x400000)
    (hr : processCreateUserProcess k r 0 = (0, k')) : Logged k' (m.observe k (.create r)) ∧
      k'.cr3 = pagingUsePageDirectory k.cr3 ∧ k'.currentProcessIdx = k.currentProcessIdx ∧
      ∀ i, k.processUsed i = true → (m.observe k (.create r)).directory i = m.directory i := by
  obtain ⟨n, hpop⟩ := h.populated
  obtain ⟨hcheck, hpop', i, d, hi, hslot, hdir⟩ := hpop.create h1 h2 hr
  have hdoes := processCreateUserProcess_does hcheck 0
  have hctx := processCreateUserProcess_context hcheck hslot (hpop.blank i (by omega))
  have hcr3 := processCreateUserProcess_cr3 hcheck
  rw [hr] at hdoes hctx hcr3
  have hobs : m.observe k (.create r) = m.start (some i) (initialContext r (claimMemory k.paging r).pageDir)
      (claimMemory k.paging r).pageDir := by
    rw [← hslot]
    rfl
  rw [hobs]
  -- a slot in use is the new one or was in use before
  have hold : ∀ j, k.processUsed j = true → j ≠ i := by
    rintro j hj rfl
    exact processListGetInactiveIndex_ne hj hslot
  have hcases : ∀ j, k'.processUsed j = true → j = i ∨ k.processUsed j = true := by
    intro j hj
    have hlt := (hpop'.used j).mp hj
    by_cases he : j = i
    · exact .inl he
    · have hne : j.val ≠ i.val := fun hx => he (Fin.ext hx)
      exact .inr ((hpop.used j).mpr (by omega))
  refine ⟨⟨⟨n + 1, hpop'⟩, fun j hj => ?_, fun j hj => ?_⟩, hcr3, hdoes.current,
    fun j hj => Function.update_of_ne (hold j hj) ..⟩
  · rcases hcases j hj with rfl | hu
    · rw [Log.start_resume, Function.update_self]
      exact hctx
    · have hne := hold j hu
      rw [hdoes.process j fun hs => hne (Option.some.inj (hslot.symm.trans hs)).symm, Log.start_resume,
        Function.update_of_ne hne]
      exact h.context j hu
  · rcases hcases j hj with rfl | hu
    · simp only [Log.start_resume, Log.start_directory, Function.update_self]
      exact ⟨rfl, d, hdir⟩
    · have hne := hold j hu
      simp only [Log.start_resume, Log.start_directory, Function.update_of_ne hne]
      exact h.directory j hu

/-- The log after a tick is the table after the save. -/
theorem saveContext {c : Fin 16} (h : Logged k m) (hc : k.currentProcessIdx = c) (hcu : k.processUsed c = true)
    (hrun : processGetCurrentRunningPcbPointer k = some c) (hcr3 : k.cr3 = m.directory c) (frame : InterruptFrame) :
    Logged (schedulerSaveContext k (interruptedContext k frame)) (m.observe k (.tick frame)) := by
  obtain ⟨n, hpop⟩ := h.populated
  have hobs : m.observe k (.tick frame) = m.stop c (interruptedContext k frame) := by
    rw [← hc]
    rfl
  rw [hobs]
  refine ⟨⟨n, hpop.saveContext hcu hrun _⟩, fun i hi => ?_, fun i hi => ?_⟩
  · rw [schedulerSaveContext_used] at hi
    rw [schedulerSaveContext_context hrun, Log.stop_resume, h.context i hi]
  · rw [schedulerSaveContext_used] at hi
    rw [Log.stop_resume, Log.stop_directory]
    split
    · next hci =>
      rw [← hci]
      exact ⟨hcr3, (h.directory c hcu).2⟩
    · exact h.directory i hi

/-- A switch hands over what the log says. -/
theorem switch {c n : Fin 16} {fuel : Nat} (h : Logged k m) (hc : k.currentProcessIdx = c)
    (hn : k.nextProcessIdx = n) (hcu : k.processUsed c = true) (hnu : k.processUsed n = true)
    (hsched : Scheduled k') (hswitch : schedulerSwitchToNextProcess fuel k = some k') : Tracked k' m := by
  have hs := schedulerSwitch_switchedTo hc hn hcu hnu hswitch
  obtain ⟨count, hpop⟩ := h.populated
  refine ⟨hsched, ⟨⟨count, hpop.switchedTo hs⟩, fun i hi => ?_, fun i hi => ?_⟩, fun i hi => ?_⟩
  · rw [hs.used] at hi
    rw [hs.context, h.context i hi]
  · rw [hs.used] at hi
    exact h.directory i hi
  · obtain rfl : n = i := Fin.ext (hs.current.symm.trans hi)
    obtain ⟨hpd, j, hj⟩ := h.directory n hnu
    rw [hs.cr3, h.context n hnu, hpd, hj]
    rfl

end Logged

namespace Tracked

variable {k k' : Kernel} {m : Log}

theorem staysInside (h : Tracked k m) : StaysInside k := by
  obtain ⟨n, hpop⟩ := h.logged.populated
  exact hpop.staysInside h.scheduled.next

theorem create {r : ProcessRequest} (h : Tracked k m) (h1 : 1 ≤ r.bufferSize) (h2 : r.bufferSize ≤ 0x400000)
    (hr : processCreateUserProcess k r 0 = (0, k')) : Tracked k' (m.observe k (.create r)) := by
  obtain ⟨hlogged, hcr3, hcur, hdir⟩ := h.logged.create h1 h2 hr
  obtain ⟨c, hc, hu, -, -⟩ := h.scheduled.running
  obtain ⟨-, j, hj⟩ := h.logged.directory c hu
  refine ⟨h.scheduled.create hr, hlogged, fun i hi => ?_⟩
  obtain rfl : c = i := Fin.ext (hc.symm.trans (hcur.symm.trans hi))
  rw [hcr3, hdir c hu, h.cr3 c hc, hj]
  rfl

theorem tick {fuel : Nat} {frame : InterruptFrame} (h : Tracked k m) (ht : timerIsr fuel k frame = some k') :
    Tracked k' (m.observe k (.tick frame)) := by
  have hsched := h.scheduled.tick h.staysInside ht
  obtain ⟨c, hc, hrun⟩ := h.scheduled.running.running
  have hcu : k.processUsed c = true := by
    obtain ⟨c', hc', hu, -, -⟩ := h.scheduled.running
    rwa [← show c' = c from Fin.ext (hc'.symm.trans hc)]
  obtain ⟨n, hn, hnu⟩ := h.scheduled.next
  have hlogged := h.logged.saveContext hc hcu hrun (h.cr3 c hc) frame
  unfold timerIsr at ht
  rw [schedulerSaveContext_eq hrun] at hlogged ht
  exact hlogged.switch hc hn hcu hnu hsched ht

theorem step {e : KernelEvent} (h : Tracked k m) (hl : Lasting e) (he : e.Happens k k') :
    Tracked k' (m.observe k e) := by
  rcases e with r | ⟨garbage, pid⟩ | frame
  · exact h.create hl.1 hl.2 he
  · exact hl.elim
  · obtain ⟨fuel, ht⟩ := he
    exact h.tick ht

end Tracked

/-! ## Runs from boot -/

section Boot
variable (otherDirectory : UInt32 → PageDirectory) (afterMap : Nat → UInt8) (afterList : Nat → Pcb)
variable (afterUsed : Nat → UInt8)

/-- The log once the shell is created. -/
def bootLog : Log :=
  Log.empty.observe (bootKernel otherDirectory afterMap afterList afterUsed) (.create shellRequest)

theorem kernelSetup_tracked {k : Kernel}
    (h : kernelSetup (bootKernel otherDirectory afterMap afterList afterUsed) = some k) :
    Tracked k (bootLog otherDirectory afterMap afterList afterUsed) := by
  have hsched := kernelSetup_scheduled h
  have hfirst := firstProcess_boot otherDirectory afterMap afterList afterUsed
  have hu := (hfirst.used 0).mpr rfl
  have hdoes := processCreateUserProcess_does (creationCheck_shell otherDirectory afterMap afterList afterUsed) 0
  have hempty : Logged (bootKernel otherDirectory afterMap afterList afterUsed) Log.empty :=
    ⟨⟨0, bootKernel_populated otherDirectory afterMap afterList afterUsed⟩, fun _ hi => Bool.noConfusion hi,
      fun _ hi => Bool.noConfusion hi⟩
  obtain ⟨hlogged, -, -, -⟩ := hempty.create (r := shellRequest) (by decide) (by decide) (Prod.ext hdoes.code rfl)
  exact hlogged.switch hfirst.current hfirst.next hu hu hsched h

end Boot

/-- **Context switching is transparent.** From boot, through ticks with any registers and creations of processes of at
most a frame: the first switch and every later one hand over the context that `timer_isr` took when the process was
last stopped, or the one it was created with, and load the directory it was created with. Every tick switches. -/
theorem context_switch_transparent {otherDirectory : UInt32 → PageDirectory} {afterMap : Nat → UInt8}
    {afterList : Nat → Pcb} {afterUsed : Nat → UInt8} {k₀ k : Kernel} {m : Log} {events : List KernelEvent}
    (hboot : kernelSetup (bootKernel otherDirectory afterMap afterList afterUsed) = some k₀)
    (hrun : Lib.Path ObservedStep (k₀, bootLog otherDirectory afterMap afterList afterUsed) events (k, m)) :
    Resumed k₀ (bootLog otherDirectory afterMap afterList afterUsed) ∧
      ∀ frame, (∃ k', timerIsr 17 k frame = some k') ∧
        ∀ fuel k', timerIsr fuel k frame = some k' → Resumed k' (m.observe k (.tick frame)) := by
  have h₀ := kernelSetup_tracked otherDirectory afterMap afterList afterUsed hboot
  have hstep : ∀ x e y, Tracked x.1 x.2 → ObservedStep x e y → Tracked y.1 y.2 := by
    intro x e y h hs
    rw [hs.2.2]
    exact h.step hs.1 hs.2.1
  have h : Tracked k m := hrun.invariant (I := fun x => Tracked x.1 x.2) hstep h₀
  refine ⟨h₀.resumed, fun frame => ⟨?_, fun fuel k' ht => (h.tick ht).resumed⟩⟩
  exact Option.isSome_iff_exists.mp (h.scheduled.timerIsr_isSome frame)

/-- The log of a kernel that starts with zeros around its tables. -/
def startedLog : Log := bootLog (fun _ => zeroDirectory) (fun _ => 0) (fun _ => zeroPcb) fun _ => 0

/-- The shell was stopped once, and the second process is next. -/
def secondLog : Log := (startedLog.observe started (.create shellRequest)).observe secondReady (.tick zeroFrame)

/-- The second process gets its turn with the context it was created with. -/
theorem context_switch_transparent_second :
    ∃ k', timerIsr 17 secondNext zeroFrame = some k' ∧ Resumed k' (secondLog.observe secondNext (.tick zeroFrame)) := by
  have hboot : kernelSetup (bootKernel (fun _ => zeroDirectory) (fun _ => 0) (fun _ => zeroPcb) fun _ => 0) =
      some started := started_eq
  have hcreate := ObservedStep.of_happens (e := .create shellRequest) ⟨by decide, by decide⟩ secondReady_happens startedLog
  have htick := ObservedStep.of_happens (e := .tick zeroFrame) trivial secondNext_happens
    (startedLog.observe started (.create shellRequest))
  have hrun : Lib.Path ObservedStep (started, startedLog) [.create shellRequest, .tick zeroFrame]
      (secondNext, secondLog) := .cons hcreate (.cons htick .nil)
  obtain ⟨-, hresumed⟩ := context_switch_transparent hboot hrun
  obtain ⟨⟨k', hk'⟩, hres⟩ := hresumed zeroFrame
  exact ⟨k', hk', hres 17 k' hk'⟩

end MoggersOs
