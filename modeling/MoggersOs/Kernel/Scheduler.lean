import MoggersOs.Lib.Path
import MoggersOs.Kernel.Process
/-
# The scheduler (`scheduler/scheduler.c`)

| here | there |
| --- | --- |
| `InterruptFrame`                   | what `timer_isr` uses of `struct InterruptFrame` (`interrupt.h:125-129`) |
| `schedulerSaveContext`             | `scheduler_save_context_to_current_running_pcb` (`scheduler.c:52-56`) |
| `searchNext`                       | the `while` loop of `scheduler_switch_to_next_process` (`scheduler.c:66-77`) |
| `schedulerSwitchToNextProcess`     | `scheduler.c:58-91`, up to the jump |
| `interruptedContext`, `timerIsr`   | `timer_isr` (`scheduler.c:26-41`) |
| `kernelSetup`                      | the end of `kernel_setup` (`kernel.c:52-63`), for a shell that could be read |
| `KernelEvent`                      | what happens between two instructions of the running program: system calls 11 and 13 and the timer |

A switch runs the process that the switch before it chose, and chooses the one after. The search starts
one past the new current slot and wraps only after an increment, so from slot 15 it first looks at slot 16,
which does not exist. From a slot past the table it need not come back to where it started; the loop takes
fuel, and `none` means that it still runs when the fuel is used up.

Both indices outlive the processes they name: `process_destroy` touches neither. `scheduler_runs_live` is
about runs in which it hits neither of the two slots, and the switch away from slot 15 finds nothing in the
memory after the table.
-/

namespace MoggersOs

structure InterruptFrame where
  cpu    : CpuRegister
  eip    : UInt32
  cs     : UInt32
  eflags : UInt32

/-- A store to `_process_list[n].metadata.state`. -/
def Kernel.setState (k : Kernel) (n : Nat) (state : ProcessState) : Kernel :=
  k.setProcess n { k.process n with state := state }

/-- With no running process the copy goes through `NULL`, to memory that nothing here reads. -/
def schedulerSaveContext (k : Kernel) (ctx : Context) : Kernel :=
  k.modifySlot (processGetCurrentRunningPcbPointer k) fun b => { b with context := ctx }

/-- Where `i` is when the loop stops. -/
def searchNext (k : Kernel) (current : Nat) : Nat → Nat → Option Nat
  | 0, _ => none
  | fuel + 1, i =>
    if i = current then some i
    else if k.used i && (k.process i).state == .ready then some i
    else searchNext k current fuel (if 16 ≤ i + 1 then 0 else i + 1)

def schedulerSwitchToNextProcess (fuel : Nat) (k : Kernel) : Option Kernel :=
  let k := k.setState k.currentProcessIdx .ready
  let current := k.nextProcessIdx
  (searchNext k current fuel ((current + 1) % 2 ^ 32)).map fun i =>
    let k := { k with currentProcessIdx := current, nextProcessIdx := i }
    let k := k.setState current .running
    { k with cr3 := pagingUsePageDirectory (k.process current).context.pageDirectoryVirtualAddr }

/-- The `struct Context c` of `timer_isr`. -/
def interruptedContext (k : Kernel) (frame : InterruptFrame) : Context where
  cpu := frame.cpu
  eip := frame.eip
  cs := frame.cs
  eflags := frame.eflags
  esp := frame.cpu.esp
  ss := 0x23
  pageDirectoryVirtualAddr := k.cr3

def timerIsr (fuel : Nat) (k : Kernel) (frame : InterruptFrame) : Option Kernel :=
  schedulerSwitchToNextProcess fuel (schedulerSaveContext k (interruptedContext k frame))

/-- Seventeen rounds are enough, from any slot of the table (`searchNext_isSome`). -/
def kernelSetup (boot : Kernel) : Option Kernel :=
  schedulerSwitchToNextProcess 17 (processCreateUserProcess boot shellRequest 0).2

inductive KernelEvent where
  /-- A creation whose file could be read. -/
  | create (r : ProcessRequest)
  | destroy (garbage : Fin 8 → PageFlag) (pid : UInt32)
  | tick (frame : InterruptFrame)

def KernelEvent.Happens (k : Kernel) (e : KernelEvent) (k' : Kernel) : Prop :=
  match e with
  | .create r => processCreateUserProcess k r 0 = (0, k')
  | .destroy garbage pid => k' = (processDestroy garbage k pid).2
  | .tick frame => ∃ fuel, timerIsr fuel k frame = some k'

/-! ## The search -/

theorem Kernel.used_fin (k : Kernel) (i : Fin 16) : k.used i = k.processUsed i := dif_pos i.isLt

theorem Kernel.process_fin (k : Kernel) (i : Fin 16) : k.process i = k.processList i := dif_pos i.isLt

section Search

variable {k : Kernel} {current : Nat}

/-- Inside the table the search comes back to where it started after at most sixteen steps. -/
theorem searchNext_isSome (hc : current < 16) : ∀ {fuel i : Nat}, i < 16 → (current + 16 - i) % 16 < fuel →
    (searchNext k current fuel i).isSome = true := by
  intro fuel
  induction fuel with
  | zero => exact fun _ h => absurd h (Nat.not_lt_zero _)
  | succ fuel ih =>
    intro i hi hf
    unfold searchNext
    split
    · rfl
    next hne =>
      split
      · rfl
      · split
        · exact ih (by omega) (by omega)
        · exact ih (by omega) (by omega)

/-- From one past any slot of the table, 17 rounds suffice: from slot 15 the first goes to slot 16. -/
theorem searchNext_succ_isSome (hc : current < 16) : (searchNext k current 17 (current + 1)).isSome = true := by
  by_cases h15 : current = 15
  · subst h15
    unfold searchNext
    split
    · rfl
    · split
      · rfl
      · exact searchNext_isSome hc (by decide) (by decide)
  · exact searchNext_isSome hc (by omega) (by omega)

/-- The search stops where it started or at a process that is ready, and in the table if it starts there
or does not stop at slot 16. -/
theorem searchNext_stops : ∀ {fuel i j : Nat}, searchNext k current fuel i = some j →
    i < 16 ∨ i = 16 ∧ ¬ (k.used 16 = true ∧ (k.process 16).state = .ready) →
    j = current ∨ j < 16 ∧ k.used j = true ∧ (k.process j).state = .ready := by
  intro fuel
  induction fuel with
  | zero => exact fun h => absurd h (by simp [searchNext])
  | succ fuel ih =>
    intro i j h hi
    unfold searchNext at h
    split at h
    next he =>
      cases h
      exact .inl he
    next hne =>
      split at h
      next hr =>
        cases h
        have hr' : k.used i = true ∧ (k.process i).state = .ready := by simpa using hr
        obtain hlt | ⟨rfl, hn⟩ := hi
        · exact .inr ⟨hlt, hr'⟩
        · exact absurd hr' hn
      · split at h
        · exact ih h (.inl (by omega))
        · exact ih h (.inl (by omega))

end Search

/-! ## Switches -/

namespace Kernel

variable (k : Kernel) (i : Fin 16) (state : ProcessState)

theorem setState_fin : k.setState i state = { k with
    processList := Function.update k.processList i { k.processList i with state := state } } := by
  unfold setState setProcess
  rw [dif_pos i.isLt, process_fin]

@[simp] theorem setState_processUsed : (k.setState i state).processUsed = k.processUsed := by rw [setState_fin]

@[simp] theorem setState_current : (k.setState i state).currentProcessIdx = k.currentProcessIdx := by
  rw [setState_fin]

@[simp] theorem setState_next : (k.setState i state).nextProcessIdx = k.nextProcessIdx := by rw [setState_fin]

@[simp] theorem setState_used (n : Nat) : (k.setState i state).used n = k.used n := by
  rw [setState_fin]
  rfl

/-- A store inside the table changes nothing after it. -/
theorem setState_process_of_ge {n : Nat} (hn : ¬ n < 16) : (k.setState i state).process n = k.process n := by
  rw [setState_fin]
  unfold process
  rw [dif_neg hn, dif_neg hn]

/-- The state of each slot afterwards. -/
theorem setState_state (j : Fin 16) : ((k.setState i state).processList j).state =
    if j = i then state else (k.processList j).state := by
  rw [setState_fin]
  by_cases hj : j = i
  · rw [if_pos hj, hj]
    simp
  · rw [if_neg hj]
    simp [hj]

end Kernel

/-- The current slot is in use and running, and no other slot in use is. -/
def OnlyRunning (k : Kernel) : Prop :=
  ∃ c : Fin 16, k.currentProcessIdx = c ∧ k.processUsed c = true ∧ (k.processList c).state = .running ∧
    ∀ i, k.processUsed i = true → (k.processList i).state = .running → i = c

/-- The slot chosen for the next switch is in use. -/
def NextLive (k : Kernel) : Prop := ∃ n : Fin 16, k.nextProcessIdx = n ∧ k.processUsed n = true

/-- The switch away from slot `next_process_idx` does not stop at slot 16. -/
def StaysInside (k : Kernel) : Prop :=
  k.nextProcessIdx = 15 → ¬ (k.used 16 = true ∧ (k.process 16).state = .ready)

section Switch

variable {k k' : Kernel} {c n : Fin 16} {fuel : Nat}

theorem schedulerSwitch_isSome (hn : k.nextProcessIdx = n) (hc : k.currentProcessIdx = c) :
    (schedulerSwitchToNextProcess 17 k).isSome = true := by
  unfold schedulerSwitchToNextProcess
  rw [hc, Kernel.setState_fin]
  simp only [hn, Option.isSome_map]
  have hlt := n.isLt
  rw [Nat.mod_eq_of_lt (by omega)]
  exact searchNext_succ_isSome hlt

theorem schedulerSwitch_does (hc : k.currentProcessIdx = c) (hn : k.nextProcessIdx = n)
    (h : schedulerSwitchToNextProcess fuel k = some k') :
    ∃ j, searchNext (k.setState c .ready) n fuel (n + 1) = some j ∧ k'.currentProcessIdx = n ∧ k'.nextProcessIdx = j ∧
      k'.processUsed = k.processUsed ∧
      ∀ i, (k'.processList i).state = if i = n then .running else if i = c then .ready else (k.processList i).state := by
  unfold schedulerSwitchToNextProcess at h
  simp only [hc, Kernel.setState_next, hn] at h
  have hlt := n.isLt
  rw [Nat.mod_eq_of_lt (by omega)] at h
  obtain ⟨j, hj, rfl⟩ := Option.map_eq_some_iff.mp h
  refine ⟨j, hj, ?_, ?_, ?_, fun i => ?_⟩
  · simp
  · simp
  · simp
  · simp only [Kernel.setState_state]

/-- **What a switch leaves behind**, given that no slot in use but the current one runs. -/
theorem schedulerSwitch_live (hc : k.currentProcessIdx = c) (hnext : NextLive k)
    (honly : ∀ i, k.processUsed i = true → (k.processList i).state = .running → i = c)
    (hin : StaysInside k) (h : schedulerSwitchToNextProcess fuel k = some k') : OnlyRunning k' ∧ NextLive k' := by
  obtain ⟨n, hn, hused⟩ := hnext
  obtain ⟨j, hj, hcur, hnx, hu, hst⟩ := schedulerSwitch_does hc hn h
  refine ⟨⟨n, hcur, by rw [hu, hused], by rw [hst, if_pos rfl], fun i hi hr => ?_⟩, ?_⟩
  · -- The slot that ran before is ready now.
    rw [hu] at hi
    rw [hst] at hr
    by_cases hin : i = n
    · exact hin
    · rw [if_neg hin] at hr
      by_cases hic : i = c
      · rw [if_pos hic] at hr
        cases hr
      · rw [if_neg hic] at hr
        exact absurd (honly i hi hr) hic
  · have hstart : n.val + 1 < 16 ∨ n.val + 1 = 16 ∧ ¬ ((k.setState c .ready).used 16 = true ∧
        ((k.setState c .ready).process 16).state = .ready) := by
      by_cases h15 : n.val = 15
      · right
        rw [Kernel.setState_used, Kernel.setState_process_of_ge _ _ _ (by decide)]
        exact ⟨by omega, hin (by rw [hn, h15])⟩
      · left
        omega
    obtain he | ⟨hlt, huj, -⟩ := searchNext_stops hj hstart
    · exact ⟨n, hnx.trans he, by rw [hu, hused]⟩
    · rw [Kernel.setState_used, Kernel.used_fin k ⟨j, hlt⟩] at huj
      exact ⟨⟨j, hlt⟩, hnx, by rw [hu, huj]⟩

end Switch

/-! ## Events -/

theorem KernelEvent.create_happens {k : Kernel} {r : ProcessRequest} (h : (processCreateUserProcess k r 0).1 = 0) :
    KernelEvent.Happens k (.create r) (processCreateUserProcess k r 0).2 := Prod.ext h rfl

theorem OnlyRunning.running {k : Kernel} (h : OnlyRunning k) :
    ∃ c : Fin 16, k.currentProcessIdx = c ∧ processGetCurrentRunningPcbPointer k = some c := by
  obtain ⟨c, hc, hu, hr, honly⟩ := h
  refine ⟨c, hc, ?_⟩
  cases hf : processGetCurrentRunningPcbPointer k with
  | none =>
    have hn := Fin.find?_eq_none_iff.mp hf c
    simp [hu, hr] at hn
  | some i =>
    have hi := (Fin.find?_eq_some_iff.mp hf).1
    simp only [Bool.and_eq_true, beq_iff_eq] at hi
    rw [honly i hi.1 hi.2]

/-- The copy goes to the context of one slot; its state stays. -/
theorem schedulerSaveContext_state (k : Kernel) (ctx : Context) (i : Fin 16) :
    ((schedulerSaveContext k ctx).processList i).state = (k.processList i).state := by
  unfold schedulerSaveContext
  by_cases hi : processGetCurrentRunningPcbPointer k = some i
  · rw [hi, Kernel.modifySlot_some]
  · rw [Kernel.modifySlot_of_ne _ _ hi]

/-- What holds between two events. -/
structure Scheduled (k : Kernel) : Prop where
  running : OnlyRunning k
  next    : NextLive k

theorem StaysInside.saveContext {k : Kernel} (h : StaysInside k) (ctx : Context) :
    StaysInside (schedulerSaveContext k ctx) := by
  unfold schedulerSaveContext
  cases processGetCurrentRunningPcbPointer k with
  | none => exact h
  | some i => exact h

/-- The events that leave the scheduler's two slots alone: a destroy hits neither of them, and a tick does
not take its next process from behind the table. -/
def Spares (k : Kernel) : KernelEvent → Prop
  | .create _ => True
  | .destroy _ pid => ∀ i, matchPid k pid = some i → i.val ≠ k.currentProcessIdx ∧ i.val ≠ k.nextProcessIdx
  | .tick _ => StaysInside k

namespace Scheduled

variable {k k' : Kernel}

theorem create {r : ProcessRequest} (h : Scheduled k) (hr : processCreateUserProcess k r 0 = (0, k')) :
    Scheduled k' := by
  have hdoes := processCreateUserProcess_does (processCreateUserProcess_passes hr) 0
  rw [hr] at hdoes
  obtain ⟨⟨c, hc, hu, hrun, honly⟩, n, hn, hnu⟩ := h
  -- the new process takes a slot that was not in use, and is ready
  refine ⟨⟨c, hdoes.current.trans hc, ?_, ?_, fun i hi hri => ?_⟩, n, hdoes.next.trans hn, ?_⟩
  · rw [hdoes.used, hu, Bool.true_or]
  · rw [hdoes.process c (processListGetInactiveIndex_ne hu), hrun]
  · by_cases hs : processListGetInactiveIndex k = some i
    · rw [hdoes.state i hs] at hri
      cases hri
    · have hne : (processListGetInactiveIndex k == some i) = false := beq_false_of_ne hs
      rw [hdoes.used, hne, Bool.or_false] at hi
      rw [hdoes.process i hs] at hri
      exact honly i hi hri
  · rw [hdoes.used, hnu, Bool.true_or]

theorem destroy {pid : UInt32} (h : Scheduled k)
    (hs : ∀ i, matchPid k pid = some i → i.val ≠ k.currentProcessIdx ∧ i.val ≠ k.nextProcessIdx)
    (garbage : Fin 8 → PageFlag) : Scheduled (processDestroy garbage k pid).2 := by
  cases hm : matchPid k pid with
  | none =>
    rw [processDestroy_none hm]
    exact h
  | some i =>
    rw [processDestroy_some hm]
    obtain ⟨⟨c, hc, hu, hrun, honly⟩, n, hn, hnu⟩ := h
    obtain ⟨hic, hin⟩ := hs i hm
    have hci : c ≠ i := fun he => hic (by rw [hc, he])
    have hni : n ≠ i := fun he => hin (by rw [hn, he])
    refine ⟨⟨c, hc, ?_, ?_, fun j hj hrj => ?_⟩, n, hn, ?_⟩
    · exact (Function.update_of_ne hci ..).trans hu
    · exact (congrArg Pcb.state (Function.update_of_ne hci ..)).trans hrun
    · have hji : j ≠ i := by
        rintro rfl
        simp at hj
      simp only [Function.update_of_ne hji] at hj hrj
      exact honly j hj hrj
    · exact (Function.update_of_ne hni ..).trans hnu

theorem saveContext (h : Scheduled k) (ctx : Context) : Scheduled (schedulerSaveContext k ctx) := by
  have hstate := schedulerSaveContext_state k ctx
  obtain ⟨⟨c, hc, hu, hrun, honly⟩, n, hn, hnu⟩ := h
  refine ⟨⟨c, ?_, ?_, (hstate c).trans hrun, fun i hi hri => ?_⟩, n, ?_, ?_⟩
  · simp [schedulerSaveContext, hc]
  · simp [schedulerSaveContext, hu]
  · rw [hstate] at hri
    exact honly i (by simpa [schedulerSaveContext] using hi) hri
  · simp [schedulerSaveContext, hn]
  · simp [schedulerSaveContext, hnu]

theorem tick {fuel : Nat} {frame : InterruptFrame} (h : Scheduled k) (hin : StaysInside k)
    (ht : timerIsr fuel k frame = some k') : Scheduled k' := by
  unfold timerIsr at ht
  obtain ⟨⟨c, hc, -, -, honly⟩, hnext⟩ := h.saveContext (interruptedContext k frame)
  obtain ⟨hrun, hlive⟩ := schedulerSwitch_live hc hnext honly (hin.saveContext _) ht
  exact ⟨hrun, hlive⟩

theorem timerIsr_isSome (h : Scheduled k) (frame : InterruptFrame) : (timerIsr 17 k frame).isSome = true := by
  unfold timerIsr
  obtain ⟨⟨c, hc, -⟩, n, hn, -⟩ := h.saveContext (interruptedContext k frame)
  exact schedulerSwitch_isSome hn hc

theorem step {e : KernelEvent} (h : Scheduled k) (hs : Spares k e) (he : e.Happens k k') : Scheduled k' := by
  cases e with
  | create r => exact h.create he
  | destroy garbage pid =>
    have hk : k' = (processDestroy garbage k pid).2 := he
    rw [hk]
    exact h.destroy hs garbage
  | tick frame =>
    obtain ⟨fuel, ht⟩ := he
    exact h.tick hs ht

end Scheduled

/-! ## Runs from boot -/

/-- The boot leaves 31 frames and the shell needs two. -/
theorem creationCheck_shell (otherDirectory : UInt32 → PageDirectory) (afterMap : Nat → UInt8)
    (afterList : Nat → Pcb) (afterUsed : Nat → UInt8) :
    creationCheck (bootKernel otherDirectory afterMap afterList afterUsed) shellRequest = none := by
  have hcount : (bootKernel otherDirectory afterMap afterList afterUsed).activeProcessCount = 0 := rfl
  have hfree : (bootKernel otherDirectory afterMap afterList afterUsed).paging.freePageFrameCount = 32 - 1 := rfl
  have hneed : pageFrameCountNeeded shellRequest = 2 := by decide
  unfold creationCheck pagingAllocateCheck
  rw [hcount, hfree, hneed]
  decide

/-- A process in slot 0 is all there is, and nothing has run. -/
structure FirstProcess (k : Kernel) : Prop where
  current : k.currentProcessIdx = (0 : Fin 16)
  next    : k.nextProcessIdx = (0 : Fin 16)
  used    : ∀ i, k.processUsed i = true ↔ i = 0
  ready   : ∀ i, (k.processList i).state = .ready

theorem firstProcess_boot (otherDirectory : UInt32 → PageDirectory) (afterMap : Nat → UInt8)
    (afterList : Nat → Pcb) (afterUsed : Nat → UInt8) :
    FirstProcess (processCreateUserProcess (bootKernel otherDirectory afterMap afterList afterUsed) shellRequest 0).2 := by
  have hslot : processListGetInactiveIndex (bootKernel otherDirectory afterMap afterList afterUsed) = some 0 := rfl
  have hnone : ∀ i, (bootKernel otherDirectory afterMap afterList afterUsed).processUsed i = false := fun _ => rfl
  have hdoes := processCreateUserProcess_does (creationCheck_shell otherDirectory afterMap afterList afterUsed) 0
  refine ⟨hdoes.current, hdoes.next, fun i => ?_, fun i => ?_⟩
  · rw [hdoes.used, hslot, hnone, Bool.false_or, beq_iff_eq, Option.some.injEq, eq_comm]
  · by_cases hi : i = 0
    · rw [hi]
      exact hdoes.state 0 hslot
    · rw [hdoes.process i fun hs => hi (Option.some.inj (hs.symm.trans hslot))]
      rfl

theorem kernelSetup_scheduled {otherDirectory : UInt32 → PageDirectory} {afterMap : Nat → UInt8}
    {afterList : Nat → Pcb} {afterUsed : Nat → UInt8} {k : Kernel}
    (h : kernelSetup (bootKernel otherDirectory afterMap afterList afterUsed) = some k) : Scheduled k := by
  have hfirst := firstProcess_boot otherDirectory afterMap afterList afterUsed
  have hlive : NextLive _ := ⟨0, hfirst.next, (hfirst.used 0).mpr rfl⟩
  have hin : StaysInside _ := fun h15 => absurd (hfirst.next.symm.trans h15) (by decide)
  obtain ⟨hrun, hlive'⟩ := schedulerSwitch_live hfirst.current hlive
    (fun i _ hr => absurd ((hfirst.ready i).symm.trans hr) (by decide)) hin h
  exact ⟨hrun, hlive'⟩

def zeroFrame : InterruptFrame := ⟨⟨0, 0, 0, 0, 0, 0, 0, 0, 0, 0, 0, 0⟩, 0, 0, 0⟩

/-- The shell runs. -/
def started : Kernel := (kernelSetup quietKernel).get (by decide +kernel)

/-- A second process was created. -/
def secondReady : Kernel := (processCreateUserProcess started shellRequest 0).2

/-- The shell still runs, and the second process is next. -/
def secondNext : Kernel := (timerIsr 17 secondReady zeroFrame).get (by decide +kernel)

/-- The second process was killed meanwhile. -/
def secondKilled : Kernel :=
  (timerIsr 17 (processDestroy (fun _ => zeroFlag) secondNext 1).2 zeroFrame).get (by decide +kernel)

theorem started_eq : kernelSetup quietKernel = some started := (Option.some_get _).symm

theorem secondReady_happens : KernelEvent.Happens started (.create shellRequest) secondReady :=
  KernelEvent.create_happens (by decide +kernel)

theorem secondNext_happens : KernelEvent.Happens secondReady (.tick zeroFrame) secondNext :=
  ⟨17, (Option.some_get _).symm⟩

end MoggersOs
