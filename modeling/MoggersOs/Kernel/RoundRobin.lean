import MoggersOs.Kernel.Accounting
import MoggersOs.Kernel.Search
/-
# Round robin (`scheduler/scheduler.c`, `process/process.c:23-105`)

Runs from boot without a `process_destroy` in which the last slot stays free. Between two steps every slot of
the table but the current one is READY (`Orderly`), so the scan of a switch accepts exactly the slots in use
and a tick goes from one of them to the next one in the ring (`Orderly.tick`). The slot that a tick runs was
chosen by the tick before, so a process created in between waits until the first tick after has chosen;
from there on the order is that of the slots.
-/

namespace MoggersOs

open Lib (IsNext)

/-- A creation, whether its file could be read or not, or a tick. -/
inductive Turn where
  | create (r : ProcessRequest) (readCode : Int)
  | tick (frame : InterruptFrame)

def Turn.Happens (k : Kernel) (t : Turn) (k' : Kernel) : Prop :=
  match t with
  | .create r readCode => k' = (processCreateUserProcess k r readCode).2
  | .tick frame => ∃ fuel, timerIsr fuel k frame = some k'

/-- What holds between two steps: `c` is current and `n` was chosen to be next. -/
structure Orderly (k : Kernel) (c n : Fin 16) : Prop where
  current     : k.currentProcessIdx = c
  next        : k.nextProcessIdx = n
  usedCurrent : k.processUsed c = true
  usedNext    : k.processUsed n = true
  unusedLast  : k.processUsed 15 = false
  state       : ∀ i, (k.processList i).state = if i = c then .running else .ready

namespace Orderly

variable {k k' : Kernel} {c n : Fin 16} {fuel : Nat}

theorem create {r : ProcessRequest} {readCode : Int} (h : Orderly k c n)
    (hlast : (processCreateUserProcess k r readCode).2.processUsed 15 = false) :
    Orderly (processCreateUserProcess k r readCode).2 c n := by
  cases hcheck : creationCheck k r with
  | some retcode =>
    rw [processCreateUserProcess_refused hcheck]
    exact h
  | none =>
    have hdoes := processCreateUserProcess_does hcheck readCode
    refine ⟨hdoes.current.trans h.current, hdoes.next.trans h.next, ?_, ?_, hlast, fun i => ?_⟩
    · rw [hdoes.used, h.usedCurrent, Bool.true_or]
    · rw [hdoes.used, h.usedNext, Bool.true_or]
    · by_cases hs : processListGetInactiveIndex k = some i
      · -- The new process is not the one that runs.
        have hic : i ≠ c := by
          rintro rfl
          exact processListGetInactiveIndex_ne h.usedCurrent hs
        rw [hdoes.state i hs, if_neg hic]
      · rw [hdoes.process i hs, h.state i]

theorem saveContext (h : Orderly k c n) (ctx : Context) : Orderly (schedulerSaveContext k ctx) c n := by
  constructor
  · simp [schedulerSaveContext, h.current]
  · simp [schedulerSaveContext, h.next]
  · simp [schedulerSaveContext, h.usedCurrent]
  · simp [schedulerSaveContext, h.usedNext]
  · simp [schedulerSaveContext, h.unusedLast]
  · intro i
    rw [schedulerSaveContext_state, h.state]

/-- A switch from a table without a running slot other than the current one, and with nothing terminated. -/
theorem switch (hc : k.currentProcessIdx = c) (hn : k.nextProcessIdx = n) (hused : k.processUsed n = true)
    (hlast : k.processUsed 15 = false) (hready : ∀ i, i ≠ c → (k.processList i).state = .ready)
    (h : schedulerSwitchToNextProcess fuel k = some k') :
    ∃ j, Orderly k' n j ∧ IsNext (usedSlots k) n j ∧ usedSlots k' = usedSlots k := by
  have h15 : n.val ≠ 15 := by
    intro h15
    rw [show n = 15 from Fin.ext h15, hlast] at hused
    cases hused
  obtain ⟨-, -, -, -, hu, hst⟩ := schedulerSwitch_does hc hn h
  obtain ⟨hcur, j, hj, hisNext⟩ := schedulerSwitch_next hc hn h15 h
  have hstate : ∀ i, (k'.processList i).state = if i = n then .running else .ready := by
    intro i
    rw [hst]
    by_cases hin : i = n
    · rw [if_pos hin, if_pos hin]
    · rw [if_neg hin, if_neg hin]
      by_cases hic : i = c
      · rw [if_pos hic]
      · rw [if_neg hic, hready i hic]
  -- Together with the new current slot, the READY ones are all that are in use.
  have hall : insert n (readySlots k') = usedSlots k := by
    refine Finset.ext fun i => ?_
    simp only [Finset.mem_insert, mem_readySlots, mem_usedSlots, hu, hstate]
    by_cases hin : i = n
    · simp [hin, hused]
    · simp [hin]
  rw [hall] at hisNext
  have hjused : k.processUsed j = true := mem_usedSlots.mp hisNext.1
  refine ⟨j, ⟨hcur, hj, ?_, ?_, ?_, hstate⟩, hisNext, ?_⟩
  · rw [hu, hused]
  · rw [hu, hjused]
  · rw [hu, hlast]
  · unfold usedSlots
    rw [hu]

/-- **A tick runs the slot chosen before and chooses the one after it in the ring.** -/
theorem tick {frame : InterruptFrame} (h : Orderly k c n) (ht : timerIsr fuel k frame = some k') :
    ∃ j, Orderly k' n j ∧ IsNext (usedSlots k) n j ∧ usedSlots k' = usedSlots k := by
  unfold timerIsr at ht
  have hs := h.saveContext (interruptedContext k frame)
  have hused : usedSlots (schedulerSaveContext k (interruptedContext k frame)) = usedSlots k := by
    unfold usedSlots schedulerSaveContext
    rw [Kernel.modifySlot_used]
  rw [← hused]
  exact switch hs.current hs.next hs.usedNext hs.unusedLast (fun i hi => by rw [hs.state, if_neg hi]) ht

theorem timerIsr_isSome (h : Orderly k c n) (frame : InterruptFrame) : (timerIsr 17 k frame).isSome = true := by
  unfold timerIsr
  have hs := h.saveContext (interruptedContext k frame)
  exact schedulerSwitch_isSome hs.next hs.current

theorem step {t : Turn} (h : ∃ c n, Orderly k c n) (ht : t.Happens k k') (hlast : k'.processUsed 15 = false) :
    ∃ c n, Orderly k' c n := by
  obtain ⟨c, n, h⟩ := h
  cases t with
  | create r readCode =>
    have hk : k' = (processCreateUserProcess k r readCode).2 := ht
    subst hk
    exact ⟨c, n, h.create hlast⟩
  | tick frame =>
    obtain ⟨fuel, ht⟩ := ht
    obtain ⟨j, h', -⟩ := h.tick ht
    exact ⟨n, j, h'⟩

end Orderly

/-! ## Runs from boot -/

theorem kernelSetup_orderly {otherDirectory : UInt32 → PageDirectory} {afterMap : Nat → UInt8}
    {afterList : Nat → Pcb} {afterUsed : Nat → UInt8} {k : Kernel}
    (h : kernelSetup (bootKernel otherDirectory afterMap afterList afterUsed) = some k) : ∃ c n, Orderly k c n := by
  have hfirst := firstProcess_boot otherDirectory afterMap afterList afterUsed
  have hlast := Bool.eq_false_iff.mpr (mt (hfirst.used 15).mp (by decide))
  obtain ⟨j, h', -⟩ := Orderly.switch hfirst.current hfirst.next ((hfirst.used 0).mpr rfl) hlast
    (fun i _ => hfirst.ready i) h
  exact ⟨0, j, h'⟩

section
attribute [local instance] slots_neZero

/-- The slot that is current, as one of the table. -/
def currentSlot (k : Kernel) : Fin 16 := Fin.ofNat 16 k.currentProcessIdx

end

theorem Orderly.currentSlot_eq {k : Kernel} {c n : Fin 16} (h : Orderly k c n) : currentSlot k = c := by
  unfold currentSlot
  rw [h.current]
  exact Fin.ext (Nat.mod_eq_of_lt c.isLt)

section Ticks

variable {run : ℕ → Kernel} {N : ℕ}

/-- The slots in use stay what they are, and every tick goes to the slot chosen by the tick before. -/
theorem ticks_orderly (h₀ : ∃ c n, Orderly (run 0) c n)
    (hticks : ∀ m < N, ∃ fuel frame, timerIsr fuel (run m) frame = some (run (m + 1))) :
    ∀ m ≤ N, (∃ c n, Orderly (run m) c n) ∧ usedSlots (run m) = usedSlots (run 0) := by
  intro m
  induction m with
  | zero => exact fun _ => ⟨h₀, rfl⟩
  | succ m ih =>
    intro hm
    obtain ⟨⟨c, n, h⟩, hused⟩ := ih (by omega)
    obtain ⟨fuel, frame, ht⟩ := hticks m hm
    obtain ⟨j, h', -, hused'⟩ := h.tick ht
    exact ⟨⟨n, j, h'⟩, hused'.trans hused⟩

theorem ticks_isNext (h₀ : ∃ c n, Orderly (run 0) c n)
    (hticks : ∀ m < N, ∃ fuel frame, timerIsr fuel (run m) frame = some (run (m + 1))) {m : ℕ} (hm : m + 1 < N) :
    IsNext (usedSlots (run 0)) (currentSlot (run (m + 1))) (currentSlot (run (m + 2))) := by
  obtain ⟨⟨c, n, h⟩, hused⟩ := ticks_orderly h₀ hticks m (by omega)
  obtain ⟨fuel, frame, ht⟩ := hticks m (by omega)
  obtain ⟨j, h', hisNext, hused'⟩ := h.tick ht
  obtain ⟨fuel', frame', ht'⟩ := hticks (m + 1) hm
  obtain ⟨j', h'', -⟩ := h'.tick ht'
  rw [h'.currentSlot_eq, h''.currentSlot_eq, ← hused]
  exact hisNext

end Ticks

/-- **Round robin.** After any history of creations and ticks from boot that leaves the last slot free, any
number of further ticks all return, and step through the slots in use in the order of the ring: each of them
once in any round, and after each tick it is the only one of the table RUNNING. -/
theorem round_robin {otherDirectory : UInt32 → PageDirectory} {afterMap : Nat → UInt8}
    {afterList : Nat → Pcb} {afterUsed : Nat → UInt8} {k₀ : Kernel} {turns : List Turn} {run : ℕ → Kernel} {N : ℕ}
    (hboot : kernelSetup (bootKernel otherDirectory afterMap afterList afterUsed) = some k₀)
    (hrun : Lib.Path (fun k t k' => Turn.Happens k t k' ∧ k'.processUsed 15 = false) k₀ turns (run 0))
    (hticks : ∀ m < N, ∃ fuel frame, timerIsr fuel (run m) frame = some (run (m + 1))) :
    (∀ m ≤ N, usedSlots (run m) = usedSlots (run 0) ∧ ∀ frame, ∃ k', timerIsr 17 (run m) frame = some k') ∧
    (∀ m < N, ∃ c ∈ usedSlots (run 0), (run (m + 1)).currentProcessIdx = c ∧
      ∀ i, ((run (m + 1)).processList i).state = if i = c then .running else .ready) ∧
    (∀ m, m + 1 < N → IsNext (usedSlots (run 0)) (currentSlot (run (m + 1))) (currentSlot (run (m + 2)))) ∧
    ∀ m, m + (usedSlots (run 0)).card ≤ N → ∀ i ∈ usedSlots (run 0),
      ∃! j, j < (usedSlots (run 0)).card ∧ (run (m + j + 1)).currentProcessIdx = i := by
  have hstep : ∀ k t k', (∃ c n, Orderly k c n) → Turn.Happens k t k' ∧ k'.processUsed 15 = false →
      ∃ c n, Orderly k' c n := fun _ _ _ h hs => Orderly.step h hs.1 hs.2
  have h₀ : ∃ c n, Orderly (run 0) c n := hrun.invariant (I := fun k => ∃ c n, Orderly k c n) hstep
    (kernelSetup_orderly hboot)
  have hall := ticks_orderly h₀ hticks
  refine ⟨fun m hm => ⟨(hall m hm).2, fun frame => ?_⟩, fun m hm => ?_, fun m hm => ticks_isNext h₀ hticks hm, ?_⟩
  · obtain ⟨⟨c, n, h⟩, -⟩ := hall m hm
    exact Option.isSome_iff_exists.mp (h.timerIsr_isSome frame)
  · obtain ⟨⟨c, n, h⟩, hused⟩ := hall (m + 1) hm
    exact ⟨c, by rw [← hused, mem_usedSlots, h.usedCurrent], h.current, h.state⟩
  · intro m hm i hi
    have hpos : 0 < (usedSlots (run 0)).card := Finset.card_pos.mpr ⟨i, hi⟩
    have hcur : ∀ j, j < (usedSlots (run 0)).card →
        ((run (m + j + 1)).currentProcessIdx = i ↔ currentSlot (run (m + j + 1)) = i) := by
      intro j hj
      obtain ⟨⟨c, n, h⟩, -⟩ := hall (m + j + 1) (by omega)
      rw [h.currentSlot_eq, h.current, Fin.ext_iff]
    have hfirst : currentSlot (run (m + 0 + 1)) ∈ usedSlots (run 0) := by
      obtain ⟨⟨c, n, h⟩, hused⟩ := hall (m + 0 + 1) (by omega)
      rw [h.currentSlot_eq, ← hused, mem_usedSlots, h.usedCurrent]
    obtain ⟨j, ⟨hj, he⟩, honly⟩ := IsNext.visits_once (fun j => currentSlot (run (m + j + 1))) hfirst
      (fun j hj => ticks_isNext h₀ hticks (by omega)) hi
    refine ⟨j, ⟨hj, (hcur j hj).mpr he⟩, ?_⟩
    rintro j' ⟨hj', he'⟩
    exact honly j' ⟨hj', (hcur j' hj').mp he'⟩

/-- The second process runs. -/
def secondRuns : Kernel := (timerIsr 17 secondNext zeroFrame).get (by decide +kernel)

theorem secondNext_eq : timerIsr 17 secondReady zeroFrame = some secondNext := (Option.some_get _).symm

theorem secondRuns_eq : timerIsr 17 secondNext zeroFrame = some secondRuns := (Option.some_get _).symm

def twoTicks : ℕ → Kernel
  | 0 => secondReady
  | 1 => secondNext
  | _ => secondRuns

/-- Beside the shell, a second process has its turn. -/
theorem round_robin_two : ∃! j, j < (usedSlots (twoTicks 0)).card ∧
    (twoTicks (0 + j + 1)).currentProcessIdx = ((1 : Fin 16) : ℕ) := by
  have hrun : Lib.Path (fun k t k' => Turn.Happens k t k' ∧ k'.processUsed 15 = false) started
      [.create shellRequest 0] (twoTicks 0) := .cons ⟨rfl, by decide +kernel⟩ .nil
  have hticks : ∀ m < 2, ∃ fuel frame, timerIsr fuel (twoTicks m) frame = some (twoTicks (m + 1)) := by
    intro m hm
    obtain rfl | rfl : m = 0 ∨ m = 1 := by omega
    · exact ⟨17, zeroFrame, secondNext_eq⟩
    · exact ⟨17, zeroFrame, secondRuns_eq⟩
  have hcard : (usedSlots (twoTicks 0)).card = 2 := by decide +kernel
  have hused : (1 : Fin 16) ∈ usedSlots (twoTicks 0) := by decide +kernel
  exact (round_robin started_eq hrun hticks).2.2.2 0 (by rw [hcard]) 1 hused

end MoggersOs
