import MoggersOs.Lib.Path
import MoggersOs.Kernel.Process
/-
# Pids

A creation searches the table twice, for the slot (`process.c:44`) and for the pid (`process.c:48`), and stores
nothing to `_process_used` in between. A kill zeroes the slot that it takes out of use. So the pid of a slot in use is
its number and every other pid is 0 (`Numbered`), and where `process_destroy` stops at slot `i`, what it goes on to call
`_process_list[pid]` is the same process.

A kill of pid 0 while slot 0 is free lowers `active_process_count` all the same. After it a creation may pass its
checks with every slot in use: `p_index` is `-1`, and the stores go to the memory before `_process_list` and
`_process_used`. `CallStep` leaves open what they change there.

| here | there |
| --- | --- |
| `CallStep`  | a call of `process_create_user_process` or `process_destroy`, whatever comes of it |
| `Slotwise`  | what holds of the slots in use and of the other ones, whatever it is |
| `PidIsSlot` | a pid and a subscript of `_process_list` are the same thing |
-/

namespace MoggersOs

/-- A call, and the state that it leads to. Without a slot to claim, anything but the two tables may be changed. -/
inductive CallStep (k : Kernel) : ProcessCall → Kernel → Prop
  | exec (call : ProcessCall) : CallStep k call (call.exec k)
  | noSlot {r : ProcessRequest} {readCode : Int} {k' : Kernel} : creationCheck k r = none →
      processListGetInactiveIndex k = none → k'.processList = k.processList → k'.processUsed = k.processUsed →
      CallStep k (.create r readCode) k'

structure PidIsSlot (k : Kernel) : Prop where
  used     : ∀ i, k.processUsed i = true → (k.processList i).pid = UInt32.ofNat i
  idle     : ∀ i, k.processUsed i = false → (k.processList i).pid = 0
  distinct : ∀ i j, k.processUsed i = true → k.processUsed j = true → (k.processList i).pid = (k.processList j).pid → i = j
  found    : ∀ pid i, matchPid k pid = some i → pid.toNat = i

/-! ## Slot by slot -/

/-- `P` holds of every slot in use, and `Q` of every other one. -/
structure Slotwise (P Q : Fin 16 → Pcb → Prop) (k : Kernel) : Prop where
  used : ∀ i, k.processUsed i = true → P i (k.processList i)
  idle : ∀ i, k.processUsed i = false → Q i (k.processList i)

namespace Slotwise

variable {k : Kernel} {P Q : Fin 16 → Pcb → Prop}

/-- A creation is about the slot that it claims. -/
theorem create {r : ProcessRequest} (h : Slotwise P Q k) (hcheck : creationCheck k r = none) (readCode : Int)
    (hnew : ∀ i, processListGetInactiveIndex k = some i → P i ((processCreateUserProcess k r readCode).2.processList i)) :
    Slotwise P Q (processCreateUserProcess k r readCode).2 := by
  have hdoes := processCreateUserProcess_does hcheck readCode
  constructor
  · intro i hi
    by_cases hs : processListGetInactiveIndex k = some i
    · exact hnew i hs
    · rw [hdoes.process i hs]
      exact h.used i (by simpa [hdoes.used, hs] using hi)
  · intro i hi
    have hboth : k.processUsed i = false ∧ processListGetInactiveIndex k ≠ some i := by
      simpa [hdoes.used] using hi
    rw [hdoes.process i hboth.2]
    exact h.idle i hboth.1

/-- A kill zeroes the slot that it takes out of use. -/
theorem destroy (h : Slotwise P Q k) {pid : UInt32} {i : Fin 16} (hm : matchPid k pid = some i) (hzero : Q i zeroPcb)
    (garbage : Fin 8 → PageFlag) : Slotwise P Q (processDestroy garbage k pid).2 := by
  rw [processDestroy_some hm]
  constructor
  · intro j hj
    by_cases he : j = i
    · simp [he] at hj
    · simp only [Function.update_of_ne he] at hj ⊢
      exact h.used j hj
  · intro j hj
    by_cases he : j = i
    · simpa [he] using hzero
    · simp only [Function.update_of_ne he] at hj ⊢
      exact h.idle j hj

end Slotwise

/-! ## The numbers -/

/-- The pid of a slot in use is its number, and every other pid is 0. -/
def Numbered (k : Kernel) : Prop := Slotwise (fun i p => p.pid = UInt32.ofNat i) (fun _ p => p.pid = 0) k

theorem processGenerateNewPid_some {k : Kernel} {i : Fin 16} (h : processListGetInactiveIndex k = some i) :
    processGenerateNewPid k = UInt32.ofNat i := by
  unfold processGenerateNewPid
  rw [h]

/-- The pid stays the one set before the executable is read, whatever the read returns. -/
theorem processCreateUserProcess_pid {k : Kernel} {r : ProcessRequest} (h : creationCheck k r = none)
    (readCode : Int) {i : Fin 16} (hi : processListGetInactiveIndex k = some i) :
    ((processCreateUserProcess k r readCode).2.processList i).pid = UInt32.ofNat i := by
  have hpid := processGenerateNewPid_some hi
  unfold processCreateUserProcess
  rw [h]
  by_cases hc : readCode = 0
  · simp [hc, hi, startPcb, claimPcb, hpid]
  · simp [hc, hi, claimPcb, hpid]

namespace Numbered

variable {k k' : Kernel}

theorem boot (otherDirectory : UInt32 → PageDirectory) (afterMap : Nat → UInt8) (afterList : Nat → Pcb)
    (afterUsed : Nat → UInt8) : Numbered (bootKernel otherDirectory afterMap afterList afterUsed) :=
  ⟨fun i hi => by simp [bootKernel] at hi, fun _ _ => rfl⟩

theorem create (h : Numbered k) (r : ProcessRequest) (readCode : Int) :
    Numbered (processCreateUserProcess k r readCode).2 := by
  rcases hcheck : creationCheck k r with _ | retcode
  · exact Slotwise.create h hcheck readCode fun i hi => processCreateUserProcess_pid hcheck readCode hi
  · rw [processCreateUserProcess_refused hcheck]
    exact h

theorem destroy (h : Numbered k) (garbage : Fin 8 → PageFlag) (pid : UInt32) :
    Numbered (processDestroy garbage k pid).2 := by
  rcases hm : matchPid k pid with _ | i
  · rw [processDestroy_none hm]
    exact h
  · exact Slotwise.destroy h hm rfl garbage

theorem step {call : ProcessCall} (h : Numbered k) (hs : CallStep k call k') : Numbered k' := by
  cases hs with
  | exec =>
    cases call with
    | create r readCode => exact h.create r readCode
    | destroy garbage pid => exact h.destroy garbage pid
  | noSlot hcheck hnone hlist hused =>
    constructor
    · intro i hi
      rw [hlist]
      exact h.used i (hused ▸ hi)
    · intro i hi
      rw [hlist]
      exact h.idle i (hused ▸ hi)

/-- Pid 0 finds slot 0 whether it is in use or not; any other pid finds the slot in use of that number. -/
theorem matchPid_iff (h : Numbered k) {pid : UInt32} {i : Fin 16} :
    matchPid k pid = some i ↔ pid = UInt32.ofNat i ∧ (k.processUsed i = true ∨ i = 0) := by
  have hzero : (k.processList 0).pid = 0 := by
    cases hu : k.processUsed 0 with
    | true => exact h.used 0 hu
    | false => exact h.idle 0 hu
  constructor
  · intro hm
    obtain ⟨hpid, hfirst⟩ := Fin.find?_eq_some_iff.mp hm
    have hpid' : (k.processList i).pid = pid := by simpa using hpid
    cases hu : k.processUsed i with
    | true => exact ⟨hpid'.symm.trans (h.used i hu), .inl rfl⟩
    | false =>
      have hp0 : pid = 0 := hpid'.symm.trans (h.idle i hu)
      have hi0 : i = 0 := by
        by_contra hne
        exact absurd (hfirst 0 (Fin.pos_iff_ne_zero.2 hne)) (by simp [hp0, hzero])
      exact ⟨by rw [hp0, hi0]; rfl, .inr hi0⟩
  · rintro ⟨rfl, hi⟩
    have hpid : (k.processList i).pid = UInt32.ofNat i := by
      rcases hi with hu | rfl
      · exact h.used i hu
      · exact hzero
    refine Fin.find?_eq_some_iff.2 ⟨by simp [hpid], fun j hj => ?_⟩
    -- a slot before it has its own number, or 0
    have hi' := toNat_ofNat_fin (by decide) i
    have hj' := toNat_ofNat_fin (by decide) j
    have hne : (k.processList j).pid ≠ UInt32.ofNat i := by
      intro he
      have hn := congrArg UInt32.toNat he
      cases hu : k.processUsed j with
      | true =>
        rw [h.used j hu] at hn
        omega
      | false =>
        rw [h.idle j hu] at hn
        simp only [UInt32.reduceToNat] at hn
        omega
    simp [hne]

/-- A slot in use is the one its pid finds. -/
theorem finds (h : Numbered k) {i : Fin 16} (hi : k.processUsed i = true) : matchPid k (k.processList i).pid = some i :=
  h.matchPid_iff.2 ⟨h.used i hi, .inl hi⟩

theorem pidIsSlot (h : Numbered k) : PidIsSlot k := by
  refine ⟨h.used, h.idle, fun i j hi hj he => ?_, fun pid i hm => ?_⟩
  · have hboth := h.finds hi
    rw [he, h.finds hj] at hboth
    exact (Option.some.inj hboth).symm
  · rw [(h.matchPid_iff.1 hm).1]
    exact toNat_ofNat_fin (by decide) i

end Numbered

end MoggersOs
