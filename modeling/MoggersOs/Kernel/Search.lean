import MoggersOs.Lib.Cyclic
import MoggersOs.Lib.Traced
import MoggersOs.Kernel.Scheduler
/-
# The subscripts of the search (`scheduler/scheduler.c:58-91`)

The switch once more, with the subscripts it uses on `_process_used` and `_process_list`, which have
`PROCESS_COUNT_MAX` (16) elements each. Forgetting the subscripts gives back the switch of `Scheduler.lean`
(`schedulerSwitchToNextProcess_out`).

| here | there |
| --- | --- |
| `loadUsed`    | `process_manager_state._process_used[n]` |
| `loadProcess` | a load from `_process_list[n]` |
| `storeState`  | `_process_list[n].metadata.state = ..` |
| `readySlots`  | the slots that the condition of the loop (`scheduler.c:69`) accepts |

From a slot below the last the scan is a scan of the ring (`searchNext_first`). The start index is not
wrapped (`scheduler.c:66`), so after slot 15 the first subscript is 16, whatever the tables hold: the search
is right from every slot but the last (`searchExact_iff`).
-/

namespace MoggersOs

open Lib (Traced IsFirst IsNext)

namespace Search

def loadUsed (k : Kernel) (n : Nat) : Traced Nat Bool := .note n (k.used n)

def loadProcess (k : Kernel) (n : Nat) : Traced Nat Pcb := .note n (k.process n)

def storeState (k : Kernel) (n : Nat) (state : ProcessState) : Traced Nat Kernel := .note n (k.setState n state)

/-- The condition of the loop; `&&` reads the state of a slot in use only. -/
def acceptsSlot (k : Kernel) (i : Nat) : Traced Nat Bool := do
  let used ← loadUsed k i
  if used then do
    let b ← loadProcess k i
    pure (b.state == .ready)
  else pure false

def searchNext (k : Kernel) (current : Nat) : Nat → Nat → Traced Nat (Option Nat)
  | 0, _ => pure none
  | fuel + 1, i =>
    if i = current then pure (some i)
    else do
      let accepts ← acceptsSlot k i
      if accepts then pure (some i)
      else searchNext k current fuel (if 16 ≤ i + 1 then 0 else i + 1)

def schedulerSwitchToNextProcess (fuel : Nat) (k : Kernel) : Traced Nat (Option Kernel) := do
  let k ← storeState k k.currentProcessIdx .ready
  let current := k.nextProcessIdx
  let found ← searchNext k current fuel ((current + 1) % 2 ^ 32)
  match found with
  | none => pure none
  | some i => do
    let k := { k with currentProcessIdx := current, nextProcessIdx := i }
    let k ← storeState k current .running
    let b ← loadProcess k current
    let k := { k with cr3 := pagingUsePageDirectory b.context.pageDirectoryVirtualAddr }
    -- The argument of the jump.
    let _ ← loadProcess k current
    pure (some k)

/-! ## The same switch -/

@[simp] theorem loadUsed_out (k : Kernel) (n : Nat) : (loadUsed k n).out = k.used n := rfl

@[simp] theorem loadProcess_out (k : Kernel) (n : Nat) : (loadProcess k n).out = k.process n := rfl

@[simp] theorem storeState_out (k : Kernel) (n : Nat) (state : ProcessState) :
    (storeState k n state).out = k.setState n state := rfl

@[simp] theorem acceptsSlot_out (k : Kernel) (i : Nat) :
    (acceptsSlot k i).out = (k.used i && (k.process i).state == .ready) := by
  unfold acceptsSlot
  rw [Traced.out_bind, loadUsed_out]
  cases k.used i <;> rfl

@[simp] theorem searchNext_out (k : Kernel) (current : Nat) : ∀ fuel i : Nat,
    (searchNext k current fuel i).out = MoggersOs.searchNext k current fuel i := by
  intro fuel
  induction fuel with
  | zero => exact fun _ => rfl
  | succ fuel ih =>
    intro i
    unfold searchNext MoggersOs.searchNext
    rw [Traced.out_ite, Traced.out_bind, Traced.out_ite, acceptsSlot_out, ih]
    rfl

theorem schedulerSwitchToNextProcess_out (fuel : Nat) (k : Kernel) :
    (schedulerSwitchToNextProcess fuel k).out = MoggersOs.schedulerSwitchToNextProcess fuel k := by
  unfold schedulerSwitchToNextProcess MoggersOs.schedulerSwitchToNextProcess
  simp only [Traced.out_bind, storeState_out, searchNext_out]
  generalize MoggersOs.searchNext _ _ _ _ = found
  cases found with
  | none => rfl
  | some i => rfl

end Search

/-! ## The scan of the ring -/

def readySlots (k : Kernel) : Finset (Fin 16) :=
  Finset.univ.filter fun i => k.processUsed i = true ∧ (k.processList i).state = .ready

@[simp] theorem mem_readySlots {k : Kernel} {i : Fin 16} :
    i ∈ readySlots k ↔ k.processUsed i = true ∧ (k.processList i).state = .ready := by simp [readySlots]

section First

variable {k : Kernel} {c : Fin 16}

/-- The loop does not stop at `i`. -/
theorem readySlots_skip {i : Nat} (hc : i ≠ c.val) (hr : ¬ (k.used i && (k.process i).state == .ready) = true) :
    ∀ x ∈ insert c (readySlots k), x.val ≠ i := by
  intro x hx he
  obtain rfl | hx := Finset.mem_insert.mp hx
  · exact hc he.symm
  · rw [mem_readySlots] at hx
    rw [← he, k.used_fin, k.process_fin, hx.1, hx.2] at hr
    exact hr rfl

theorem searchNext_first : ∀ {fuel i j : Nat}, i < 16 → searchNext k c fuel i = some j →
    ∃ j' : Fin 16, j = j' ∧ IsFirst (insert c (readySlots k)) i j' := by
  intro fuel
  induction fuel with
  | zero => exact fun _ h => absurd h (by simp [searchNext])
  | succ fuel ih =>
    intro i j hi h
    unfold searchNext at h
    split at h
    next he =>
      cases h
      subst he
      exact ⟨c, rfl, IsFirst.here (Finset.mem_insert_self ..)⟩
    next hne =>
      split at h
      next hr =>
        cases h
        rw [Bool.and_eq_true, beq_iff_eq, k.used_fin ⟨i, hi⟩, k.process_fin ⟨i, hi⟩] at hr
        exact ⟨⟨i, hi⟩, rfl, IsFirst.here (Finset.mem_insert_of_mem (mem_readySlots.mpr hr))⟩
      next hr =>
        have hskip := readySlots_skip hne hr
        split at h
        next hlast =>
          obtain ⟨j', hj, hfirst⟩ := ih (by omega) h
          have hwrap : IsFirst (insert c (readySlots k)) (i + 1) j' := by
            rw [show i + 1 = 16 by omega]
            exact IsFirst.wrap.mpr hfirst
          exact ⟨j', hj, hwrap.skip hi hskip⟩
        next hlast =>
          obtain ⟨j', hj, hfirst⟩ := ih (by omega) h
          exact ⟨j', hj, hfirst.skip hi hskip⟩

/-- Inside the table no subscript leaves it. -/
theorem searchNext_inTable : ∀ {fuel i : Nat}, i < 16 → (Search.searchNext k c fuel i).All (· < 16) := by
  intro fuel
  induction fuel with
  | zero => exact fun _ => Traced.all_pure _
  | succ fuel ih =>
    intro i hi
    have haccepts : (Search.acceptsSlot k i).All (· < 16) := by
      unfold Search.acceptsSlot
      rw [Traced.all_bind]
      refine ⟨Traced.all_note.mpr hi, ?_⟩
      split
      · rw [Traced.all_bind]
        exact ⟨Traced.all_note.mpr hi, Traced.all_pure _⟩
      · exact Traced.all_pure _
    unfold Search.searchNext
    split
    · exact Traced.all_pure _
    · rw [Traced.all_bind]
      refine ⟨haccepts, ?_⟩
      split
      · exact Traced.all_pure _
      · split
        · exact ih (by omega)
        · exact ih (by omega)

end First

/-! ## The switch -/

/-- The search ends, stays inside the tables, and leaves in `next_process_idx` the first slot after the new
current one, around the table, that is in use and READY, or the current slot itself. -/
structure SearchExact (k : Kernel) : Prop where
  returns : ∃ fuel, (schedulerSwitchToNextProcess fuel k).isSome = true
  inTable : ∀ fuel, (Search.schedulerSwitchToNextProcess fuel k).All (· < 16)
  next    : ∀ {fuel k'}, schedulerSwitchToNextProcess fuel k = some k' →
    ∃ c j : Fin 16, k.nextProcessIdx = c ∧ k'.currentProcessIdx = c ∧ k'.nextProcessIdx = j ∧
      IsNext (insert c (readySlots k')) c j

section Switch

variable {k k' : Kernel} {c n : Fin 16}

/-- The switch makes the new current slot RUNNING, which the search does not ask about. -/
theorem readySlots_switch {fuel : Nat} (hc : k.currentProcessIdx = c) (hn : k.nextProcessIdx = n)
    (h : schedulerSwitchToNextProcess fuel k = some k') :
    insert n (readySlots k') = insert n (readySlots (k.setState c .ready)) := by
  obtain ⟨-, -, -, -, hu, hst⟩ := schedulerSwitch_does hc hn h
  refine Finset.ext fun i => ?_
  simp only [Finset.mem_insert, mem_readySlots, hu, hst, Kernel.setState_processUsed, Kernel.setState_state]
  by_cases hi : i = n
  · simp [hi]
  · simp [hi]

theorem schedulerSwitch_next {fuel : Nat} (hc : k.currentProcessIdx = c) (hn : k.nextProcessIdx = n) (h15 : n.val ≠ 15)
    (h : schedulerSwitchToNextProcess fuel k = some k') :
    k'.currentProcessIdx = n ∧ ∃ j : Fin 16, k'.nextProcessIdx = j ∧ IsNext (insert n (readySlots k')) n j := by
  obtain ⟨j, hj, hcur, hnext, -⟩ := schedulerSwitch_does hc hn h
  obtain ⟨j', rfl, hfirst⟩ := searchNext_first (by omega) hj
  rw [readySlots_switch hc hn h]
  exact ⟨hcur, j', hnext, hfirst⟩

theorem schedulerSwitch_inTable (hc : k.currentProcessIdx = c) (hn : k.nextProcessIdx = n) (h15 : n.val ≠ 15)
    (fuel : Nat) : (Search.schedulerSwitchToNextProcess fuel k).All (· < 16) := by
  have hlt := n.isLt
  unfold Search.schedulerSwitchToNextProcess
  rw [hc]
  simp only [Traced.all_bind, Search.storeState_out, Kernel.setState_next, hn]
  rw [Nat.mod_eq_of_lt (by omega)]
  refine ⟨Traced.all_note.mpr c.isLt, searchNext_inTable (by omega), ?_⟩
  split
  · exact Traced.all_pure _
  · simp only [Traced.all_bind]
    exact ⟨Traced.all_note.mpr hlt, Traced.all_note.mpr hlt, Traced.all_note.mpr hlt, Traced.all_pure _⟩

/-- From the last slot the first subscript of the search is one past it. -/
theorem not_inTable_of_last (hc : k.currentProcessIdx = c) (hn : k.nextProcessIdx = 15) (fuel : Nat) :
    ¬ (Search.schedulerSwitchToNextProcess (fuel + 1) k).All (· < 16) := by
  unfold Search.schedulerSwitchToNextProcess
  rw [hc]
  simp only [Traced.all_bind, Search.storeState_out, Kernel.setState_next, hn]
  rintro ⟨-, hsearch, -⟩
  unfold Search.searchNext Search.acceptsSlot at hsearch
  rw [if_neg (by decide)] at hsearch
  simp only [Traced.all_bind] at hsearch
  have h16 := Traced.all_note.mp hsearch.1.1
  exact absurd h16 (by decide)

/-- **The search is right from every slot but the last.** -/
theorem searchExact_iff (hcur : k.currentProcessIdx < 16) (hnext : k.nextProcessIdx < 16) :
    SearchExact k ↔ k.nextProcessIdx ≠ 15 := by
  have hc : k.currentProcessIdx = (⟨k.currentProcessIdx, hcur⟩ : Fin 16) := rfl
  have hn : k.nextProcessIdx = (⟨k.nextProcessIdx, hnext⟩ : Fin 16) := rfl
  constructor
  · intro h h15
    exact not_inTable_of_last hc h15 0 (h.inTable (0 + 1))
  · intro h15
    refine ⟨⟨17, schedulerSwitch_isSome hn hc⟩, schedulerSwitch_inTable hc hn h15, fun h => ?_⟩
    obtain ⟨hcur', j, hj, hisNext⟩ := schedulerSwitch_next hc hn h15 h
    exact ⟨_, j, hn, hcur', hj, hisNext⟩

end Switch

section
attribute [local instance] slots_neZero

/-- All sixteen slots are in use, slot 14 runs and slot 15 is next. -/
def fullTable : Kernel := { quietKernel with
  processUsed := fun _ => true
  processList := fun i => { zeroPcb with state := if i = 14 then .running else .ready }
  activeProcessCount := 16
  currentProcessIdx := 14
  nextProcessIdx := 15 }

/-- Slots 2, 5 and 14 are in use, slot 5 runs and slot 14 is next. -/
def sparseTable : Kernel := { quietKernel with
  processUsed := fun i => i == 2 || i == 5 || i == 14
  processList := fun i => { zeroPcb with state := if i = 5 then .running else .ready }
  activeProcessCount := 3
  currentProcessIdx := 5
  nextProcessIdx := 14 }

end

/-- From slot 14 the search goes around the end of the table to slot 2. -/
theorem searchExact_sparseTable : SearchExact sparseTable ∧
    (schedulerSwitchToNextProcess 17 sparseTable).map Kernel.nextProcessIdx = some 2 :=
  ⟨(searchExact_iff (k := sparseTable) (by decide) (by decide)).mpr (by decide), by decide +kernel⟩

/-- The switch to slot 15 leaves the subscript of a slot that does not exist in `next_process_idx`. -/
theorem not_searchExact_fullTable :
    fullTable.currentProcessIdx < 16 ∧ fullTable.nextProcessIdx < 16 ∧ ¬ SearchExact fullTable ∧
      (schedulerSwitchToNextProcess 17 fullTable).map Kernel.nextProcessIdx = some 16 := by
  have hcur : fullTable.currentProcessIdx = (14 : Fin 16) := rfl
  refine ⟨by decide, by decide, fun h => ?_, by decide +kernel⟩
  exact not_inTable_of_last hcur rfl 0 (h.inTable (0 + 1))

end MoggersOs
