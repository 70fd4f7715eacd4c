import Mathlib.Data.Finset.Card
import MoggersOs.Kernel.Pids
/-
# Process accounting

`active_process_count`, `_process_used` and the pids are three tables that every call updates separately.
`Booked` ties them together: the count is the number of used slots, a used slot `i` has pid `i`, and an
unused slot has pid 0, because `process_destroy` zeroes it. So `process_destroy(0)` matches slot 0 whether
it is used or not (`process.c:109` does not look at `_process_used`), and if it is not, the count is
decremented for a process that does not exist.

| here | there |
| --- | --- |
| `usedSlots` | the slots with `_process_used` set (`process.h:99-102`) |
| `Answers`   | what the return value of `process_destroy` should say (`process.c:107-130`) |
| `Accounted` | the count and the answers, over a run of `process_create_user_process` and `process_destroy` |
| `Killable`  | the slot that pid 0 names is in use |
-/

namespace MoggersOs

def usedSlots (k : Kernel) : Finset (Fin 16) := Finset.univ.filter fun i => k.processUsed i = true

@[simp] theorem mem_usedSlots {k : Kernel} {i : Fin 16} : i ∈ usedSlots k ↔ k.processUsed i = true := by
  simp [usedSlots]

/-- `active_process_count` is the number of used slots. -/
def Counted (k : Kernel) : Prop := k.activeProcessCount.toNat = (usedSlots k).card

/-- Some used slot holds the pid. -/
def HoldsPid (k : Kernel) (pid : UInt32) : Prop := ∃ i, k.processUsed i = true ∧ (k.processList i).pid = pid

instance (k : Kernel) (pid : UInt32) : Decidable (HoldsPid k pid) := inferInstanceAs (Decidable (∃ _, _ ∧ _))

/-- `process_destroy` returns true exactly for the pid of a used slot, and changes nothing if it returns
false. -/
def Answers (k : Kernel) : ProcessCall → Prop
  | .create _ _ => True
  | .destroy garbage pid =>
    ((processDestroy garbage k pid).1 = true ↔ HoldsPid k pid) ∧
      ((processDestroy garbage k pid).1 = false → (processDestroy garbage k pid).2 = k)

/-- The count is right in every state of the run, and every call of it answers truly. -/
def Accounted : Kernel → List ProcessCall → Prop
  | k, [] => Counted k
  | k, call :: calls => Counted k ∧ Answers k call ∧ Accounted (call.exec k) calls

/-- A kill of pid 0 finds slot 0 in use. -/
def Killable (k : Kernel) : ProcessCall → Prop
  | .create _ _ => True
  | .destroy _ pid => pid = 0 → k.processUsed 0 = true

def AllKillable : Kernel → List ProcessCall → Prop
  | _, [] => True
  | k, call :: calls => Killable k call ∧ AllKillable (call.exec k) calls

structure Booked (k : Kernel) : Prop where
  count : Counted k
  pid   : ∀ i, k.processUsed i = true → (k.processList i).pid = UInt32.ofNat i
  idle  : ∀ i, k.processUsed i = false → (k.processList i).pid = 0

theorem bootKernel_booked (otherDirectory : UInt32 → PageDirectory) (afterMap : Nat → UInt8)
    (afterList : Nat → Pcb) (afterUsed : Nat → UInt8) :
    Booked (bootKernel otherDirectory afterMap afterList afterUsed) := by
  constructor
  · simp [Counted, usedSlots, bootKernel]
  · intro i hi
    simp [bootKernel] at hi
  · intro i _
    simp [bootKernel, zeroPcb]

/-! ## Creating -/

/-- The slots in use after slot `i` is claimed. -/
theorem usedSlots_insert {k k' : Kernel} {i : Fin 16}
    (h : ∀ j, k'.processUsed j = (k.processUsed j || some i == some j)) :
    usedSlots k' = insert i (usedSlots k) := by
  ext j
  simp only [mem_usedSlots, Finset.mem_insert, h j]
  by_cases hj : i = j
  · simp [hj]
  · simp [hj, Ne.symm hj]

namespace Booked

variable {k : Kernel}

theorem numbered (h : Booked k) : Numbered k := ⟨h.pid, h.idle⟩

/-- While the count is below 16 there is a slot to claim. -/
theorem exists_slot (h : Booked k) (hlt : k.activeProcessCount.toNat < 16) :
    ∃ i, processListGetInactiveIndex k = some i ∧ k.processUsed i = false := by
  rcases hf : processListGetInactiveIndex k with _ | i
  · have hall : ∀ i, k.processUsed i = true := by
      intro i
      simpa using Fin.find?_eq_none_iff.mp hf i
    have hcount := h.count
    rw [Counted, show usedSlots k = Finset.univ by ext i; simp [hall i], Finset.card_fin] at hcount
    omega
  · exact ⟨i, rfl, processListGetInactiveIndex_unused hf⟩

theorem create (h : Booked k) (r : ProcessRequest) (readCode : Int) :
    Booked (processCreateUserProcess k r readCode).2 := by
  rcases hcheck : creationCheck k r with _ | retcode
  · have hlt : k.activeProcessCount.toNat < 16 := by
      simpa [UInt32.lt_iff_toNat_lt] using (creationCheck_passes.1 hcheck).1
    obtain ⟨i, hi, hidle⟩ := h.exists_slot hlt
    have hdoes := processCreateUserProcess_does hcheck readCode
    have hused := hdoes.used
    rw [hi] at hused
    have hnumbered := h.numbered.create r readCode
    refine ⟨?_, hnumbered.used, hnumbered.idle⟩
    have hcount := h.count
    unfold Counted at hcount ⊢
    rw [usedSlots_insert hused, Finset.card_insert_of_notMem (by simp [hidle]), hdoes.count,
      UInt32.toNat_add]
    simp only [UInt32.reduceToNat]
    omega
  · rw [processCreateUserProcess_refused hcheck]
    exact h

/-! ## Killing -/

theorem destroy_some {pid : UInt32} {i : Fin 16} (h : Booked k) (hm : matchPid k pid = some i)
    (hused : k.processUsed i = true) (garbage : Fin 8 → PageFlag) : Booked (processDestroy garbage k pid).2 := by
  have hnumbered := h.numbered.destroy garbage pid
  refine ⟨?_, hnumbered.used, hnumbered.idle⟩
  rw [processDestroy_some hm]
  have hcount := h.count
  have hpos : 0 < (usedSlots k).card := Finset.card_pos.mpr ⟨i, by simp [hused]⟩
  have herase : usedSlots { k with processUsed := Function.update k.processUsed i false } =
      (usedSlots k).erase i := by
    ext j
    by_cases hj : j = i
    · simp [hj]
    · simp [hj]
  have hone : (1 : UInt32) ≤ k.activeProcessCount := by
    rw [UInt32.le_iff_toNat_le, hcount]
    simpa using hpos
  unfold Counted at hcount ⊢
  calc (k.activeProcessCount - 1).toNat = k.activeProcessCount.toNat - 1 := by
          simpa using UInt32.toNat_sub_of_le _ _ hone
    _ = ((usedSlots k).erase i).card := by rw [hcount, Finset.card_erase_of_mem (by simp [hused])]
    _ = _ := by rw [← herase]; rfl

/-- Only pid 0 can match a slot that is not in use. -/
theorem used_of_match {pid : UInt32} {i : Fin 16} (h : Booked k) (hm : matchPid k pid = some i)
    (hzero : pid = 0 → k.processUsed 0 = true) : k.processUsed i = true := by
  obtain ⟨hpid, hused | rfl⟩ := h.numbered.matchPid_iff.1 hm
  · exact hused
  · exact hzero hpid

theorem answers_iff (h : Booked k) (call : ProcessCall) : Answers k call ↔ Killable k call := by
  rcases call with ⟨r, readCode⟩ | ⟨garbage, pid⟩
  · simp [Answers, Killable]
  constructor
  · rintro ⟨hfound, -⟩ hp0
    by_contra hidle
    have hfirst : matchPid k pid = some 0 := h.numbered.matchPid_iff.2 ⟨hp0, .inr rfl⟩
    obtain ⟨i, hused, hpid⟩ := hfound.mp (by rw [processDestroy_some hfirst])
    have hi : matchPid k pid = some i := hpid ▸ h.numbered.finds hused
    rw [hfirst] at hi
    exact hidle (Option.some.inj hi ▸ hused)
  · intro hzero
    rcases hm : matchPid k pid with _ | i
    · have hnone : ¬ HoldsPid k pid := by
        rintro ⟨i, hused, rfl⟩
        rw [h.numbered.finds hused] at hm
        cases hm
      simp [Answers, processDestroy_none hm, hnone]
    · have hpid : (k.processList i).pid = pid := by simpa using (Fin.find?_eq_some_iff.mp hm).1
      have hholds : HoldsPid k pid := ⟨i, h.used_of_match hm hzero, hpid⟩
      simp [Answers, processDestroy_some hm, hholds]

theorem exec (h : Booked k) {call : ProcessCall} (hk : Killable k call) : Booked (call.exec k) := by
  rcases call with ⟨r, readCode⟩ | ⟨garbage, pid⟩
  · exact h.create r readCode
  · rcases hm : matchPid k pid with _ | i
    · simpa [processDestroy_none hm] using h
    · exact h.destroy_some hm (h.used_of_match hm hk) garbage

/-- The step carried over a run: as long as the calls meet the condition the books stay right, and the
first call that does not meet it answers falsely. -/
theorem accounted_iff (h : Booked k) (calls : List ProcessCall) : Accounted k calls ↔ AllKillable k calls := by
  induction calls generalizing k with
  | nil => simp [Accounted, AllKillable, h.count]
  | cons call calls ih =>
    simp only [Accounted, AllKillable, h.count, h.answers_iff call, true_and]
    exact and_congr_right fun hk => ih (h.exec hk)

end Booked

end MoggersOs
