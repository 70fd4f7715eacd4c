import Mathlib.Data.Fintype.Pigeonhole
import Mathlib.Data.Set.Finite.Range
import MoggersOs.Lib.Chain

/-!
# Walks that need not end

A walk follows `next` from a cell until it meets `stop`. `Reaches next stop c k` says that it has not met `stop` before
round `k`, and `Loops next stop c` that it comes back to a cell before it does. When `next` takes finitely many
values these are the two things that can happen: the walk has a chain or it loops (`chain_iff_not_loops`).
-/

namespace Lib

variable {α : Type*} {next : α → α} {stop c : α}

/-- There is a round `k`: the rounds before it have not met `stop`. -/
def Reaches (next : α → α) (stop c : α) (k : Nat) : Prop := ∀ j < k, next^[j + 1] c ≠ stop

theorem reaches_zero : Reaches next stop c 0 := by
  intro j hj
  omega

theorem Reaches.mono {j k : Nat} (h : Reaches next stop c k) (hjk : j ≤ k) : Reaches next stop c j :=
  fun i hi => h i (by omega)

theorem reaches_succ {k : Nat} : Reaches next stop c (k + 1) ↔ next c ≠ stop ∧ Reaches next stop (next c) k := by
  constructor
  · intro h
    refine ⟨h 0 (by omega), fun j hj => ?_⟩
    have hj' := h (j + 1) (by omega)
    rwa [Function.iterate_succ_apply] at hj'
  · rintro ⟨h0, h⟩ j hj
    cases j with
    | zero => exact h0
    | succ j =>
      rw [Function.iterate_succ_apply]
      exact h j (by omega)

/-- A chain is a walk that meets `stop`. -/
theorem exists_chain_iff : (∃ l, Chain next stop c l) ↔ ∃ k, next^[k + 1] c = stop := by
  constructor
  · rintro ⟨l, h⟩
    induction h with
    | last hs => exact ⟨0, hs⟩
    | cons _ _ ih =>
      obtain ⟨k, hk⟩ := ih
      exact ⟨k + 1, by rwa [Function.iterate_succ_apply]⟩
  · rintro ⟨k, hk⟩
    induction k generalizing c with
    | zero => exact ⟨_, .last hk⟩
    | succ k ih =>
      by_cases hs : next c = stop
      · exact ⟨_, .last hs⟩
      · rw [Function.iterate_succ_apply] at hk
        obtain ⟨l, hl⟩ := ih hk
        exact ⟨_, .cons hs hl⟩

/-- Along a chain there is one round for each cell. -/
theorem Chain.reaches_iff {l : List α} (h : Chain next stop c l) : ∀ {k : Nat}, Reaches next stop c k ↔ k < l.length := by
  induction h with
  | @last c hs =>
    intro k
    refine ⟨fun hk => ?_, fun hk => ?_⟩
    · by_contra hlt
      exact hk 0 (by simp at hlt; omega) hs
    · obtain rfl : k = 0 := by simpa using hk
      exact reaches_zero
  | cons hne _ ih =>
    intro k
    cases k with
    | zero => exact iff_of_true reaches_zero (by simp)
    | succ k => rw [reaches_succ, ih, List.length_cons, Nat.succ_lt_succ_iff, and_iff_right hne]

/-- The walk is at one cell in two rounds. -/
def Loops (next : α → α) (stop c : α) : Prop := ∃ i j, i < j ∧ next^[i] c = next^[j] c ∧ Reaches next stop c j

/-- A walk that loops never meets `stop`: the first time it did, it would have done so one loop earlier. -/
theorem Loops.not_chain (h : Loops next stop c) : ¬ ∃ l, Chain next stop c l := by
  rw [exists_chain_iff]
  intro hex
  classical
  obtain ⟨i, j, hij, he, hreach⟩ := h
  have hstop := Nat.find_spec hex
  have hmin := fun m => Nat.find_min hex (m := m)
  generalize Nat.find hex = k at hstop hmin
  have hjk : j ≤ k := by
    by_contra hlt
    exact hreach k (by omega) hstop
  refine hmin (i + (k - j)) (by omega) ?_
  rw [show i + (k - j) + 1 = k - j + 1 + i by omega, Function.iterate_add_apply, he, ← Function.iterate_add_apply,
    show k - j + 1 + j = k + 1 by omega, hstop]

/-- **A walk over finitely many cells meets `stop` unless it loops.** -/
theorem chain_iff_not_loops (hfin : (Set.range next).Finite) :
    (∃ l, Chain next stop c l) ↔ ¬ Loops next stop c := by
  refine ⟨fun h hloop => hloop.not_chain h, fun h => ?_⟩
  by_contra hno
  rw [exists_chain_iff, not_exists] at hno
  have := hfin.to_subtype
  -- a walk without an end is in some cell twice
  obtain ⟨m, n, hmn, he⟩ := Finite.exists_ne_map_eq_of_infinite
    fun k : Nat => (⟨next^[k + 1] c, by rw [Function.iterate_succ_apply']; exact ⟨_, rfl⟩⟩ : Set.range next)
  have he' : next^[m + 1] c = next^[n + 1] c := congrArg Subtype.val he
  rcases Nat.lt_or_gt_of_ne hmn with hlt | hlt
  · exact h ⟨m + 1, n + 1, by omega, he', fun j _ => hno j⟩
  · exact h ⟨n + 1, m + 1, by omega, he'.symm, fun j _ => hno j⟩

end Lib
