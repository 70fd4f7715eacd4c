import Mathlib.Data.List.Range
import Mathlib.Data.Nat.Find

/-!
# First fit

The free cells below `n`, in increasing order, and the two scans of a first-fit allocator: the first
scan stops at the first free cell, the second goes on from there. `free_eq_cons` cuts the list of
free cells at the point where the first scan stops.
-/

namespace Lib

variable {p : Nat → Bool} {n i : Nat}

/-- The cells below `n` that satisfy `p`, in increasing order. -/
def free (p : Nat → Bool) (n : Nat) : List Nat := (List.range n).filter p

@[simp] theorem mem_free : i ∈ free p n ↔ i < n ∧ p i = true := by simp [free]

theorem nodup_free (p : Nat → Bool) (n : Nat) : (free p n).Nodup := List.nodup_range.filter _

/-- The cells of the second scan: from `i + 1` up to `n`. -/
theorem free_eq_cons (hi : i < n) (hp : p i = true) (hmin : ∀ j < i, p j = false) :
    free p n = i :: (List.range' (i + 1) (n - (i + 1))).filter p := by
  have hcut : List.range n = List.range i ++ i :: List.range' (i + 1) (n - (i + 1)) := by
    have h := List.range'_append_1 (s := 0) (m := i) (n := n - (i + 1) + 1)
    rw [Nat.zero_add, List.range'_succ, show i + (n - (i + 1) + 1) = n by omega] at h
    rw [List.range_eq_range', List.range_eq_range', h]
  have hlow : (List.range i).filter p = [] := by
    simp only [List.filter_eq_nil_iff, List.mem_range]
    intro j hj
    simp [hmin j hj]
  rw [free, hcut, List.filter_append, hlow, List.nil_append, List.filter_cons_of_pos hp]

theorem free_pairwise (p : Nat → Bool) (n : Nat) : (free p n).Pairwise (· < ·) := List.pairwise_lt_range.filter _

/-- The cells that are taken first are the smallest ones. -/
theorem lt_of_mem_take {l : List Nat} (h : l.Pairwise (· < ·)) {k x y : Nat} (hx : x ∈ l) (hxk : x ∉ l.take k)
    (hy : y ∈ l.take k) : y < x := by
  have hcut := h
  rw [← List.take_append_drop k l] at hcut hx
  have hxd := (List.mem_append.1 hx).resolve_left hxk
  exact (List.pairwise_append.1 hcut).2.2 y hy x hxd

theorem exists_first (hne : free p n ≠ []) : ∃ i < n, p i = true ∧ ∀ j < i, p j = false := by
  obtain ⟨k, hk⟩ := List.exists_mem_of_ne_nil _ hne
  have hex : ∃ i, i < n ∧ p i = true := ⟨k, mem_free.1 hk⟩
  refine ⟨Nat.find hex, (Nat.find_spec hex).1, (Nat.find_spec hex).2, fun j hj => ?_⟩
  have hlt := (Nat.find_spec hex).1
  have hmin := Nat.find_min hex hj
  simpa [show j < n by omega] using hmin

end Lib
