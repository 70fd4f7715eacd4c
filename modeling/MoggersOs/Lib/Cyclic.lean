import Mathlib.Data.Finset.Card
import Mathlib.Tactic.Push

/-!
# Going around a ring

`above i x` counts the steps up from slot `i` to slot `x`, around the end if need be. `IsFirst S i j` says
that a scan upwards from `i` meets `j` before any other member of `S`; it is built up one slot at a time
(`here`, `skip`, `wrap`). `IsNext S c j` starts the scan one past `c`, so `c` itself comes last and is its own
successor when nothing else is in `S`. Going from member to next member visits each one exactly once in any
`S.card` consecutive steps (`IsNext.visits_once`).
-/

namespace Lib

variable {n : ℕ}

def above (i : ℕ) (x : Fin n) : ℕ := if i ≤ x.val then x - i else x + n - i

def IsFirst (S : Finset (Fin n)) (i : ℕ) (j : Fin n) : Prop := j ∈ S ∧ ∀ x ∈ S, above i j ≤ above i x

def IsNext (S : Finset (Fin n)) (c j : Fin n) : Prop := IsFirst S (c + 1) j

theorem above_self (c : Fin n) : above c c = 0 := by simp [above]

theorem above_injective {i : ℕ} (hi : i ≤ n) : Function.Injective (above (n := n) i) := by
  intro x y h
  have hx := x.isLt
  have hy := y.isLt
  unfold above at h
  split at h <;> split at h <;> exact Fin.ext (by omega)

theorem above_succ {i : ℕ} {x : Fin n} (hi : i < n) (hx : x.val ≠ i) : above i x = above (i + 1) x + 1 := by
  unfold above
  split
  next hle => rw [if_pos (by omega)]; omega
  next hlt => rw [if_neg (by omega)]; omega

theorem above_wrap (x : Fin n) : above n x = above 0 x := by
  have hx := x.isLt
  unfold above
  rw [if_neg (by omega), if_pos (Nat.zero_le _)]
  omega

/-! ## A scan -/

namespace IsFirst

variable {S : Finset (Fin n)} {i : ℕ} {j : Fin n}

theorem here {c : Fin n} (h : c ∈ S) : IsFirst S c c := by
  refine ⟨h, fun x _ => ?_⟩
  rw [above_self]
  exact Nat.zero_le _

theorem skip (hi : i < n) (hS : ∀ x ∈ S, x.val ≠ i) (h : IsFirst S (i + 1) j) : IsFirst S i j := by
  refine ⟨h.1, fun x hx => ?_⟩
  rw [above_succ hi (hS j h.1), above_succ hi (hS x hx)]
  exact Nat.succ_le_succ (h.2 x hx)

theorem wrap : IsFirst S n j ↔ IsFirst S 0 j := by simp only [IsFirst, above_wrap]

end IsFirst

/-! ## One round

Seen from `c₀`, the members already visited are those below the one visited now. -/

namespace IsNext

variable {S : Finset (Fin n)} {c c₀ j : Fin n}

/-- Above `c`, the next member is the lowest. -/
theorem above_next {x : Fin n} (h : IsNext S c j) (hx : x ∈ S) (hcx : above c₀ c < above c₀ x) :
    above c₀ c < above c₀ j ∧ above c₀ j ≤ above c₀ x := by
  have hle := h.2 x hx
  have h₀ := c₀.isLt
  have hc := c.isLt
  have hj := j.isLt
  have hx' := x.isLt
  unfold above at hcx hle ⊢
  split_ifs at * <;> omega

/-- The members below `x`. -/
def below (S : Finset (Fin n)) (c₀ x : Fin n) : Finset (Fin n) := S.filter fun y => above c₀ y < above c₀ x

theorem below_succ (hc : c ∈ S) (h : IsNext S c j)
    (hcard : (below S c₀ c).card + 1 < S.card) :
    (below S c₀ j).card = (below S c₀ c).card + 1 ∧ above c₀ c < above c₀ j := by
  have hnot : c ∉ below S c₀ c := by simp [below]
  -- One member is neither below `c` nor `c`.
  obtain ⟨x, hx, hxn⟩ : ∃ x ∈ S, x ∉ insert c (below S c₀ c) := by
    by_contra hall
    push Not at hall
    have hle := Finset.card_le_card (fun x hx => hall x hx : S ⊆ insert c (below S c₀ c))
    rw [Finset.card_insert_of_notMem hnot] at hle
    omega
  have hxc : above c₀ c < above c₀ x := by
    rw [Finset.mem_insert, not_or] at hxn
    have hne : above c₀ x ≠ above c₀ c := fun he => hxn.1 (above_injective c₀.isLt.le he)
    have hnlt : ¬ above c₀ x < above c₀ c := fun hlt => hxn.2 (Finset.mem_filter.mpr ⟨hx, hlt⟩)
    omega
  have hcj : above c₀ c < above c₀ j := (above_next h hx hxc).1
  refine ⟨?_, hcj⟩
  have heq : below S c₀ j = insert c (below S c₀ c) := by
    ext y
    simp only [below, Finset.mem_filter, Finset.mem_insert]
    constructor
    · rintro ⟨hy, hyj⟩
      by_cases hyc : above c₀ c < above c₀ y
      · exact absurd (above_next h hy hyc).2 (not_le.mpr hyj)
      · obtain hlt | he := lt_or_eq_of_le (not_lt.mp hyc)
        · exact .inr ⟨hy, hlt⟩
        · exact .inl (above_injective c₀.isLt.le he)
    · rintro (rfl | ⟨hy, hyc⟩)
      · exact ⟨hc, hcj⟩
      · exact ⟨hy, hyc.trans hcj⟩
  rw [heq, Finset.card_insert_of_notMem hnot]

theorem below_card {cur : ℕ → Fin n} (h₀ : cur 0 ∈ S)
    (hnext : ∀ j, j + 1 < S.card → IsNext S (cur j) (cur (j + 1))) :
    ∀ j, j < S.card → cur j ∈ S ∧ (below S (cur 0) (cur j)).card = j := by
  intro j
  induction j with
  | zero =>
    intro _
    refine ⟨h₀, ?_⟩
    simp [below, above_self]
  | succ j ih =>
    intro hj
    obtain ⟨hmem, hcard⟩ := ih (by omega)
    have h := hnext j hj
    exact ⟨h.1, by rw [(below_succ hmem h (by omega)).1, hcard]⟩

/-- **Each member once a round.** -/
theorem visits_once (cur : ℕ → Fin n) (h₀ : cur 0 ∈ S)
    (hnext : ∀ j, j + 1 < S.card → IsNext S (cur j) (cur (j + 1))) {i : Fin n} (hi : i ∈ S) :
    ∃! j, j < S.card ∧ cur j = i := by
  have hcard := below_card h₀ hnext
  have hinj : Set.InjOn cur (Finset.range S.card) := by
    intro a ha b hb he
    have ha' := (hcard a (Finset.mem_range.mp ha)).2
    have hb' := (hcard b (Finset.mem_range.mp hb)).2
    rw [← ha', ← hb', he]
  have himage : (Finset.range S.card).image cur = S := by
    refine Finset.eq_of_subset_of_card_le ?_ ?_
    · intro x hx
      obtain ⟨a, ha, rfl⟩ := Finset.mem_image.mp hx
      exact (hcard a (Finset.mem_range.mp ha)).1
    · rw [Finset.card_image_of_injOn hinj, Finset.card_range]
  rw [← himage] at hi
  obtain ⟨j, hj, rfl⟩ := Finset.mem_image.mp hi
  refine ⟨j, ⟨Finset.mem_range.mp hj, rfl⟩, ?_⟩
  rintro j' ⟨hj', he⟩
  exact hinj (Finset.mem_coe.mpr (Finset.mem_range.mpr hj')) hj he

end IsNext

end Lib
