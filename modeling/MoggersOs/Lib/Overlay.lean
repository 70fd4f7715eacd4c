import MoggersOs.Lib.Stores

/-!
# A list laid over a function

`overlay i l f` has the elements of `l` from `i` on, one after the other, and elsewhere the values of `f`. A store
behind the list makes it longer (`update_overlay_snoc`), a store within it replaces an element
(`update_overlay_set`), and lists laid side by side are one list (`overlay_append`): so what many stores have made of
a piece of memory is said by one list.
-/

namespace Lib

variable {α : Type*}

def overlay (i : ℕ) (l : List α) (f : ℕ → α) : ℕ → α := fun k =>
  if k < i then f k else (l[k - i]?).getD (f k)

variable {i k : ℕ} {l l' : List α} {f : ℕ → α} {x : α}

theorem overlay_of_lt (h : k < i) : overlay i l f k = f k := if_pos h

theorem overlay_get (h : k < l.length) : overlay i l f (i + k) = l[k] := by
  unfold overlay
  rw [if_neg (by omega), Nat.add_sub_cancel_left, List.getElem?_eq_getElem h, Option.getD_some]

@[simp] theorem overlay_nil : overlay i [] f = f := by
  funext k
  unfold overlay
  split <;> simp

theorem overlay_append : overlay i (l ++ l') f = overlay (i + l.length) l' (overlay i l f) := by
  funext k
  by_cases hlow : k < i + l.length
  · rw [overlay_of_lt hlow]
    unfold overlay
    split
    · rfl
    · rw [List.getElem?_append_left (by omega)]
  · unfold overlay
    rw [if_neg (by omega), if_neg hlow, if_neg (by omega), List.getElem?_append_right (by omega),
      List.getElem?_eq_none (l := l) (by omega), Nat.sub_sub, Option.getD_none]

theorem update_overlay_snoc : Function.update (overlay i l f) (i + l.length) x = overlay i (l ++ [x]) f := by
  rw [overlay_append]
  funext k
  by_cases hk : k = i + l.length
  · subst hk
    rw [Function.update_self]
    exact (overlay_get (k := 0) (l := [x]) Nat.zero_lt_one).symm
  · rw [Function.update_of_ne hk]
    unfold overlay
    by_cases hlt : k < i + l.length
    · rw [if_pos hlt]
    · rw [if_neg hlt, List.getElem?_eq_none (l := [x]) (by rw [List.length_singleton]; omega), Option.getD_none]

theorem update_overlay_set (h : k < l.length) : Function.update (overlay i l f) (i + k) x = overlay i (l.set k x) f := by
  funext a
  by_cases ha : a = i + k
  · subst ha
    rw [Function.update_self, overlay_get (by rwa [List.length_set]), List.getElem_set_self]
  · rw [Function.update_of_ne ha]
    unfold overlay
    by_cases hlt : a < i
    · rw [if_pos hlt, if_pos hlt]
    · rw [if_neg hlt, if_neg hlt, List.getElem?_set_ne (by omega)]

/-- Stores to cells in a row. -/
theorem assign_range (v : ℕ → α) (n : ℕ) : assign (i + ·) v (List.range n) f = overlay i ((List.range n).map v) f := by
  induction n with
  | zero => exact overlay_nil.symm
  | succ n ih =>
    have hlen : ((List.range n).map v).length = n := by rw [List.length_map, List.length_range]
    rw [List.range_succ, assign_snoc, ih, List.map_append, List.map_singleton, ← update_overlay_snoc, hlen]

end Lib
