import Mathlib.Data.List.Basic

/-!
# Words between separators

`words sep l` are the maximal runs of `l` that have no `sep` in them, in order; `l.splitOn sep` has the empty ones as
well (`splitOn_induction`). A scanner that goes through `l` from
left to right meets a word up to the next separator (`exists_word`) or some separators up to the next word
(`exists_gap`), and the equations say what that takes off `words`.
-/

namespace Lib

variable {α : Type*} [DecidableEq α] {sep : α}

def words (sep : α) (l : List α) : List (List α) := (l.splitOn sep).filter (· ≠ [])

@[simp] theorem words_nil : words sep [] = [] := by simp [words, List.splitOn_nil]

theorem words_append_cons (l r : List α) : words sep (l ++ sep :: r) = words sep l ++ words sep r := by
  simp [words, List.splitOn_append_cons_self]

@[simp] theorem words_cons_self (l : List α) : words sep (sep :: l) = words sep l := by
  simpa using @words_append_cons _ _ sep [] l

theorem words_word {w : List α} (hw : w ≠ []) (hsep : sep ∉ w) : words sep w = [w] := by
  simp [words, List.splitOn_eq_singleton hsep, hw]

/-- A word is taken off together with what ends it. -/
theorem words_word_append {w r : List α} (hw : w ≠ []) (hsep : sep ∉ w) (hr : r = [] ∨ ∃ r', r = sep :: r') :
    words sep (w ++ r) = w :: words sep r := by
  obtain rfl | ⟨r', rfl⟩ := hr
  · simp [words_word hw hsep]
  · simp [words_append_cons, words_word hw hsep]

theorem words_replicate_append (n : ℕ) (l : List α) : words sep (List.replicate n sep ++ l) = words sep l := by
  induction n with
  | zero => rfl
  | succ n ih => rw [List.replicate_succ, List.cons_append, words_cons_self, ih]

/-- Up to the first separator. -/
theorem exists_word (sep : α) (l : List α) :
    ∃ w r, l = w ++ r ∧ sep ∉ w ∧ (r = [] ∨ ∃ r', r = sep :: r') := by
  induction l with
  | nil => exact ⟨[], [], rfl, by simp, .inl rfl⟩
  | cons a l ih =>
    by_cases ha : a = sep
    · exact ⟨[], a :: l, rfl, by simp, .inr ⟨l, by rw [ha]⟩⟩
    · obtain ⟨w, r, rfl, hw, hr⟩ := ih
      exact ⟨a :: w, r, rfl, by simp [Ne.symm ha, hw], hr⟩

/-- Piece by piece, from the left. -/
theorem splitOn_induction {P : List α → Prop} (sep : α) (last : ∀ w, sep ∉ w → P w)
    (cons : ∀ w r, sep ∉ w → P r → P (w ++ sep :: r)) (l : List α) : P l := by
  induction hn : l.length using Nat.strongRecOn generalizing l with
  | ind n ih =>
    obtain ⟨w, r, rfl, hw, rfl | ⟨r, rfl⟩⟩ := exists_word sep l
    · rw [List.append_nil]
      exact last w hw
    · refine cons w r hw (ih r.length ?_ r rfl)
      rw [← hn, List.length_append, List.length_cons]
      omega

/-- To leave things out that are no separators is to leave them out of every piece. -/
theorem splitOn_filter {p : α → Bool} (hsep : p sep = true) (l : List α) :
    (l.filter p).splitOn sep = (l.splitOn sep).map (·.filter p) := by
  have hmem : ∀ {w : List α}, sep ∉ w → sep ∉ w.filter p := fun hw h => hw (List.mem_of_mem_filter h)
  induction l using splitOn_induction sep with
  | last w hw => rw [List.splitOn_eq_singleton (hmem hw), List.splitOn_eq_singleton hw, List.map_singleton]
  | cons w r hw ih =>
    rw [List.filter_append, List.filter_cons_of_pos hsep, List.splitOn_append_cons_self_of_not_mem (hmem hw),
      List.splitOn_append_cons_self_of_not_mem hw, List.map_cons, ih]

/-- The words are made of what is in the list. -/
theorem mem_of_mem_words {w : List α} {a : α} {l : List α} (hw : w ∈ words sep l) (ha : a ∈ w) : a ∈ l := by
  induction l with
  | nil => simp at hw
  | cons b l ih =>
    by_cases hb : b = sep
    · rw [hb, words_cons_self] at hw
      exact List.mem_cons_of_mem b (ih hw)
    · obtain ⟨v, r, rfl, hv, hr⟩ := exists_word sep l
      rw [← List.cons_append, words_word_append (List.cons_ne_nil b v) (by simp [Ne.symm hb, hv]) hr] at hw
      rcases List.mem_cons.1 hw with rfl | hw
      · exact List.mem_append_left r ha
      · refine List.mem_cons_of_mem b (ih ?_)
        by_cases hnil : v = []
        · rwa [hnil]
        · rw [words_word_append hnil hv hr]
          exact List.mem_cons_of_mem v hw

/-- Up to the first element that is no separator. -/
theorem exists_gap (sep : α) (l : List α) :
    ∃ n r, l = List.replicate n sep ++ r ∧ (r = [] ∨ ∃ a r', r = a :: r' ∧ a ≠ sep) := by
  induction l with
  | nil => exact ⟨0, [], rfl, .inl rfl⟩
  | cons a l ih =>
    by_cases ha : a = sep
    · obtain ⟨n, r, rfl, hr⟩ := ih
      exact ⟨n + 1, r, by rw [ha]; rfl, hr⟩
    · exact ⟨0, a :: l, rfl, .inr ⟨a, l, rfl, ha⟩⟩

end Lib
