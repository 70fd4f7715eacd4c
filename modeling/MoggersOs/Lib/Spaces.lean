import MoggersOs.Lib.Stores

/-!
# Address spaces in one memory

Address `v` of space `p` is the cell `tr p v` of a memory that all spaces share, or no cell at all. If no cell belongs
to two addresses (`Apart`), the memory is as good as a memory for each space (`Private`): what is stored through one
space is found there and nowhere else (`Private.stores`), and a space that is added brings what its cells hold
(`Private.enter`).
-/

namespace Lib

variable {P V A β : Type*}

def Apart (tr : P → V → Option A) : Prop :=
  ∀ ⦃p q : P⦄ ⦃v w : V⦄ ⦃a : A⦄, tr p v = some a → tr q w = some a → p = q ∧ v = w

/-- Behind its addresses space `p` finds the memory `m p`. -/
def Private (tr : P → V → Option A) (mem : A → β) (m : P → V → β) : Prop :=
  ∀ p v a, tr p v = some a → mem a = m p v

namespace Private

variable {tr tr' : P → V → Option A} {mem : A → β} {m : P → V → β} {p : P} {v : V} {a : A}

/-- What a space brings is what its cells hold. -/
theorem enter [DecidableEq P] (h : Private tr mem m) (hold : ∀ q, q ≠ p → ∀ v a, tr' q v = some a → tr q v = some a)
    (own : V → β) (hown : ∀ v a, tr' p v = some a → mem a = own v) : Private tr' mem (Function.update m p own) := by
  intro q v a ha
  by_cases hq : q = p
  · subst hq
    rw [Function.update_self]
    exact hown v a ha
  · rw [Function.update_of_ne hq]
    exact h q v a (hold q hq v a ha)

variable [DecidableEq P] [DecidableEq V] [DecidableEq A]

/-- One store. -/
theorem store (hap : Apart tr) (h : Private tr mem m) (ha : tr p v = some a) (b : β) :
    Private tr (Function.update mem a b) (Function.update m p (Function.update (m p) v b)) := by
  intro q w c hc
  by_cases hca : c = a
  · subst hca
    obtain ⟨rfl, rfl⟩ := hap ha hc
    rw [Function.update_self, Function.update_self, Function.update_self]
  · rw [Function.update_of_ne hca, h q w c hc]
    by_cases hq : q = p
    · subst hq
      have hw : w ≠ v := by
        rintro rfl
        rw [ha] at hc
        exact hca (Option.some.inj hc).symm
      rw [Function.update_self, Function.update_of_ne hw]
    · rw [Function.update_of_ne hq]

/-- Stores in a row. -/
theorem stores {ι : Type*} (hap : Apart tr) {place : ι → V} {cell : ι → A} {x : ι → β} {l : List ι} :
    ∀ {mem : A → β} {m : P → V → β}, Private tr mem m → (∀ i ∈ l, tr p (place i) = some (cell i)) →
      Private tr (assign cell x l mem) (Function.update m p (assign place x l (m p))) := by
  induction l with
  | nil =>
    intro mem m h _
    rwa [show assign place x [] (m p) = m p from rfl, Function.update_eq_self]
  | cons i l ih =>
    intro mem m h hl
    obtain ⟨hi, hl⟩ := List.forall_mem_cons.1 hl
    have hrest := ih (h.store hap hi (x i)) hl
    rwa [Function.update_self, Function.update_idem] at hrest

end Private

end Lib
