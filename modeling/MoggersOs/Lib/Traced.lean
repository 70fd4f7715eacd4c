import Mathlib.Data.List.Basic

/-!
# Computations that keep a log

A `Traced ε α` is a result together with the events met on the way to it, oldest first. Forgetting the log
(`Traced.out`) is what relates a traced program to the plain one; `Traced.All p` says that every event satisfies
`p`, and goes through the program one bind at a time (`all_bind`).
-/

namespace Lib

structure Traced (ε α : Type) where
  out : α
  log : List ε

namespace Traced

variable {ε α β : Type} {p : ε → Prop}

instance : Monad (Traced ε) where
  pure a := ⟨a, []⟩
  bind x f := ⟨(f x.out).out, x.log ++ (f x.out).log⟩

/-- A result with one event. -/
def note (e : ε) (a : α) : Traced ε α := ⟨a, [e]⟩

@[simp] theorem out_pure (a : α) : (pure a : Traced ε α).out = a := rfl
@[simp] theorem log_pure (a : α) : (pure a : Traced ε α).log = [] := rfl
@[simp] theorem out_bind (x : Traced ε α) (f : α → Traced ε β) : (x >>= f).out = (f x.out).out := rfl
@[simp] theorem log_bind (x : Traced ε α) (f : α → Traced ε β) : (x >>= f).log = x.log ++ (f x.out).log := rfl
@[simp] theorem out_note (e : ε) (a : α) : (note e a).out = a := rfl
@[simp] theorem log_note (e : ε) (a : α) : (note e a).log = [e] := rfl

@[simp] theorem out_ite {c : Prop} [Decidable c] (x y : Traced ε α) :
    (if c then x else y).out = if c then x.out else y.out := apply_ite _ _ _ _

/-- Every event satisfies `p`. -/
def All (p : ε → Prop) (x : Traced ε α) : Prop := ∀ e ∈ x.log, p e

theorem All.imp {q : ε → Prop} {x : Traced ε α} (h : All p x) (hpq : ∀ e, p e → q e) : All q x :=
  fun e he => hpq e (h e he)

@[simp] theorem all_pure (a : α) : All p (pure a : Traced ε α) := by simp [All]

@[simp] theorem all_note {e : ε} {a : α} : All p (note e a) ↔ p e := by simp [All]

@[simp] theorem all_bind {x : Traced ε α} {f : α → Traced ε β} : All p (x >>= f) ↔ All p x ∧ All p (f x.out) := by
  simp only [All, log_bind, List.mem_append]
  exact ⟨fun h => ⟨fun e he => h e (.inl he), fun e he => h e (.inr he)⟩,
    fun h e he => he.elim (h.1 e) (h.2 e)⟩

end Traced

end Lib
