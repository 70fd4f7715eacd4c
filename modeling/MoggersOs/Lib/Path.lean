import Mathlib.Logic.Basic

/-!
# Runs of a labelled transition system

`Path step s ls s'`: the steps labelled `ls` lead from `s` to `s'`. An invariant that every step keeps
holds at the end of every path (`Path.invariant`), and a relation that every step of one system can
follow in another carries whole paths over, label by label (`Path.simulate`).
-/

namespace Lib

variable {σ τ ℓ : Type*}

/-- The steps labelled `ls` lead from the first state to the second. -/
inductive Path (step : σ → ℓ → σ → Prop) : σ → List ℓ → σ → Prop
  | nil {s : σ} : Path step s [] s
  | cons {s s₁ s' : σ} {l : ℓ} {ls : List ℓ} : step s l s₁ → Path step s₁ ls s' → Path step s (l :: ls) s'

namespace Path

variable {step : σ → ℓ → σ → Prop} {step' : τ → ℓ → τ → Prop} {s s₁ s' : σ} {l : ℓ} {ls : List ℓ}

theorem snoc (h : Path step s ls s₁) (hs : step s₁ l s') : Path step s (ls ++ [l]) s' := by
  induction h with
  | nil => exact .cons hs .nil
  | cons h₁ _ ih => exact .cons h₁ (ih hs)

theorem append {ls' : List ℓ} (h : Path step s ls s₁) (h' : Path step s₁ ls' s') : Path step s (ls ++ ls') s' := by
  induction h with
  | nil => exact h'
  | cons h₁ _ ih => exact .cons h₁ (ih h')

theorem of_append {ls' : List ℓ} (h : Path step s (ls ++ ls') s') : ∃ t, Path step s ls t ∧ Path step t ls' s' := by
  induction ls generalizing s with
  | nil => exact ⟨s, .nil, h⟩
  | cons l ls ih =>
    cases h with
    | cons h₁ h =>
      obtain ⟨t, ht, ht'⟩ := ih h
      exact ⟨t, .cons h₁ ht, ht'⟩

theorem invariant {I : σ → Prop} (hstep : ∀ s l s', I s → step s l s' → I s') (h : Path step s ls s')
    (hs : I s) : I s' := by
  induction h with
  | nil => exact hs
  | cons h₁ _ ih => exact ih (hstep _ _ _ hs h₁)

theorem simulate {R : σ → τ → Prop}
    (hsim : ∀ s t l s', R s t → step s l s' → ∃ t', step' t l t' ∧ R s' t') (h : Path step s ls s') :
    ∀ {t : τ}, R s t → ∃ t', Path step' t ls t' ∧ R s' t' := by
  induction h with
  | nil => exact fun hr => ⟨_, .nil, hr⟩
  | cons h₁ _ ih =>
    intro t hr
    obtain ⟨t₁, ht₁, hr₁⟩ := hsim _ _ _ _ hr h₁
    obtain ⟨t', ht', hr'⟩ := ih hr₁
    exact ⟨t', .cons ht₁ ht', hr'⟩

end Path

end Lib
