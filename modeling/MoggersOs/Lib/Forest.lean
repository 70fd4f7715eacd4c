import Mathlib.Logic.Function.Iterate
import Mathlib.Data.Finset.Insert
import Mathlib.Data.Finset.Erase

/-!
# Parent pointers that lead to a root

`Rooted nodes root parent`: the nodes are closed under `parent` and following `parent` from any of
them meets `root` after finitely many steps. A leaf can be added below a node and a node that is
nobody's parent can be removed.
-/

namespace Lib

variable {α : Type*}

/-- The nodes are closed under `parent` and each of them leads to `root`. -/
structure Rooted (nodes : Finset α) (root : α) (parent : α → α) : Prop where
  closed : ∀ d ∈ nodes, parent d ∈ nodes
  reach : ∀ d ∈ nodes, ∃ k, parent^[k] d = root

namespace Rooted

variable {nodes : Finset α} {root : α} {parent parent' : α → α}

/-- Two parent maps that agree on a closed set walk alike on it. -/
theorem iterate_congr (hcl : ∀ d ∈ nodes, parent d ∈ nodes) (hp : ∀ d ∈ nodes, parent' d = parent d) :
    ∀ (k : Nat), ∀ d ∈ nodes, parent'^[k] d = parent^[k] d
  | 0, _, _ => rfl
  | k + 1, d, hd => by
    rw [Function.iterate_succ_apply, Function.iterate_succ_apply, hp d hd]
    exact iterate_congr hcl hp k _ (hcl d hd)

theorem congr (h : Rooted nodes root parent) (hp : ∀ d ∈ nodes, parent' d = parent d) :
    Rooted nodes root parent' := by
  refine ⟨fun d hd => ?_, fun d hd => ?_⟩
  · rw [hp d hd]
    exact h.closed d hd
  · obtain ⟨k, hk⟩ := h.reach d hd
    exact ⟨k, by rw [iterate_congr h.closed hp k d hd, hk]⟩

variable [DecidableEq α] {c p : α}

theorem insert_leaf (h : Rooted nodes root parent) (hp : ∀ d ∈ nodes, parent' d = parent d)
    (hpn : p ∈ nodes) (hc : parent' c = p) : Rooted (insert c nodes) root parent' := by
  refine ⟨fun d hd => ?_, fun d hd => ?_⟩
  · rcases Finset.mem_insert.1 hd with rfl | hd
    · rw [hc]; exact Finset.mem_insert_of_mem hpn
    · rw [hp d hd]; exact Finset.mem_insert_of_mem (h.closed d hd)
  · rcases Finset.mem_insert.1 hd with rfl | hd
    · obtain ⟨k, hk⟩ := h.reach p hpn
      refine ⟨k + 1, ?_⟩
      rw [Function.iterate_succ_apply, hc, iterate_congr h.closed hp k p hpn, hk]
    · obtain ⟨k, hk⟩ := h.reach d hd
      exact ⟨k, by rw [iterate_congr h.closed hp k d hd, hk]⟩

theorem erase_leaf (h : Rooted nodes root parent) (hp : ∀ d ∈ nodes, d ≠ c → parent' d = parent d)
    (hleaf : ∀ d ∈ nodes, d ≠ c → parent d ≠ c) : Rooted (nodes.erase c) root parent' := by
  have hmem : ∀ d ∈ nodes.erase c, d ∈ nodes ∧ d ≠ c :=
    fun d hd => ⟨Finset.mem_of_mem_erase hd, Finset.ne_of_mem_erase hd⟩
  have hcl : ∀ d ∈ nodes.erase c, parent d ∈ nodes.erase c := fun d hd =>
    Finset.mem_erase.2 ⟨hleaf d (hmem d hd).1 (hmem d hd).2, h.closed d (hmem d hd).1⟩
  have hag : ∀ d ∈ nodes.erase c, parent' d = parent d := fun d hd => hp d (hmem d hd).1 (hmem d hd).2
  refine ⟨fun d hd => ?_, fun d hd => ?_⟩
  · rw [hag d hd]; exact hcl d hd
  · obtain ⟨k, hk⟩ := h.reach d (hmem d hd).1
    exact ⟨k, by rw [iterate_congr hcl hag k d hd, hk]⟩

end Rooted

end Lib
