import Mathlib.Data.List.Basic

/-!
# Depth-first search

A tree is given by the places in its nodes: `child d i` is the node below place `i` of node `d`, if there is one, and
`hit d i` says that the place is one of those looked for. The address of a hit is the list of the places on the way to
it (`Leads`). `search` tries the places of a node in their order, takes the first hit, and looks below a place before
it goes on to the next. In a tree of bounded height (`HeightLe`) what it finds is the first address in lexicographic
order (`search_first`), and it finds nothing only if there is nothing (`search_eq_none`).
-/

namespace Lib

variable {α β : Type*}

section
variable (places : List β) (hit : α → β → Prop) [∀ d, DecidablePred (hit d)] (child : α → β → Option α)

/-- The places lead from the node to a hit. -/
inductive Leads : α → List β → Prop
  | here {d : α} {i : β} : i ∈ places → hit d i → Leads d [i]
  | down {d c : α} {i : β} {a : List β} : i ∈ places → child d i = some c → Leads c a → Leads d (i :: a)

/-- There are at most `n` levels, the node's own included. -/
def HeightLe : Nat → α → Prop
  | 0, _ => False
  | n + 1, d => ∀ i ∈ places, ∀ c, child d i = some c → HeightLe n c

/-- The place itself, or what `below` finds in the node below it. -/
def tryPlace (below : α → Option (List β)) (d : α) (i : β) : Option (List β) :=
  if hit d i then some [i] else (child d i).bind fun c => (below c).map (i :: ·)

def search : Nat → α → Option (List β)
  | 0, _ => none
  | n + 1, d => places.findSome? (tryPlace hit child (search n) d)

end

variable {places : List β} {hit : α → β → Prop} {child : α → β → Option α} {n : Nat} {d : α} {i : β} {a b : List β}

theorem Leads.ne_nil (h : Leads places hit child d a) : a ≠ [] := by
  cases h with
  | here _ _ => exact List.cons_ne_nil _ _
  | down _ _ _ => exact List.cons_ne_nil _ _

variable [∀ d, DecidablePred (hit d)]

/-! ## One place -/

section tryPlace
variable {below : α → Option (List β)}

theorem tryPlace_eq_some : tryPlace hit child below d i = some a ↔
    hit d i ∧ a = [i] ∨ ¬ hit d i ∧ ∃ c b, child d i = some c ∧ below c = some b ∧ a = i :: b := by
  unfold tryPlace
  by_cases hh : hit d i
  · rw [if_pos hh]
    simp [hh, eq_comm]
  · rw [if_neg hh, Option.bind_eq_some_iff]
    simp [hh, eq_comm]

theorem tryPlace_eq_none : tryPlace hit child below d i = none ↔
    ¬ hit d i ∧ ∀ c, child d i = some c → below c = none := by
  unfold tryPlace
  by_cases hh : hit d i
  · simp [hh]
  · simp [hh, Option.bind_eq_none_iff]

end tryPlace

/-! ## All of them -/

theorem search_leads {n : Nat} : ∀ {d : α} {a : List β}, search places hit child n d = some a →
    Leads places hit child d a := by
  induction n with
  | zero => exact fun h => nomatch h
  | succ n ih =>
    intro d a h
    obtain ⟨l, i, r, hl, hi, -⟩ := List.findSome?_eq_some_iff.1 h
    have hmem : i ∈ places := by simp [hl]
    obtain ⟨hh, rfl⟩ | ⟨-, c, b, hc, hb, rfl⟩ := tryPlace_eq_some.1 hi
    · exact .here hmem hh
    · exact .down hmem hc (ih hb)

/-- **A search that finds nothing has looked everywhere.** -/
theorem search_eq_none {n : Nat} : ∀ {d : α}, HeightLe places child n d →
    (search places hit child n d = none ↔ ∀ a, ¬ Leads places hit child d a) := by
  induction n with
  | zero => exact fun h => h.elim
  | succ n ih =>
    intro d h
    have htry : search places hit child (n + 1) d = none ↔
        ∀ i ∈ places, tryPlace hit child (search places hit child n) d i = none := List.findSome?_eq_none_iff
    rw [htry]
    constructor
    · intro hall a ha
      cases ha with
      | here hi hh => exact (tryPlace_eq_none.1 (hall _ hi)).1 hh
      | down hi hc ha => exact (ih (h _ hi _ hc)).1 ((tryPlace_eq_none.1 (hall _ hi)).2 _ hc) _ ha
    · intro hno i hi
      refine tryPlace_eq_none.2 ⟨fun hh => hno _ (.here hi hh), fun c hc => ?_⟩
      exact (ih (h _ hi _ hc)).2 fun a ha => hno _ (.down hi hc ha)

/-- **What a search finds comes first**, where `r` is the order of the places. -/
theorem search_first {r : β → β → Prop} (hr : ∀ i j, r i j → ¬ r j i) (hp : places.Pairwise r) {n : Nat} :
    ∀ {d : α} {a b : List β}, HeightLe places child n d → search places hit child n d = some a →
    Leads places hit child d b → ¬ List.Lex r b a := by
  induction n with
  | zero => exact fun h => h.elim
  | succ n ih =>
    intro d a b h hs hb hlt
    obtain ⟨l, i, r', hl, hi, hno⟩ := List.findSome?_eq_some_iff.1 hs
    have hmem : i ∈ places := by simp [hl]
    -- both addresses begin with a place of the node
    have hbefore : ∀ j ∈ places, r j i → j ∈ l := by
      intro j hj hji
      rw [hl] at hj hp
      rcases List.mem_append.1 hj with hj | hj
      · exact hj
      · rcases List.mem_cons.1 hj with rfl | hj
        · exact absurd hji (hr _ _ hji)
        · exact absurd hji (hr _ _ ((List.pairwise_cons.1 (List.pairwise_append.1 hp).2.1).1 j hj))
    cases hb with
    | @here _ j hj hh =>
      obtain ⟨-, rfl⟩ | ⟨hnh, c, a', -, -, rfl⟩ := tryPlace_eq_some.1 hi
      · rcases List.cons_lex_cons_iff.1 hlt with hji | ⟨-, hnil⟩
        · exact (tryPlace_eq_none.1 (hno j (hbefore j hj hji))).1 hh
        · cases hnil
      · rcases List.cons_lex_cons_iff.1 hlt with hji | ⟨rfl, -⟩
        · exact (tryPlace_eq_none.1 (hno j (hbefore j hj hji))).1 hh
        · exact hnh hh
    | @down _ c j b' hj hc hb' =>
      have hlater : ¬ r j i := fun hji =>
        (search_eq_none (h j hj c hc)).1 ((tryPlace_eq_none.1 (hno j (hbefore j hj hji))).2 c hc) b' hb'
      obtain ⟨-, rfl⟩ | ⟨-, c', a', hc', ha', rfl⟩ := tryPlace_eq_some.1 hi
      · rcases List.cons_lex_cons_iff.1 hlt with hji | ⟨-, hnil⟩
        · exact hlater hji
        · cases hnil
      · rcases List.cons_lex_cons_iff.1 hlt with hji | ⟨rfl, hlt'⟩
        · exact hlater hji
        · obtain rfl : c = c' := Option.some.inj (hc.symm.trans hc')
          exact ih (h j hj c hc) ha' hb' hlt'

end Lib
