import Mathlib.Logic.Function.Basic
import Mathlib.Data.List.Nodup

/-!
# Chains in a successor map, and who owns them

A linked allocation table is a map `next` from cells to cells: a cell holds the cell after it, the
end mark `stop` in the last cell of a chain, or `empty` if it is free. `Chain next stop c l` says
that following `next` from `c` visits exactly the cells `l`, in order, and then meets `stop`.

`Owned` is the invariant of such a table with a family of owners, each of which knows the first
cell and the length of its chain: every owner's chain is there and stays in range, the chains of
two owners share no cell, and every occupied cell is on some owner's chain. It survives the two
things an allocator does, giving a fresh chain to a new owner (`Owned.insert`) and taking an
owner's chain away and freeing it (`Owned.erase`).
-/

namespace Lib

variable {α : Type*} {ι : Type*}

/-- Following `next` from `c` visits exactly `l` and then meets `stop`. -/
inductive Chain (next : α → α) (stop : α) : α → List α → Prop
  | last {c : α} : next c = stop → Chain next stop c [c]
  | cons {c : α} {l : List α} : next c ≠ stop → Chain next stop (next c) l → Chain next stop c (c :: l)

namespace Chain

variable {next next' : α → α} {stop c d : α} {l l' : List α}

theorem ne_nil (h : Chain next stop c l) : l ≠ [] := by
  cases h <;> simp

theorem head_mem (h : Chain next stop c l) : c ∈ l := by
  cases h <;> simp

/-- The map is a function, so a start has one chain. -/
theorem unique (h : Chain next stop c l) (h' : Chain next stop c l') : l = l' := by
  induction h generalizing l' with
  | last hs =>
    cases h' with
    | last _ => rfl
    | cons hn _ => exact absurd hs hn
  | cons hn _ ih =>
    cases h' with
    | last hs => exact absurd hs hn
    | cons _ ht => rw [ih ht]

/-- A cell on the chain starts its own, no longer chain. -/
theorem sub (h : Chain next stop c l) (hd : d ∈ l) : ∃ l', Chain next stop d l' ∧ l' <:+ l := by
  induction h with
  | last hs =>
    obtain rfl : d = _ := by simpa using hd
    exact ⟨_, .last hs, List.suffix_rfl⟩
  | cons hn ht ih =>
    rcases List.mem_cons.1 hd with rfl | hd
    · exact ⟨_, .cons hn ht, List.suffix_rfl⟩
    · obtain ⟨l', hl', hsuf⟩ := ih hd
      exact ⟨l', hl', hsuf.trans (List.suffix_cons _ _)⟩

/-- No cell comes twice: a second visit would start a proper suffix that is the whole chain. -/
theorem nodup (h : Chain next stop c l) : l.Nodup := by
  induction h with
  | last _ => simp
  | @cons c l hn ht ih =>
    refine List.nodup_cons.2 ⟨fun hc => ?_, ih⟩
    obtain ⟨l', hl', hsuf⟩ := ht.sub hc
    have hlen := hsuf.length_le
    rw [← (Chain.cons hn ht).unique hl', List.length_cons] at hlen
    omega

/-- Only the cells on the chain matter. -/
theorem congr (h : Chain next stop c l) (hf : ∀ x ∈ l, next' x = next x) : Chain next' stop c l := by
  induction h with
  | last hs => exact .last (by rw [hf _ (by simp), hs])
  | @cons c l hn ht ih =>
    have hc : next' c = next c := hf c (by simp)
    refine .cons (by rw [hc]; exact hn) ?_
    rw [hc]
    exact ih fun x hx => hf x (List.mem_cons_of_mem _ hx)

/-- A cell on a chain that stays in range is occupied. -/
theorem next_ne_empty {empty : α} {R : α → Prop} (hstop : stop ≠ empty) (hR : ¬ R empty)
    (h : Chain next stop c l) (hl : ∀ x ∈ l, R x) : ∀ x ∈ l, next x ≠ empty := by
  induction h with
  | last hs =>
    intro x hx
    obtain rfl : x = _ := by simpa using hx
    rwa [hs]
  | @cons c l hn ht ih =>
    intro x hx
    rcases List.mem_cons.1 hx with rfl | hx
    · intro he
      exact hR (he ▸ hl _ (List.mem_cons_of_mem _ ht.head_mem))
    · exact ih (fun y hy => hl y (List.mem_cons_of_mem _ hy)) x hx

end Chain

/-- Every owner has its chain, in range and of the length it records; chains of different owners are
disjoint; every occupied cell in range is on an owner's chain. -/
structure Owned (next : α → α) (stop empty : α) (R : α → Prop) (rows : ι → Option (α × Nat)) :
    Prop where
  chain : ∀ {i c n}, rows i = some (c, n) → ∃ l, Chain next stop c l ∧ l.length = n ∧ ∀ x ∈ l, R x
  disjoint : ∀ {i j c d m n l l' x}, rows i = some (c, m) → rows j = some (d, n) →
    Chain next stop c l → Chain next stop d l' → x ∈ l → x ∈ l' → i = j
  owner : ∀ {x}, R x → next x ≠ empty →
    ∃ i c n l, rows i = some (c, n) ∧ Chain next stop c l ∧ x ∈ l

namespace Owned

variable {next next' : α → α} {stop empty : α} {R : α → Prop} {rows : ι → Option (α × Nat)}
variable {i : ι} {c : α} {l : List α}

/-- Every chain an owner has in the new table is its chain in the old one, if the table changed
only on `l` and `l` is off every such chain. -/
theorem chain_back (h : Owned next stop empty R rows) {j : ι} {d : α} {n : Nat} {m : List α}
    (hj : rows j = some (d, n)) (hoff : ∀ x ∉ l, next' x = next x)
    (hdis : ∀ m', Chain next stop d m' → ∀ x ∈ m', x ∉ l) (hm : Chain next' stop d m) :
    Chain next stop d m := by
  obtain ⟨m', hm', -, -⟩ := h.chain hj
  have hm'' : Chain next' stop d m' := hm'.congr fun x hx => hoff x (hdis m' hm' x hx)
  rwa [hm.unique hm'']

variable [DecidableEq ι]

/-- A new owner takes cells that were free. -/
theorem insert (hstop : stop ≠ empty) (hR : ¬ R empty) (h : Owned next stop empty R rows)
    (hi : rows i = none) (hoff : ∀ x ∉ l, next' x = next x) (hfree : ∀ x ∈ l, next x = empty)
    (hl : ∀ x ∈ l, R x) (hc : Chain next' stop c l) :
    Owned next' stop empty R (Function.update rows i (some (c, l.length))) := by
  -- the chains that were there are made of occupied cells, so the new one misses them
  have hdis : ∀ {j d n}, rows j = some (d, n) → ∀ m, Chain next stop d m → ∀ x ∈ m, x ∉ l := by
    intro j d n hj m hm x hx hxl
    obtain ⟨m', hm', -, hR'⟩ := h.chain hj
    rw [hm.unique hm'] at hx
    exact hm'.next_ne_empty hstop hR hR' x hx (hfree x hxl)
  refine ⟨?_, ?_, ?_⟩
  · intro j d n hj
    by_cases hji : j = i
    · subst hji
      simp only [Function.update_self, Option.some.injEq, Prod.mk.injEq] at hj
      exact ⟨l, hj.1 ▸ hc, hj.2, hl⟩
    · rw [Function.update_of_ne hji] at hj
      obtain ⟨m, hm, hlen, hmR⟩ := h.chain hj
      exact ⟨m, hm.congr fun x hx => hoff x (hdis hj m hm x hx), hlen, hmR⟩
  · intro j k d e m n a b x hj hk ha hb hxa hxb
    by_cases hji : j = i <;> by_cases hki : k = i
    · rw [hji, hki]
    · subst hji
      rw [Function.update_of_ne hki] at hk
      simp only [Function.update_self, Option.some.injEq, Prod.mk.injEq] at hj
      rw [← hj.1] at ha
      rw [ha.unique hc] at hxa
      exact absurd hxa (hdis hk b (h.chain_back hk hoff (hdis hk) hb) x hxb)
    · subst hki
      rw [Function.update_of_ne hji] at hj
      simp only [Function.update_self, Option.some.injEq, Prod.mk.injEq] at hk
      rw [← hk.1] at hb
      rw [hb.unique hc] at hxb
      exact absurd hxb (hdis hj a (h.chain_back hj hoff (hdis hj) ha) x hxa)
    · rw [Function.update_of_ne hji] at hj
      rw [Function.update_of_ne hki] at hk
      exact h.disjoint hj hk (h.chain_back hj hoff (hdis hj) ha) (h.chain_back hk hoff (hdis hk) hb)
        hxa hxb
  · intro x hxR hx
    by_cases hxl : x ∈ l
    · exact ⟨i, c, l.length, l, by simp, hc, hxl⟩
    · rw [hoff x hxl] at hx
      obtain ⟨j, d, n, m, hj, hm, hxm⟩ := h.owner hxR hx
      have hji : j ≠ i := by rintro rfl; simp [hi] at hj
      exact ⟨j, d, n, m, by rw [Function.update_of_ne hji, hj],
        hm.congr fun y hy => hoff y (hdis hj m hm y hy), hxm⟩

/-- An owner goes away and its cells are freed. -/
theorem erase (h : Owned next stop empty R rows) {n : Nat} (hi : rows i = some (c, n))
    (hc : Chain next stop c l) (hoff : ∀ x ∉ l, next' x = next x) (hfree : ∀ x ∈ l, next' x = empty) :
    Owned next' stop empty R (Function.update rows i none) := by
  have hdis : ∀ {j d k}, j ≠ i → rows j = some (d, k) → ∀ m, Chain next stop d m → ∀ x ∈ m, x ∉ l :=
    fun hji hj m hm x hx hxl => hji (h.disjoint hj hi hm hc hx hxl)
  have hrow : ∀ {j v}, Function.update rows i none j = some v → j ≠ i ∧ rows j = some v := by
    intro j v hj
    by_cases hji : j = i
    · subst hji; simp at hj
    · exact ⟨hji, by rwa [Function.update_of_ne hji] at hj⟩
  refine ⟨?_, ?_, ?_⟩
  · intro j d k hj
    obtain ⟨hji, hj⟩ := hrow hj
    obtain ⟨m, hm, hlen, hmR⟩ := h.chain hj
    exact ⟨m, hm.congr fun x hx => hoff x (hdis hji hj m hm x hx), hlen, hmR⟩
  · intro j k d e m n a b x hj hk ha hb hxa hxb
    obtain ⟨hji, hj⟩ := hrow hj
    obtain ⟨hki, hk⟩ := hrow hk
    exact h.disjoint hj hk (h.chain_back hj hoff (hdis hji hj) ha)
      (h.chain_back hk hoff (hdis hki hk) hb) hxa hxb
  · intro x hxR hx
    have hxl : x ∉ l := fun hxl => hx (hfree x hxl)
    rw [hoff x hxl] at hx
    obtain ⟨j, d, k, m, hj, hm, hxm⟩ := h.owner hxR hx
    have hji : j ≠ i := by
      rintro rfl
      rw [hi] at hj
      simp only [Option.some.injEq, Prod.mk.injEq] at hj
      rw [← hj.1] at hm
      exact hxl (hm.unique hc ▸ hxm)
    exact ⟨j, d, k, m, by rw [Function.update_of_ne hji, hj],
      hm.congr fun y hy => hoff y (hdis hji hj m hm y hy), hxm⟩

end Owned

end Lib
