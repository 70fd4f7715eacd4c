import MoggersOs.Lib.Stores
/-
# Copying memory (`std/string.c`)

`memcpy` copies upwards whatever the ranges. `memmove` copies upwards if the destination starts below the source and
downwards otherwise, so that it never stores to a byte that it has yet to read (`memmove_exact`). Where `memcpy` may
be called at all, on ranges that do not overlap, the two leave the same memory (`memcpy_eq_memmove`).

| here | there |
| --- | --- |
| `Memory`   | the bytes of the 32-bit address space; `dstbuf[i]` is the byte at `dstbuf + i` |
| `copyUp`   | the loop of `memcpy` and the first one of `memmove` (`string.c:15-16`, `:37-38`) |
| `copyDown` | the second one (`string.c:40-41`) |
| `memcpy`, `memmove` | `string.c:12-18` and `:33-44` |
-/

namespace MoggersOs

abbrev Memory := UInt32 → UInt8

def copyUp (dstbuf srcbuf : UInt32) (n : ℕ) (m : Memory) : Memory :=
  (List.range n).foldl (fun m i => Function.update m (dstbuf + UInt32.ofNat i) (m (srcbuf + UInt32.ofNat i))) m

/-- The argument is the loop's `i`, which goes down to 0; the byte copied is the one before. -/
def copyDown (dstbuf srcbuf : UInt32) : ℕ → Memory → Memory
  | 0, m => m
  | i + 1, m =>
    copyDown dstbuf srcbuf i (Function.update m (dstbuf + UInt32.ofNat i) (m (srcbuf + UInt32.ofNat i)))

/-- The pointer returned and the memory. -/
def memcpy (m : Memory) (dest src n : UInt32) : UInt32 × Memory := (dest, copyUp dest src n.toNat m)

def memmove (m : Memory) (dest src n : UInt32) : UInt32 × Memory :=
  if dest < src then (dest, copyUp dest src n.toNat m) else (dest, copyDown dest src n.toNat m)

/-- The `n` bytes from `p` on do not wrap around the address space; they may reach its end. -/
def NoWrap (p n : UInt32) : Prop := p.toNat + n.toNat ≤ UInt32.size

instance (p n : UInt32) : Decidable (NoWrap p n) := inferInstanceAs (Decidable (_ ≤ _))

/-- In `m'` the bytes from `dest` on are those that `m` has from `src` on, and nothing else is changed. -/
structure Copied (m m' : Memory) (dest src n : UInt32) : Prop where
  inside  : ∀ k < n, m' (dest + k) = m (src + k)
  outside : ∀ a : UInt32, a.toNat < dest.toNat ∨ dest.toNat + n.toNat ≤ a.toNat → m' a = m a

/-! ## Addresses -/

theorem NoWrap.toNat_add {p n : UInt32} (h : NoWrap p n) {i : ℕ} (hi : i < n.toNat) :
    (p + UInt32.ofNat i).toNat = p.toNat + i := by
  have hlt : p.toNat + i < UInt32.size := Nat.lt_of_lt_of_le (Nat.add_lt_add_left hi _) h
  rw [UInt32.toNat_add, UInt32.toNat_ofNat_of_lt' (Nat.lt_of_le_of_lt (Nat.le_add_left _ _) hlt)]
  exact Nat.mod_eq_of_lt hlt

theorem NoWrap.nodup {p n : UInt32} (h : NoWrap p n) {l : List ℕ} (hl : l.Nodup) (hlt : ∀ i ∈ l, i < n.toNat) :
    (l.map fun i => p + UInt32.ofNat i).Nodup := by
  refine hl.map_on fun i hi j hj he => ?_
  have hnat := congrArg UInt32.toNat he
  rw [h.toNat_add (hlt i hi), h.toNat_add (hlt j hj)] at hnat
  omega

/-! ## The loops -/

section
variable {m : Memory} {dest src n : UInt32}

theorem copyDown_eq (dest src : UInt32) (i : ℕ) (m : Memory) : copyDown dest src i m =
    Lib.move (fun i => dest + UInt32.ofNat i) (fun i => src + UInt32.ofNat i) (List.range i).reverse m := by
  induction i generalizing m with
  | zero => rfl
  | succ i ih =>
    rw [copyDown, ih, List.range_succ, List.reverse_append]
    rfl

/-- In whatever order each byte is copied once, if none is read after a store to it. -/
theorem copied_move (hd : NoWrap dest n) {l : List ℕ} (hl : l.Nodup) (hmem : ∀ i, i ∈ l ↔ i < n.toNat)
    (hread : Lib.ReadsFirst (fun i => dest + UInt32.ofNat i) (fun i => src + UInt32.ofNat i) l) :
    Copied m (Lib.move (fun i => dest + UInt32.ofNat i) (fun i => src + UInt32.ofNat i) l m) dest src n := by
  rw [Lib.move_eq_assign hread]
  constructor
  · intro k hk
    have hk' : k.toNat ∈ l := (hmem _).2 (UInt32.lt_iff_toNat_lt.1 hk)
    have h := Lib.assign_of_mem (v := fun i => m (src + UInt32.ofNat i)) (f := m)
      (hd.nodup hl fun i hi => (hmem i).1 hi) hk'
    simpa using h
  · intro a ha
    refine Lib.assign_of_notMem fun i hi he => ?_
    have hi' := (hmem i).1 hi
    rw [← he, hd.toNat_add hi'] at ha
    omega

theorem copied_up (hd : NoWrap dest n) (hs : NoWrap src n)
    (hbelow : dest.toNat ≤ src.toNat ∨ src.toNat + n.toNat ≤ dest.toNat) :
    Copied m (copyUp dest src n.toNat m) dest src n := by
  refine copied_move hd List.nodup_range (fun i => List.mem_range) ?_
  refine List.pairwise_lt_range.imp_of_mem fun {i j} hi hj hlt he => ?_
  -- a later read is above every earlier store, or the ranges are apart
  have hnat := congrArg UInt32.toNat he
  rw [hs.toNat_add (List.mem_range.1 hj), hd.toNat_add (List.mem_range.1 hi)] at hnat
  have hj' := List.mem_range.1 hj
  omega

theorem copied_down (hd : NoWrap dest n) (hs : NoWrap src n) (habove : src.toNat ≤ dest.toNat) :
    Copied m (copyDown dest src n.toNat m) dest src n := by
  rw [copyDown_eq]
  refine copied_move hd (List.nodup_reverse.2 List.nodup_range) (fun i => by simp) ?_
  refine List.pairwise_reverse.2 (List.pairwise_lt_range.imp_of_mem fun {i j} hi hj hlt he => ?_)
  -- here `j` is copied before `i`
  have hnat := congrArg UInt32.toNat he
  rw [hs.toNat_add (List.mem_range.1 hi), hd.toNat_add (List.mem_range.1 hj)] at hnat
  omega

end

/-- **`memmove` copies exactly, however the ranges overlap.** -/
theorem memmove_exact (m : Memory) (dest src n : UInt32) (hd : NoWrap dest n) (hs : NoWrap src n) :
    Copied m (memmove m dest src n).2 dest src n := by
  unfold memmove
  split
  next hlt => exact copied_up hd hs (.inl (Nat.le_of_lt (UInt32.lt_iff_toNat_lt.1 hlt)))
  next hge => exact copied_down hd hs (UInt32.le_iff_toNat_le.1 (UInt32.not_lt.1 hge))

/-- Six bytes, moved up by two over themselves. -/
theorem memmove_exact_overlap :
    Copied (fun a => a.toUInt8) (memmove (fun a => a.toUInt8) 0x1002 0x1000 6).2 0x1002 0x1000 6 :=
  memmove_exact _ 0x1002 0x1000 6 (by decide) (by decide)

/-- Nothing is left open. -/
theorem Copied.unique {m m₁ m₂ : Memory} {dest src n : UInt32} (h₁ : Copied m m₁ dest src n)
    (h₂ : Copied m m₂ dest src n) : m₁ = m₂ := by
  funext a
  by_cases ha : a.toNat < dest.toNat ∨ dest.toNat + n.toNat ≤ a.toNat
  · rw [h₁.outside a ha, h₂.outside a ha]
  · obtain ⟨hlow, hhigh⟩ := not_or.1 ha
    have hk : a - dest < n := by
      rw [UInt32.lt_iff_toNat_lt, UInt32.toNat_sub_of_le _ _ (UInt32.le_iff_toNat_le.2 (by omega))]
      omega
    have heq : dest + (a - dest) = a := by rw [UInt32.add_comm, UInt32.sub_add_cancel]
    rw [← heq, h₁.inside _ hk, h₂.inside _ hk]

/-- **Under the contract of `memcpy`, that the ranges do not overlap, it is `memmove`.** -/
theorem memcpy_eq_memmove (m : Memory) (dest src n : UInt32) (hd : NoWrap dest n) (hs : NoWrap src n)
    (hapart : dest.toNat + n.toNat ≤ src.toNat ∨ src.toNat + n.toNat ≤ dest.toNat) :
    memcpy m dest src n = memmove m dest src n := by
  have hup : Copied m (memcpy m dest src n).2 dest src n :=
    copied_up hd hs (hapart.imp_left fun h => Nat.le_of_add_right_le h)
  have hptr : (memmove m dest src n).1 = dest := by
    unfold memmove
    split <;> rfl
  exact Prod.ext hptr.symm (hup.unique (memmove_exact m dest src n hd hs))

end MoggersOs
