import Mathlib.Algebra.Group.Nat.Defs
import Mathlib.Logic.Equiv.Fin.Basic

/-!
# Packed little-endian records

A packed C structure is a sequence of bytes. `leByte n k` is byte `k` of `n`, `ofLe` reads a list of
bytes back as a number; a field of one, two or four bytes survives the round trip (`ofLe_leBytes`).
An array of `n` records of `m` bytes each is laid out by `pack` and read back by `unpack`.
-/

namespace Lib

/-- Byte `k` of `n`, least significant first. -/
def leByte (n k : Nat) : UInt8 := UInt8.ofNat (n / 256 ^ k)

/-- The number whose bytes are `bs`, least significant first. -/
def ofLe : List UInt8 → Nat
  | [] => 0
  | b :: bs => b.toNat + 256 * ofLe bs

/-- The low `w` bytes of `n`, from byte `k` on. -/
def leBytes (n : Nat) : Nat → Nat → List UInt8
  | _, 0 => []
  | k, w + 1 => leByte n k :: leBytes n (k + 1) w

theorem ofLe_leBytes (n : Nat) : ∀ k w : Nat, ofLe (leBytes n k w) = n / 256 ^ k % 256 ^ w
  | k, 0 => by simp [ofLe, leBytes, Nat.mod_one]
  | k, w + 1 => by
    have hb : (leByte n k).toNat = n / 256 ^ k % 256 := by simp [leByte]
    have hd : n / 256 ^ (k + 1) = n / 256 ^ k / 256 := by
      rw [Nat.pow_succ, Nat.div_div_eq_div_mul]
    simp only [leBytes, ofLe]
    rw [hb, ofLe_leBytes n (k + 1) w, hd, Nat.pow_succ, Nat.mul_comm (256 ^ w), Nat.mod_mul]

/-- A two-byte field. -/
theorem ofLe_leByte₂ (x : UInt16) : UInt16.ofNat (ofLe [leByte x.toNat 0, leByte x.toNat 1]) = x := by
  have h := ofLe_leBytes x.toNat 0 2
  simp only [leBytes, Nat.pow_zero, Nat.div_one] at h
  rw [h]
  apply UInt16.toNat_inj.1
  simp

/-- A four-byte field. -/
theorem ofLe_leByte₄ (x : UInt32) :
    UInt32.ofNat (ofLe [leByte x.toNat 0, leByte x.toNat 1, leByte x.toNat 2, leByte x.toNat 3]) = x := by
  have h := ofLe_leBytes x.toNat 0 4
  simp only [leBytes, Nat.pow_zero, Nat.div_one] at h
  rw [h]
  apply UInt32.toNat_inj.1
  simp

variable {β : Type*} {n m : Nat}

/-- `n` records of `m` cells, laid out one after the other. -/
def pack (f : Fin n → Fin m → β) : Fin (n * m) → β := fun i => f i.divNat i.modNat

/-- Record `r` of a packed array. -/
def unpack (g : Fin (n * m) → β) : Fin n → Fin m → β := fun r j => g (finProdFinEquiv (r, j))

@[simp] theorem unpack_pack (f : Fin n → Fin m → β) : unpack (pack f) = f := by
  funext r j
  have h := (finProdFinEquiv (m := n) (n := m)).symm_apply_apply (r, j)
  rw [finProdFinEquiv_symm_apply, Prod.mk.injEq] at h
  simp only [unpack, pack, h.1, h.2]

end Lib
