import Mathlib.Data.Nat.Digits.Defs
import Mathlib.Tactic.Ring
import MoggersOs.Kernel.GiveBack
import MoggersOs.Shell.Commands
/-
# The shell's `kill` (`user_mode/command_list/kill.c`)

| here | there |
| --- | --- |
| `charToUInt32` | a `char`, which is signed, in 32-bit unsigned arithmetic |
| `killPid`      | the loop of `kill` (`kill.c:6-8`), for an argument of at most eight characters |
| `kill`         | `kill`, and system call 13 (`interrupt.c:138-142`), which ignores what `process_destroy` returns |

The loop takes any character for a digit, of value `c - '0'`, so many arguments come out as the same pid
(`digitSum`), and no argument at all comes out as pid 0, the shell. `main` looks at the number of arguments
before it calls `cat` (`user-shell.c:262`), but not here.
-/

namespace MoggersOs

def charToUInt32 (b : UInt8) : UInt32 := if b < 128 then b.toUInt32 else b.toUInt32 + 0xFFFFFF00

def killDigit (pid : UInt32) (b : UInt8) : UInt32 := pid * 10 + charToUInt32 b - 48

def killPid (argument : Arg) : UInt32 :=
  (((List.finRange 8).take argument.lenInfo).map argument.info).foldl killDigit 0

/-- The kernel after it. -/
def kill (garbage : Fin 8 → PageFlag) (k : Kernel) (argument : Arg) : Kernel :=
  (processDestroy garbage k (killPid argument)).2

/-! ## What it should do -/

/-- A number as one types it. -/
def IsNumber (bytes : List UInt8) : Prop := bytes ≠ [] ∧ ∀ b ∈ bytes, 48 ≤ b.toNat ∧ b.toNat ≤ 57

instance (bytes : List UInt8) : Decidable (IsNumber bytes) :=
  @instDecidableAnd _ _ inferInstance (List.decidableBAll (fun b => 48 ≤ b.toNat ∧ b.toNat ≤ 57) bytes)

def decimal (bytes : List UInt8) : ℕ := Nat.ofDigits 10 (bytes.reverse.map fun b => b.toNat - 48)

/-- The argument is the pid of the process in slot `i`. -/
def NamesProcess (k : Kernel) (w : Word) (i : Fin 16) : Prop :=
  k.processUsed i = true ∧ IsNumber w.bytes ∧ decimal w.bytes = (k.processList i).pid.toNat

/-- The process in slot `i` is gone from the process table, and no other. -/
structure ProcessGone (k k' : Kernel) (i : Fin 16) : Prop where
  used  : k'.processUsed = Function.update k.processUsed i false
  list  : k'.processList = Function.update k.processList i zeroPcb
  count : k'.activeProcessCount = k.activeProcessCount - 1

structure SameProcesses (k k' : Kernel) : Prop where
  used  : k'.processUsed = k.processUsed
  list  : k'.processList = k.processList
  count : k'.activeProcessCount = k.activeProcessCount

/-- `kill` destroys the process that its argument names, and does nothing if there is none. -/
structure KillExact (garbage : Fin 8 → PageFlag) (k : Kernel) (w : Word) : Prop where
  named : ∀ i, NamesProcess k w i → ProcessGone k (kill garbage k w.arg) i
  other : (∀ i, ¬ NamesProcess k w i) → SameProcesses k (kill garbage k w.arg)

/-! ## What the loop adds up -/

/-- The value of a `char`. -/
def signedChar (b : UInt8) : ℤ := if b.toNat < 128 then b.toNat else b.toNat - 256

/-- The characters taken for digits of value `c - 48`, whether they are or not. -/
def digitSum : List UInt8 → ℤ
  | [] => 0
  | b :: bytes => (signedChar b - 48) * 10 ^ bytes.length + digitSum bytes

theorem charToUInt32_toNat (b : UInt8) :
    ((charToUInt32 b).toNat : ℤ) = signedChar b + if b.toNat < 128 then 0 else 2 ^ 32 := by
  have hb := b.toNat_lt
  unfold charToUInt32 signedChar
  by_cases h : b.toNat < 128
  · have hlt : b < 128 := UInt8.lt_iff_toNat_lt.mpr h
    simp [hlt, h]
  · have hge : ¬ b < 128 := fun hlt => h (UInt8.lt_iff_toNat_lt.mp hlt)
    rw [if_neg hge, if_neg h, if_neg h, UInt32.toNat_add]
    simp only [UInt8.toNat_toUInt32, UInt32.reduceToNat]
    omega

/-- One round, up to a multiple of `2 ^ 32`. -/
theorem killDigit_toNat (pid : UInt32) (b : UInt8) :
    ∃ t : ℤ, ((killDigit pid b).toNat : ℤ) = pid.toNat * 10 + (signedChar b - 48) + 2 ^ 32 * t := by
  have hb := charToUInt32_toNat b
  have hlt := (charToUInt32 b).toNat_lt
  have hp := pid.toNat_lt
  unfold killDigit
  rw [UInt32.toNat_sub, UInt32.toNat_add, UInt32.toNat_mul]
  simp only [UInt32.reduceToNat]
  generalize (charToUInt32 b).toNat = c at hb hlt ⊢
  refine ⟨(((2 ^ 32 - 48 + (pid.toNat * 10 % 2 ^ 32 + c) % 2 ^ 32) % 2 ^ 32 : ℕ) - pid.toNat * 10 -
    (signedChar b - 48)) / 2 ^ 32, ?_⟩
  split at hb
  · omega
  · omega

theorem killDigit_foldl (bytes : List UInt8) : ∀ pid : UInt32,
    ∃ t : ℤ, ((bytes.foldl killDigit pid).toNat : ℤ) = pid.toNat * 10 ^ bytes.length + digitSum bytes + 2 ^ 32 * t := by
  induction bytes with
  | nil => exact fun pid => ⟨0, by simp [digitSum]⟩
  | cons b bytes ih =>
    intro pid
    obtain ⟨t, ht⟩ := killDigit_toNat pid b
    obtain ⟨t', ht'⟩ := ih (killDigit pid b)
    refine ⟨t * 10 ^ bytes.length + t', ?_⟩
    rw [List.foldl_cons, ht', ht, List.length_cons, digitSum]
    ring

/-- Eight characters cannot wrap around. -/
theorem digitSum_bounds (bytes : List UInt8) :
    -176 * (10 ^ bytes.length - 1) ≤ 9 * digitSum bytes ∧ 9 * digitSum bytes ≤ 176 * (10 ^ bytes.length - 1) := by
  induction bytes with
  | nil => simp [digitSum]
  | cons b bytes ih =>
    have hb : -176 ≤ signedChar b - 48 ∧ signedChar b - 48 ≤ 176 := by
      have hlt := b.toNat_lt
      unfold signedChar
      split
      · omega
      · omega
    have hpos : (0 : ℤ) ≤ 10 ^ bytes.length := by positivity
    rw [List.length_cons, digitSum, pow_succ]
    constructor
    · nlinarith [mul_le_mul_of_nonneg_right hb.1 hpos]
    · nlinarith [mul_le_mul_of_nonneg_right hb.2 hpos]

theorem digitSum_decimal (bytes : List UInt8) (h : ∀ b ∈ bytes, 48 ≤ b.toNat ∧ b.toNat ≤ 57) :
    digitSum bytes = decimal bytes := by
  induction bytes with
  | nil => rfl
  | cons b bytes ih =>
    have hb := h b List.mem_cons_self
    have hchar : signedChar b - 48 = ((b.toNat - 48 : ℕ) : ℤ) := by
      unfold signedChar
      rw [if_pos (by omega)]
      omega
    rw [digitSum, ih fun b' hb' => h b' (List.mem_cons_of_mem b hb'), hchar]
    unfold decimal
    rw [List.reverse_cons, List.map_append, Nat.ofDigits_append]
    simp
    ring

/-- What `kill` looks for is the sum itself. -/
theorem killPid_eq (w : Word) (i : Fin 16) : killPid w.arg = UInt32.ofNat i ↔ digitSum w.bytes = i := by
  have hi := i.isLt
  have hlen : (10 : ℤ) ^ w.bytes.length ≤ 10 ^ 8 := by
    exact_mod_cast Nat.pow_le_pow_right (by decide) w.le
  obtain ⟨hlo, hhi⟩ := digitSum_bounds w.bytes
  obtain ⟨t, ht⟩ := killDigit_foldl w.bytes 0
  have hlt := (w.bytes.foldl killDigit 0).toNat_lt
  unfold killPid
  rw [w.arg_bytes, ← UInt32.toNat_inj, toNat_ofNat_fin (by decide)]
  simp only [UInt32.reduceToNat, Nat.cast_zero, zero_mul, zero_add] at ht
  constructor
  · intro he
    omega
  · intro he
    omega

/-! ## What it does -/

section Kill

variable {garbage : Fin 8 → PageFlag} {k : Kernel} {w : Word} {i : Fin 16}

theorem kill_none (h : matchPid k (killPid w.arg) = none) : SameProcesses k (kill garbage k w.arg) := by
  unfold kill
  rw [processDestroy_none h]
  exact ⟨rfl, rfl, rfl⟩

theorem kill_some (h : matchPid k (killPid w.arg) = some i) : ProcessGone k (kill garbage k w.arg) i := by
  unfold kill
  rw [processDestroy_some h]
  exact ⟨rfl, rfl, rfl⟩

/-- A destroyed process is seen in the table. -/
theorem ProcessGone.not_same {k' : Kernel} (h : ProcessGone k k' i) : ¬ SameProcesses k k' := by
  intro hs
  have hcount := h.count.symm.trans hs.count
  have hn := congrArg UInt32.toNat hcount
  rw [UInt32.toNat_sub] at hn
  have hlt := k.activeProcessCount.toNat_lt
  simp only [UInt32.reduceToNat] at hn
  omega

section
attribute [local instance] slots_neZero

/-- The argument is a number, and not 0 while slot 0 is free; or it is none, and its sum is neither 0 nor the number of a
slot in use. -/
def KillSafe (k : Kernel) (w : Word) : Prop :=
  if IsNumber w.bytes then decimal w.bytes = 0 → k.processUsed 0 = true
  else digitSum w.bytes ≠ 0 ∧ ∀ i, k.processUsed i = true → digitSum w.bytes ≠ i

end

/-- The pid of a slot in use is its number. -/
theorem Settled.namesProcess_iff (h : Settled k) :
    NamesProcess k w i ↔ k.processUsed i = true ∧ IsNumber w.bytes ∧ digitSum w.bytes = i := by
  unfold NamesProcess
  refine and_congr_right fun hu => and_congr_right fun hn => ?_
  rw [h.pid i hu, toNat_ofNat_fin (by decide), digitSum_decimal _ hn.2]
  exact Nat.cast_inj.symm

theorem Settled.killExact_iff (h : Settled k) : KillExact garbage k w ↔ KillSafe k w := by
  have hmatch : ∀ i, matchPid k (killPid w.arg) = some i ↔
      digitSum w.bytes = i ∧ (k.processUsed i = true ∨ i = 0) := by
    intro i
    rw [h.numbered.matchPid_iff, killPid_eq]
  unfold KillSafe
  by_cases hn : IsNumber w.bytes
  · rw [if_pos hn]
    constructor
    · intro hexact hzero
      by_contra hu
      -- Slot 0 is found though it is free.
      have hsum : digitSum w.bytes = (0 : Fin 16) := by
        rw [digitSum_decimal _ hn.2, hzero]
        rfl
      have hgone : ProcessGone k (kill garbage k w.arg) 0 := kill_some ((hmatch 0).mpr ⟨hsum, .inr rfl⟩)
      refine hgone.not_same (hexact.other fun i hi => ?_)
      obtain ⟨hui, -, hi⟩ := h.namesProcess_iff.mp hi
      have hi0 : i = 0 := Fin.ext (Nat.cast_inj.mp (hi.symm.trans hsum))
      exact hu (hi0 ▸ hui)
    · intro hsafe
      refine ⟨fun i hi => ?_, fun hnone => ?_⟩
      · obtain ⟨hui, -, hsum⟩ := h.namesProcess_iff.mp hi
        exact kill_some ((hmatch i).mpr ⟨hsum, .inl hui⟩)
      · cases hm : matchPid k (killPid w.arg) with
        | none => exact kill_none hm
        | some i =>
          obtain ⟨hsum, hu⟩ := (hmatch i).mp hm
          have hui : k.processUsed i = true := by
            obtain hu | rfl := hu
            · exact hu
            · rw [digitSum_decimal _ hn.2] at hsum
              exact hsafe (Nat.cast_inj.mp hsum)
          exact absurd (h.namesProcess_iff.mpr ⟨hui, hn, hsum⟩) (hnone i)
  · rw [if_neg hn]
    have hnone : ∀ i, ¬ NamesProcess k w i := fun i hi => hn hi.2.1
    constructor
    · intro hexact
      have hfree : ∀ i, matchPid k (killPid w.arg) ≠ some i :=
        fun i hi => (kill_some hi).not_same (hexact.other hnone)
      refine ⟨fun hsum => hfree 0 ((hmatch 0).mpr ⟨hsum, .inr rfl⟩), fun i hu hsum => ?_⟩
      exact hfree i ((hmatch i).mpr ⟨hsum, .inl hu⟩)
    · rintro ⟨hzero, hused⟩
      refine ⟨fun i hi => absurd hi (hnone i), fun _ => ?_⟩
      cases hm : matchPid k (killPid w.arg) with
      | none => exact kill_none hm
      | some i =>
        obtain ⟨hsum, hu | rfl⟩ := (hmatch i).mp hm
        · exact absurd hsum (hused i hu)
        · exact absurd hsum hzero

end Kill

/-- The shell is the only process. -/
def shellOnly : Kernel := ProcessCall.exec quietKernel (.create shellRequest 0)

/-- With a second process beside it. -/
def shellAndSecond : Kernel := ProcessCall.exec shellOnly (.create shellRequest 0)

/-- The argument `1`. -/
def wordOne : Word := ⟨[49], by decide, by simp⟩

def emptyWord : Word := ⟨[], by decide, by simp⟩

end MoggersOs
