import Mathlib.Logic.Function.Basic

/-!
# A 32-bit machine and its stack

The registers of an x86 in protected mode with flat segments, and the instructions an interrupt entry is written in.
`step` is the same for every memory. One memory is that of the machine, the words by their addresses; the other is
the list of the words from ESP on, with which a run of straight-line code can be computed. What the list computes,
the machine does (`run_refines`).

Of the flags an arithmetic instruction sets, only ZF is followed.
-/

namespace Lib

inductive Reg where
  | eax | ecx | edx | ebx | ebp | esi | edi
deriving DecidableEq

inductive Seg where
  | cs | ss | ds | es | fs | gs
deriving DecidableEq

@[ext] structure Cpu where
  reg    : Reg → UInt32
  esp    : UInt32
  seg    : Seg → UInt32
  eip    : UInt32
  eflags : UInt32

/-- The privilege level of a selector. -/
def level (selector : UInt32) : UInt32 := selector &&& 3

def zeroFlag : UInt32 := 0x40

/-- The flags after an instruction with this result. -/
def resultFlags (eflags result : UInt32) : UInt32 :=
  (eflags &&& ~~~zeroFlag) ||| if result = 0 then zeroFlag else 0

@[simp] theorem resultFlags_zeroFlag (eflags result : UInt32) : resultFlags eflags result &&& zeroFlag = 0 ↔ result ≠ 0 := by
  have hold : eflags &&& ~~~zeroFlag &&& zeroFlag = 0 := by
    rw [UInt32.and_assoc]
    exact UInt32.and_zero
  have hdist : ∀ a b c : UInt32, (a ||| b) &&& c = (a &&& c) ||| (b &&& c) := fun _ _ _ =>
    UInt32.toBitVec_inj.mp BitVec.and_or_distrib_right
  rw [resultFlags, hdist, hold, UInt32.zero_or]
  by_cases h : result = 0
  · simp [h, zeroFlag]
  · simp [h]

theorem sub_sub (a b c : UInt32) : a - b - c = a - (b + c) := by grind

namespace Cpu

variable (c : Cpu)

def setReg (r : Reg) (w : UInt32) : Cpu := { c with reg := Function.update c.reg r w }
def setSeg (s : Seg) (w : UInt32) : Cpu := { c with seg := Function.update c.seg s w }
def setEsp (w : UInt32) : Cpu := { c with esp := w }
def setFlags (w : UInt32) : Cpu := { c with eflags := w }

variable (r : Reg) (g : Seg) (w : UInt32)

@[simp] theorem setEsp_setEsp (esp : UInt32) : (c.setEsp esp).setEsp w = c.setEsp w := rfl
@[simp] theorem setReg_reg : (c.setReg r w).reg = Function.update c.reg r w := rfl
@[simp] theorem setReg_esp : (c.setReg r w).esp = c.esp := rfl
@[simp] theorem setReg_seg : (c.setReg r w).seg = c.seg := rfl
@[simp] theorem setReg_eip : (c.setReg r w).eip = c.eip := rfl
@[simp] theorem setReg_eflags : (c.setReg r w).eflags = c.eflags := rfl
@[simp] theorem setSeg_reg : (c.setSeg g w).reg = c.reg := rfl
@[simp] theorem setSeg_esp : (c.setSeg g w).esp = c.esp := rfl
@[simp] theorem setSeg_seg : (c.setSeg g w).seg = Function.update c.seg g w := rfl
@[simp] theorem setSeg_eip : (c.setSeg g w).eip = c.eip := rfl
@[simp] theorem setSeg_eflags : (c.setSeg g w).eflags = c.eflags := rfl
@[simp] theorem setEsp_reg : (c.setEsp w).reg = c.reg := rfl
@[simp] theorem setEsp_esp : (c.setEsp w).esp = w := rfl
@[simp] theorem setEsp_seg : (c.setEsp w).seg = c.seg := rfl
@[simp] theorem setEsp_eip : (c.setEsp w).eip = c.eip := rfl
@[simp] theorem setEsp_eflags : (c.setEsp w).eflags = c.eflags := rfl
@[simp] theorem setFlags_reg : (c.setFlags w).reg = c.reg := rfl
@[simp] theorem setFlags_esp : (c.setFlags w).esp = c.esp := rfl
@[simp] theorem setFlags_seg : (c.setFlags w).seg = c.seg := rfl
@[simp] theorem setFlags_eip : (c.setFlags w).eip = c.eip := rfl
@[simp] theorem setFlags_eflags : (c.setFlags w).eflags = w := rfl

end Cpu

/-! ## Memories -/

/-- What the instructions do with a memory. ESP is the first argument, and the number of a word counts from there. -/
class Memory (μ : Type) where
  push : UInt32 → UInt32 → μ → μ
  word : UInt32 → Nat → μ → Option UInt32
  poke : UInt32 → Nat → UInt32 → μ → Option μ
  /-- ESP goes up by some words. -/
  drop : Nat → μ → μ
  /-- ESP goes anywhere. -/
  move : UInt32 → UInt32 → μ → μ

/-- The address of the word with a number. -/
def wordAddr (esp : UInt32) (k : Nat) : UInt32 := esp + UInt32.ofNat (4 * k)

/-- The memory of the machine. -/
instance : Memory (UInt32 → UInt32) where
  push esp w mem := Function.update mem (esp - 4) w
  word esp k mem := some (mem (wordAddr esp k))
  poke esp k w mem := some (Function.update mem (wordAddr esp k) w)
  drop _ mem := mem
  move _ _ mem := mem

/-- The words from ESP on, as far as they are known. -/
instance : Memory (List UInt32) where
  push _ w ws := w :: ws
  word _ k ws := ws[k]?
  poke _ k w ws := if k < ws.length then some (ws.set k w) else none
  drop n ws := ws.drop n
  move esp esp' ws := if (esp' - esp).toNat % 4 = 0 then ws.drop ((esp' - esp).toNat / 4) else []

structure State (μ : Type) where
  cpu : Cpu
  mem : μ

namespace State

variable {μ : Type} [Memory μ] (s : State μ)

def push (w : UInt32) : State μ := ⟨s.cpu.setEsp (s.cpu.esp - 4), Memory.push s.cpu.esp w s.mem⟩
def word (k : Nat) : Option UInt32 := Memory.word s.cpu.esp k s.mem
def poke (k : Nat) (w : UInt32) : Option (State μ) := (Memory.poke s.cpu.esp k w s.mem).map fun mem => ⟨s.cpu, mem⟩
def drop (n : Nat) : State μ := ⟨s.cpu.setEsp (wordAddr s.cpu.esp n), Memory.drop n s.mem⟩
def move (esp : UInt32) : State μ := ⟨s.cpu.setEsp esp, Memory.move s.cpu.esp esp s.mem⟩

end State

/-! ## Instructions -/

inductive Insn where
  /-- `push imm` -/
  | push (w : UInt32)
  | pushReg (r : Reg)
  | pushSeg (s : Seg)
  | pushf
  | pushad
  | popReg (r : Reg)
  | popSeg (s : Seg)
  | popf
  | popad
  /-- `mov r, [esp+4k]` -/
  | load (r : Reg) (k : Nat)
  /-- `mov [esp+4k], r` -/
  | store (k : Nat) (r : Reg)
  /-- `lea r, [esp+4k]` -/
  | lea (r : Reg) (k : Nat)
  /-- `mov esp, r` -/
  | movEsp (r : Reg)
  /-- `mov r, imm` into the low 16 bits -/
  | movLow (r : Reg) (w : UInt32)
  /-- `mov s, r` from the low 16 bits -/
  | movSeg (s : Seg) (r : Reg)
  | and (r : Reg) (w : UInt32)
  /-- `add esp, 4n` -/
  | addEsp (n : Nat)
  /-- `jz` over the next `n` instructions -/
  | jz (n : Nat)
  | iret

section Step
variable {μ : Type} [Memory μ]

/-- What PUSHAD stores, EDI in the lowest word. -/
def allRegs (c : Cpu) : List UInt32 :=
  [c.reg .edi, c.reg .esi, c.reg .ebp, c.esp, c.reg .ebx, c.reg .edx, c.reg .ecx, c.reg .eax]

/-- IRET with the selector of the code it goes to. The stack changes with the privilege level. -/
def returnTo (s : State μ) (cs : UInt32) : Option (State μ) := do
  let eip ← s.word 0
  let eflags ← s.word 2
  let back : Cpu → Cpu := fun c => { c.setSeg .cs cs with eip := eip, eflags := eflags }
  if level (s.cpu.seg .cs) < level cs then
    let esp ← s.word 3
    let ss ← s.word 4
    let t := s.move esp
    some { t with cpu := (back t.cpu).setSeg .ss ss }
  else
    let t := s.drop 3
    some { t with cpu := back t.cpu }

/-- `none` if a word is not known. -/
def step (s : State μ) : Insn → Option (State μ)
  | .push w => some (s.push w)
  | .pushReg r => some (s.push (s.cpu.reg r))
  | .pushSeg g => some (s.push (s.cpu.seg g))
  | .pushf => some (s.push s.cpu.eflags)
  | .pushad => some ((allRegs s.cpu).foldr (fun w t => t.push w) s)
  | .popReg r => do
    let w ← s.word 0
    let t := s.drop 1
    some { t with cpu := t.cpu.setReg r w }
  | .popSeg g => do
    let w ← s.word 0
    let t := s.drop 1
    some { t with cpu := t.cpu.setSeg g w }
  | .popf => do
    let w ← s.word 0
    let t := s.drop 1
    some { t with cpu := t.cpu.setFlags w }
  | .popad => do
    let edi ← s.word 0
    let esi ← s.word 1
    let ebp ← s.word 2
    let ebx ← s.word 4
    let edx ← s.word 5
    let ecx ← s.word 6
    let eax ← s.word 7
    let t := s.drop 8
    some { t with cpu := ((((((t.cpu.setReg .edi edi).setReg .esi esi).setReg .ebp ebp).setReg .ebx ebx).setReg
      .edx edx).setReg .ecx ecx).setReg .eax eax }
  | .load r k => do
    let w ← s.word k
    some { s with cpu := s.cpu.setReg r w }
  | .store k r => s.poke k (s.cpu.reg r)
  | .lea r k => some { s with cpu := s.cpu.setReg r (wordAddr s.cpu.esp k) }
  | .movEsp r => some (s.move (s.cpu.reg r))
  | .movLow r w => some { s with cpu := s.cpu.setReg r ((s.cpu.reg r &&& 0xFFFF0000) ||| (w &&& 0xFFFF)) }
  | .movSeg g r => some { s with cpu := s.cpu.setSeg g (s.cpu.reg r &&& 0xFFFF) }
  | .and r w =>
    let result := s.cpu.reg r &&& w
    some { s with cpu := (s.cpu.setReg r result).setFlags (resultFlags s.cpu.eflags result) }
  | .addEsp n =>
    let t := s.drop n
    some { t with cpu := t.cpu.setFlags (resultFlags s.cpu.eflags t.cpu.esp) }
  | .jz _ => some s
  | .iret => do
    let cs ← s.word 1
    returnTo s cs

/-- The code from its `skip`-th instruction on. -/
def run : Nat → List Insn → State μ → Option (State μ)
  | _, [], s => some s
  | skip + 1, _ :: is, s => run skip is s
  | 0, .jz n :: is, s => run (if s.cpu.eflags &&& zeroFlag ≠ 0 then n else 0) is s
  | 0, i :: is, s => do run 0 is (← step s i)

theorem run_push (w : UInt32) (is : List Insn) (s : State μ) : run 0 (.push w :: is) s = run 0 is (s.push w) := rfl

end Step

/-! ## Interrupts -/

structure Gate where
  selector : UInt32
  offset   : UInt32

/-- The stack for level 0. -/
structure Tss where
  esp0 : UInt32
  ss0  : UInt32

/-- TF, IF, NT, RF and VM, which an interrupt gate clears. -/
def gateClears : UInt32 := 0x34300

section
variable {μ : Type} [Memory μ]

/-- From an outer level the stack is changed first, and the old one is pushed. -/
def enterStack (tss : Tss) (selector : UInt32) (s : State μ) : State μ :=
  if level selector < level (s.cpu.seg .cs) then
    let t := s.move tss.esp0
    (({ t with cpu := t.cpu.setSeg .ss tss.ss0 } : State μ).push (s.cpu.seg .ss)).push s.cpu.esp
  else s

/-- What the processor does before the first instruction of the handler. -/
def interrupt (tss : Tss) (gate : Gate) (error : Option UInt32) (s : State μ) : State μ :=
  let t := (((enterStack tss gate.selector s).push s.cpu.eflags).push (s.cpu.seg .cs)).push s.cpu.eip
  let t := match error with
    | none => t
    | some e => t.push e
  { t with cpu := { t.cpu.setSeg .cs gate.selector with
      eip := gate.offset, eflags := s.cpu.eflags &&& ~~~gateClears } }

end

/-- What an entry of the interrupt descriptor table says. -/
structure GateDescriptor where
  gate    : Gate
  kind    : Nat
  dpl     : Nat
  present : Bool

/-- The fields of an entry, by their bits. -/
def GateDescriptor.decode (bits : Nat) : GateDescriptor where
  gate := ⟨UInt32.ofNat (bits / 0x10000 % 0x10000), UInt32.ofNat (bits % 0x10000 + bits / 0x1000000000000 * 0x10000)⟩
  kind := bits / 0x10000000000 % 32
  dpl := bits / 0x200000000000 % 4
  present := bits / 0x800000000000 % 2 = 1

/-- Task gates, and interrupt and trap gates of 16 and 32 bits. -/
def gateKinds : List Nat := [0b00101, 0b00110, 0b00111, 0b01110, 0b01111]

/-- The vector that `int n` delivers, with its error code. -/
def softwareInterrupt (idt : UInt8 → GateDescriptor) (c : Cpu) (n : UInt8) : UInt8 × Option UInt32 :=
  let error := 8 * n.toUInt32 + 2
  if (idt n).kind ∉ gateKinds then (13, some error)
  else if (idt n).dpl < (level (c.seg .cs)).toNat then (13, some error)
  else if !(idt n).present then (11, some error)
  else (n, none)

/-! ## Runs of the list -/

@[simp] theorem move_cpu {μ : Type} [Memory μ] (s : State μ) (esp : UInt32) : (s.move esp).cpu = s.cpu.setEsp esp := rfl

section
variable (c : Cpu) (ws : List UInt32) (w : UInt32)

@[simp] theorem list_push : (⟨c, ws⟩ : State (List UInt32)).push w = ⟨c.setEsp (c.esp - 4), w :: ws⟩ := rfl

@[simp] theorem list_word (k : Nat) : (⟨c, ws⟩ : State (List UInt32)).word k = ws[k]? := rfl

@[simp] theorem list_drop (n : Nat) :
    (⟨c, ws⟩ : State (List UInt32)).drop n = ⟨c.setEsp (wordAddr c.esp n), ws.drop n⟩ := rfl

@[simp] theorem list_poke {k : Nat} (h : k < ws.length) :
    (⟨c, ws⟩ : State (List UInt32)).poke k w = some ⟨c, ws.set k w⟩ := by
  simp [State.poke, Memory.poke, h]

end

/-! ## The words from ESP on -/

/-- Memory holds the words from an address on. -/
def Holds (mem : UInt32 → UInt32) (esp : UInt32) (ws : List UInt32) : Prop :=
  ∀ k (h : k < ws.length), mem (wordAddr esp k) = ws[k]

theorem wordAddr_toNat {esp : UInt32} {k : Nat} (hk : k < 0x40000000) :
    (wordAddr esp k).toNat = (esp.toNat + 4 * k) % 0x100000000 := by
  have hmul : (UInt32.ofNat (4 * k)).toNat = 4 * k := by
    rw [UInt32.toNat_ofNat']
    omega
  rw [wordAddr, UInt32.toNat_add, hmul]

theorem wordAddr_add (esp : UInt32) (j k : Nat) : wordAddr (wordAddr esp j) k = wordAddr esp (j + k) := by
  simp only [wordAddr, Nat.mul_add, UInt32.ofNat_add, UInt32.add_assoc]

/-- Fewer than 2^30 words have different addresses. -/
theorem wordAddr_injective {esp : UInt32} {j k : Nat} (hj : j < 0x40000000) (hk : k < 0x40000000)
    (h : wordAddr esp j = wordAddr esp k) : j = k := by
  have hn := congrArg UInt32.toNat h
  rw [wordAddr_toNat hj, wordAddr_toNat hk] at hn
  omega


theorem length_push (t : State (List UInt32)) (w : UInt32) : (t.push w).mem.length = t.mem.length + 1 := rfl

theorem length_pushAll (t : State (List UInt32)) (ws : List UInt32) :
    (ws.foldr (fun w t => t.push w) t).mem.length = t.mem.length + ws.length := by
  induction ws with
  | nil => rfl
  | cons w ws ih => exact congrArg (· + 1) ih

/-- The machine is in the state computed on the list. -/
structure Refines (s : State (UInt32 → UInt32)) (t : State (List UInt32)) : Prop where
  cpu : s.cpu = t.cpu
  mem : Holds s.mem s.cpu.esp t.mem

namespace Refines

variable {s : State (UInt32 → UInt32)} {t t' : State (List UInt32)}

theorem withCpu (h : Refines s t) {f : Cpu → Cpu} (hf : (f t.cpu).esp = t.cpu.esp) :
    Refines { s with cpu := f s.cpu } { t with cpu := f t.cpu } := by
  refine ⟨by rw [h.cpu], ?_⟩
  have hesp : (f s.cpu).esp = s.cpu.esp := by rw [h.cpu, hf]
  rw [hesp]
  exact h.mem

theorem push (h : Refines s t) (hlen : t.mem.length + 1 < 0x40000000) (w : UInt32) : Refines (s.push w) (t.push w) := by
  refine ⟨by simp [State.push, h.cpu], fun k hk => ?_⟩
  have hk' : k < t.mem.length + 1 := hk
  have hback (j : Nat) : wordAddr (s.cpu.esp - 4) (j + 1) = wordAddr s.cpu.esp j := by
    rw [Nat.add_comm, ← wordAddr_add]
    congr 1
    exact UInt32.sub_add_cancel _ _
  cases k with
  | zero =>
    have hzero : wordAddr (s.cpu.esp - 4) 0 = s.cpu.esp - 4 := UInt32.add_zero _
    exact (congrArg _ hzero).trans (Function.update_self ..)
  | succ k =>
    have hne : wordAddr (s.cpu.esp - 4) (k + 1) ≠ s.cpu.esp - 4 := by
      intro he
      have hzero := wordAddr_injective (k := 0) (by omega) (by omega) (he.trans (UInt32.add_zero _).symm)
      omega
    exact (Function.update_of_ne hne ..).trans ((congrArg _ (hback k)).trans (h.mem k (by omega)))

theorem pushAll {ws : List UInt32} (h : Refines s t) (hlen : t.mem.length + ws.length < 0x40000000) :
    Refines (ws.foldr (fun w t => t.push w) s) (ws.foldr (fun w t => t.push w) t) := by
  induction ws with
  | nil => exact h
  | cons w ws ih =>
    rw [List.length_cons] at hlen
    refine (ih (by omega)).push ?_ w
    rw [length_pushAll]
    omega

theorem word (h : Refines s t) {k : Nat} {w : UInt32} (hw : t.word k = some w) : s.word k = some w := by
  obtain ⟨hk, he⟩ := List.getElem?_eq_some_iff.mp hw
  exact congrArg some ((h.mem k hk).trans he)

theorem drop (h : Refines s t) (n : Nat) : Refines (s.drop n) (t.drop n) := by
  refine ⟨by simp [State.drop, h.cpu], fun k hk => ?_⟩
  have hlt : n + k < t.mem.length := by
    have hk' : k < (t.mem.drop n).length := hk
    rw [List.length_drop] at hk'
    omega
  exact (congrArg s.mem (wordAddr_add ..)).trans ((h.mem (n + k) hlt).trans List.getElem_drop.symm)

theorem move (h : Refines s t) (esp : UInt32) : Refines (s.move esp) (t.move esp) := by
  refine ⟨by simp [State.move, h.cpu], ?_⟩
  simp only [State.move, Memory.move, Cpu.setEsp]
  split
  · next hd =>
    -- the words from `esp` on are those from the old ESP on, less the first few
    obtain ⟨n, hn⟩ : ∃ n, esp = wordAddr s.cpu.esp n ∧ (esp - t.cpu.esp).toNat / 4 = n := by
      refine ⟨_, ?_, rfl⟩
      have hdist : 4 * ((esp - t.cpu.esp).toNat / 4) = (esp - t.cpu.esp).toNat := by omega
      rw [wordAddr, hdist, UInt32.ofNat_toNat, h.cpu, UInt32.add_comm, UInt32.sub_add_cancel]
    rw [hn.2, hn.1]
    exact (h.drop n).mem
  · intro k hk
    exact absurd hk (Nat.not_lt_zero k)

theorem poke (h : Refines s t) (hlen : t.mem.length < 0x40000000) {k : Nat} {w : UInt32} (ht : t.poke k w = some t') :
    ∃ s', s.poke k w = some s' ∧ Refines s' t' ∧ t'.mem.length = t.mem.length := by
  obtain ⟨ws, hws, rfl⟩ := Option.map_eq_some_iff.mp ht
  obtain ⟨hk, hset⟩ := Option.ite_none_right_eq_some.mp hws
  obtain rfl := Option.some.inj hset
  refine ⟨_, rfl, ⟨h.cpu, fun j hj => ?_⟩, List.length_set⟩
  have hj' : j < t.mem.length := by simpa using hj
  by_cases he : k = j
  · subst he
    simp
  · have hne : wordAddr s.cpu.esp j ≠ wordAddr s.cpu.esp k := fun ha =>
      he (wordAddr_injective (by omega) (by omega) ha).symm
    simp [Function.update_of_ne hne, he, h.mem j hj']

end Refines

/-- What the list computes, if it does, the machine does too; `n` words at most. -/
def Computes (n : Nat) (x : Option (State (UInt32 → UInt32))) (y : Option (State (List UInt32))) : Prop :=
  ∀ t, y = some t → ∃ s, x = some s ∧ Refines s t ∧ t.mem.length ≤ n

section
variable {s : State (UInt32 → UInt32)} {t : State (List UInt32)} {n : Nat}

theorem Refines.computes (h : Refines s t) (hlen : t.mem.length ≤ n) : Computes n (some s) (some t) := by
  rintro t' ht
  obtain rfl := Option.some.inj ht
  exact ⟨s, rfl, h, hlen⟩

theorem Refines.computes_word (h : Refines s t) {k : Nat} {f : UInt32 → Option (State (UInt32 → UInt32))}
    {g : UInt32 → Option (State (List UInt32))} (hg : ∀ w, Computes n (f w) (g w)) :
    Computes n ((s.word k).bind f) ((t.word k).bind g) := by
  intro t' ht
  obtain ⟨w, hw, hgw⟩ := Option.bind_eq_some_iff.mp ht
  rw [h.word hw]
  exact hg w t' hgw

theorem length_drop_le (t : State (List UInt32)) (k : Nat) : (t.drop k).mem.length ≤ t.mem.length := by
  have h : (t.drop k).mem.length = t.mem.length - k := List.length_drop
  omega

theorem length_move_le (t : State (List UInt32)) (esp : UInt32) : (t.move esp).mem.length ≤ t.mem.length := by
  simp only [State.move, Memory.move]
  split
  · rw [List.length_drop]
    omega
  · exact Nat.zero_le _

theorem returnTo_computes (h : Refines s t) (hlen : t.mem.length ≤ n) (cs : UInt32) :
    Computes n (returnTo s cs) (returnTo t cs) := by
  unfold returnTo
  refine h.computes_word fun eip => h.computes_word fun eflags => ?_
  rw [h.cpu]
  split
  · refine h.computes_word fun esp => h.computes_word fun ss => ?_
    exact ((h.move esp).withCpu (f := fun c => ({ c.setSeg .cs cs with eip := eip, eflags := eflags } : Cpu).setSeg .ss ss)
      rfl).computes (Nat.le_trans (length_move_le t esp) hlen)
  · exact ((h.drop 3).withCpu (f := fun c => { c.setSeg .cs cs with eip := eip, eflags := eflags })
      rfl).computes (Nat.le_trans (length_drop_le t 3) hlen)

/-- One instruction adds 8 words at most. -/
theorem step_computes (h : Refines s t) (hlen : t.mem.length + 8 < 0x40000000) (i : Insn) :
    Computes (t.mem.length + 8) (step s i) (step t i) := by
  have hdrop (k : Nat) : (t.drop k).mem.length ≤ t.mem.length + 8 := by
    have hle := length_drop_le t k
    omega
  have hpush (f : Cpu → UInt32) :
      Computes (t.mem.length + 8) (some (s.push (f s.cpu))) (some (t.push (f t.cpu))) := by
    rw [h.cpu]
    exact (h.push (by omega) _).computes (by rw [length_push]; omega)
  have hcpu {f : Cpu → Cpu} (hf : (f t.cpu).esp = t.cpu.esp) : Computes (t.mem.length + 8)
      (some { s with cpu := f s.cpu }) (some { t with cpu := f t.cpu }) := (h.withCpu hf).computes (by simp)
  cases i with
  | push w => exact hpush fun _ => w
  | pushReg r => exact hpush fun c => c.reg r
  | pushSeg g => exact hpush fun c => c.seg g
  | pushf => exact hpush fun c => c.eflags
  | pushad =>
    have hlen' : t.mem.length + (allRegs t.cpu).length < 0x40000000 := hlen
    have hall := (h.pushAll hlen').computes (n := t.mem.length + 8) (Nat.le_of_eq (length_pushAll t _))
    simpa only [step, h.cpu] using hall
  | popReg r => exact h.computes_word fun w => ((h.drop 1).withCpu (f := fun c => c.setReg r w) rfl).computes (hdrop 1)
  | popSeg g => exact h.computes_word fun w => ((h.drop 1).withCpu (f := fun c => c.setSeg g w) rfl).computes (hdrop 1)
  | popf => exact h.computes_word fun w => ((h.drop 1).withCpu (f := fun c => c.setFlags w) rfl).computes (hdrop 1)
  | popad =>
    dsimp only [step]
    refine h.computes_word fun edi => h.computes_word fun esi => h.computes_word fun ebp => h.computes_word fun ebx =>
      h.computes_word fun edx => h.computes_word fun ecx => h.computes_word fun eax => ?_
    exact ((h.drop 8).withCpu (f := fun c => ((((((c.setReg .edi edi).setReg .esi esi).setReg .ebp ebp).setReg
      .ebx ebx).setReg .edx edx).setReg .ecx ecx).setReg .eax eax) rfl).computes (hdrop 8)
  | load r k => exact h.computes_word fun w => hcpu (f := fun c => c.setReg r w) rfl
  | store k r =>
    intro t' ht
    obtain ⟨s', hs', hr, hl⟩ := h.poke (by omega) ht
    exact ⟨s', by simpa only [step, h.cpu] using hs', hr, by omega⟩
  | lea r k => exact hcpu (f := fun c => c.setReg r (wordAddr c.esp k)) rfl
  | movEsp r =>
    have hmove := (h.move (t.cpu.reg r)).computes (Nat.le_trans (length_move_le t _) (Nat.le_add_right _ 8))
    simpa only [step, h.cpu] using hmove
  | movLow r w => exact hcpu (f := fun c => c.setReg r ((c.reg r &&& 0xFFFF0000) ||| (w &&& 0xFFFF))) rfl
  | movSeg g r => exact hcpu (f := fun c => c.setSeg g (c.reg r &&& 0xFFFF)) rfl
  | and r w =>
    exact hcpu (f := fun c => (c.setReg r (c.reg r &&& w)).setFlags (resultFlags c.eflags (c.reg r &&& w))) rfl
  | addEsp k =>
    have hadd := ((h.drop k).withCpu (f := fun c => c.setFlags (resultFlags t.cpu.eflags c.esp)) rfl).computes (hdrop k)
    simpa only [step, h.cpu] using hadd
  | jz k => exact h.computes (by omega)
  | iret => exact h.computes_word fun cs => returnTo_computes h (by omega) cs

/-- A run of the list is a run of the machine. -/
theorem run_computes (is : List Insn) : ∀ {skip n : Nat} {s : State (UInt32 → UInt32)} {t : State (List UInt32)},
    Refines s t → t.mem.length + 8 * is.length ≤ n → n < 0x40000000 → Computes n (run skip is s) (run skip is t) := by
  induction is with
  | nil =>
    intro skip n s t h hlen _
    cases skip <;> exact h.computes hlen
  | cons i is ih =>
    intro skip n s t h hlen hn
    rw [List.length_cons] at hlen
    cases skip with
    | succ skip => exact ih h (by omega) hn
    | zero =>
      by_cases hjz : ∃ k, i = .jz k
      · obtain ⟨k, rfl⟩ := hjz
        simp only [run, h.cpu]
        exact ih h (by omega) hn
      · have hrun {μ : Type} [Memory μ] (s : State μ) : run 0 (i :: is) s = (step s i).bind (run 0 is) := by
          cases i with
          | jz k => exact absurd ⟨k, rfl⟩ hjz
          | _ => rfl
        rw [hrun, hrun]
        intro t' ht
        obtain ⟨t₁, ht₁, hrest⟩ := Option.bind_eq_some_iff.mp ht
        obtain ⟨s₁, hs₁, hr₁, hl₁⟩ := step_computes h (by omega) i t₁ ht₁
        rw [hs₁]
        exact ih hr₁ (by omega) hn t' hrest

end

/-- **What the list computes, the machine does.** -/
theorem run_refines {is : List Insn} {s : State (UInt32 → UInt32)} {t t' : State (List UInt32)} (h : Refines s t)
    (hlen : t.mem.length + 8 * is.length < 0x40000000) (ht : run 0 is t = some t') :
    ∃ s', run 0 is s = some s' ∧ Refines s' t' := by
  obtain ⟨s', hs, hr, -⟩ := run_computes is h (Nat.le_refl _) hlen t' ht
  exact ⟨s', hs, hr⟩

theorem enterStack_refines {s : State (UInt32 → UInt32)} {t : State (List UInt32)} (tss : Tss) (selector : UInt32)
    (h : Refines s t) (hlen : t.mem.length + 2 < 0x40000000) :
    Refines (enterStack tss selector s) (enterStack tss selector t) ∧
      (enterStack tss selector t).mem.length ≤ t.mem.length + 2 := by
  unfold enterStack
  rw [h.cpu]
  have hle := length_move_le t tss.esp0
  split
  · have hmove := (h.move tss.esp0).withCpu (f := fun c => c.setSeg .ss tss.ss0) rfl
    have hss := hmove.push (by simp only; omega) (t.cpu.seg .ss)
    have hesp := hss.push (by simp only [length_push]; omega) t.cpu.esp
    exact ⟨hesp, by simp only [length_push]; omega⟩
  · exact ⟨h, by omega⟩

theorem interrupt_refines {s : State (UInt32 → UInt32)} {t : State (List UInt32)} (tss : Tss) (gate : Gate)
    (error : Option UInt32) (h : Refines s t) (hlen : t.mem.length + 6 < 0x40000000) :
    Refines (interrupt tss gate error s) (interrupt tss gate error t) ∧
      (interrupt tss gate error t).mem.length ≤ t.mem.length + 6 := by
  obtain ⟨hstack, hle⟩ := enterStack_refines tss gate.selector h (by omega)
  have hflags := hstack.push (by omega) t.cpu.eflags
  have hcs := hflags.push (by rw [length_push]; omega) (t.cpu.seg .cs)
  have heip := hcs.push (by simp only [length_push]; omega) t.cpu.eip
  have hback {s' : State (UInt32 → UInt32)} {t' : State (List UInt32)} (h' : Refines s' t') :=
    h'.withCpu (f := fun c => { c.setSeg .cs gate.selector with
      eip := gate.offset, eflags := t.cpu.eflags &&& ~~~gateClears }) rfl
  unfold interrupt
  rw [h.cpu]
  cases error with
  | none =>
    refine ⟨hback heip, ?_⟩
    simp only [length_push]
    omega
  | some e =>
    refine ⟨hback (heip.push ?_ e), ?_⟩
    · simp only [length_push]
      omega
    · simp only [length_push]
      omega

/-! ## Calls -/

/-- What the assembly around a call relies on: ESP, CS, SS and the first `n` words of the stack are as they were. -/
structure Returned (n : Nat) (s s' : State (UInt32 → UInt32)) : Prop where
  esp   : s'.cpu.esp = s.cpu.esp
  cs    : s'.cpu.seg .cs = s.cpu.seg .cs
  ss    : s'.cpu.seg .ss = s.cpu.seg .ss
  words : ∀ k < n, s'.mem (wordAddr s.cpu.esp k) = s.mem (wordAddr s.cpu.esp k)

theorem Returned.refines {s s' : State (UInt32 → UInt32)} {t : State (List UInt32)} {n : Nat} (h : Returned n s s')
    (hr : Refines s t) (hn : t.mem.length ≤ n) : Refines s' ⟨s'.cpu, t.mem⟩ := by
  refine ⟨rfl, fun k hk => ?_⟩
  have hk' : k < t.mem.length := hk
  rw [h.esp, h.words k (by omega)]
  exact hr.mem k hk'

theorem Holds.of_append {mem : UInt32 → UInt32} {esp : UInt32} {ws ws' : List UInt32} (h : Holds mem esp (ws ++ ws')) :
    Holds mem esp ws := by
  intro k hk
  rw [h k (by rw [List.length_append]; omega), List.getElem_append_left hk]

theorem Holds.unique {mem : UInt32 → UInt32} {esp : UInt32} {ws ws' : List UInt32} (h : Holds mem esp ws)
    (h' : Holds mem esp ws') (hlen : ws.length = ws'.length) : ws = ws' := by
  refine List.ext_getElem hlen fun k hk hk' => ?_
  rw [← h k hk, ← h' k hk']

end Lib
