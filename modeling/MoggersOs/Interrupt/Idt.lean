import MoggersOs.Interrupt.Entry
/-
# The interrupt descriptor table (`interrupt/idt.c`)

| here | there |
| --- | --- |
| `IdtGate`          | `struct IDTGate` (`idt.h:34-47`), the bit-fields from the lowest bit on |
| `setInterruptGate` | `set_interrupt_gate` (`idt.c:24-36`) |
| `initializeIdt`    | the loop of `initialize_idt` (`idt.c:41-46`) |
-/

namespace MoggersOs

open Lib (Cpu level)

structure IdtGate where
  offsetLow  : UInt16
  segment    : UInt16
  reserved   : BitVec 5
  rBit1      : BitVec 3
  rBit2      : BitVec 3
  gate32     : BitVec 1
  rBit3      : BitVec 1
  dplBit     : BitVec 2
  validBit   : BitVec 1
  offsetHigh : UInt16

/-- The eight bytes of a gate. -/
def IdtGate.bits (g : IdtGate) : Nat :=
  g.offsetLow.toNat + 0x10000 * (g.segment.toNat + 0x10000 * (g.reserved.toNat + 32 * (g.rBit1.toNat +
    8 * (g.rBit2.toNat + 8 * (g.gate32.toNat + 2 * (g.rBit3.toNat + 2 * (g.dplBit.toNat + 4 * (g.validBit.toNat +
    2 * g.offsetHigh.toNat))))))))

/-- The table as it is in `.bss`. -/
def zeroIdt (_ : UInt8) : IdtGate := ⟨0, 0, 0, 0, 0, 0, 0, 0, 0, 0⟩

/-- What the function makes of a gate. The fields take the low bits of what is stored to them. -/
def interruptGate (handlerAddress : UInt32) (gdtSegSelector : UInt16) (privilege : UInt8) (g : IdtGate) : IdtGate :=
  { g with
    offsetLow := (handlerAddress &&& 0xFFFF).toUInt16
    offsetHigh := (handlerAddress >>> 16).toUInt16
    dplBit := BitVec.ofNat 2 privilege.toNat
    segment := gdtSegSelector
    rBit1 := 0b000
    rBit2 := 0b110
    rBit3 := 0b0
    gate32 := 1
    validBit := 1 }

def setInterruptGate (table : UInt8 → IdtGate) (intVector : UInt8) (handlerAddress : UInt32) (gdtSegSelector : UInt16)
    (privilege : UInt8) : UInt8 → IdtGate :=
  Function.update table intVector (interruptGate handlerAddress gdtSegSelector privilege (table intVector))

def initializeIdt (isrStubTable : UInt8 → UInt32) (table : UInt8 → IdtGate) : UInt8 → IdtGate :=
  (List.range 64).foldl (fun t i =>
    setInterruptGate t (UInt8.ofNat i) (isrStubTable (UInt8.ofNat i)) 0x8 (if i = 0x30 then 0x3 else 0)) table

theorem low_toNat (w : UInt32) : (w &&& 0xFFFF).toUInt16.toNat = w.toNat % 0x10000 := by
  have hand : w.toNat &&& 0xFFFF = w.toNat % 0x10000 := Nat.and_two_pow_sub_one_eq_mod w.toNat 16
  rw [UInt32.toNat_toUInt16, UInt32.toNat_and]
  exact (congrArg (· % 0x10000) hand).trans (Nat.mod_mod _ _)

theorem high_toNat (w : UInt32) : (w >>> 16).toUInt16.toNat = w.toNat / 0x10000 := by
  have hlt : w.toNat < 0x100000000 := w.toNat_lt
  have hshift : (w >>> 16).toNat = w.toNat / 0x10000 := by
    rw [UInt32.toNat_shiftRight]
    exact Nat.shiftRight_eq_div_pow ..
  rw [UInt32.toNat_toUInt16, hshift]
  exact Nat.mod_eq_of_lt (by omega)

/-- The bits of a gate with numbers for its fields. -/
theorem decode_bits {low segment reserved dpl high : Nat} (hlow : low < 0x10000) (hsegment : segment < 0x10000)
    (hreserved : reserved < 32) (hdpl : dpl < 4) (bits : Nat)
    (h : bits = low + 0x10000 * (segment + 0x10000 * (reserved + 32 * (0 + 8 * (6 + 8 * (1 + 2 * (0 + 2 * (dpl +
      4 * (1 + 2 * high))))))))) :
    bits / 0x10000 % 0x10000 = segment ∧ bits % 0x10000 = low ∧ bits / 0x1000000000000 = high ∧
      bits / 0x10000000000 % 32 = 0b01110 ∧ bits / 0x200000000000 % 4 = dpl ∧ bits / 0x800000000000 % 2 = 1 := by
  omega

section
variable (h : UInt32) (s : UInt16) (p : UInt8) (g : IdtGate)

theorem bits_interruptGate : (interruptGate h s p g).bits = h.toNat % 0x10000 + 0x10000 * (s.toNat + 0x10000 *
    (g.reserved.toNat + 32 * (0 + 8 * (6 + 8 * (1 + 2 * (0 + 2 * (p.toNat % 4 + 4 * (1 + 2 *
      (h.toNat / 0x10000))))))))) := by
  have hlow : (interruptGate h s p g).offsetLow.toNat = h.toNat % 0x10000 := low_toNat h
  have hhigh : (interruptGate h s p g).offsetHigh.toNat = h.toNat / 0x10000 := high_toNat h
  have hdpl : (interruptGate h s p g).dplBit.toNat = p.toNat % 4 := BitVec.toNat_ofNat ..
  have hsegment : (interruptGate h s p g).segment = s := rfl
  have hreserved : (interruptGate h s p g).reserved = g.reserved := rfl
  have hbit1 : (interruptGate h s p g).rBit1.toNat = 0 := rfl
  have hbit2 : (interruptGate h s p g).rBit2.toNat = 6 := rfl
  have hbit3 : (interruptGate h s p g).rBit3.toNat = 0 := rfl
  have hgate : (interruptGate h s p g).gate32.toNat = 1 := rfl
  have hvalid : (interruptGate h s p g).validBit.toNat = 1 := rfl
  unfold IdtGate.bits
  rw [hlow, hhigh, hdpl, hsegment, hreserved, hbit1, hbit2, hbit3, hgate, hvalid]

/-- The processor reads from a gate what was to be stored in it. -/
theorem interruptGate_decode : Lib.GateDescriptor.decode (interruptGate h s p g).bits =
    ⟨⟨s.toUInt32, h⟩, 0b01110, p.toNat % 4, true⟩ := by
  have haddr : h.toNat < 0x100000000 := h.toNat_lt
  obtain ⟨hs, hl, hh, hk, hd, hp⟩ := decode_bits (Nat.mod_lt _ (by decide)) s.toNat_lt g.reserved.isLt
    (Nat.mod_lt _ (by decide)) _ (bits_interruptGate h s p g)
  have hjoin : h.toNat % 0x10000 + h.toNat / 0x10000 * 0x10000 = h.toNat := by omega
  simp only [Lib.GateDescriptor.decode, hs, hl, hh, hk, hd, hp, hjoin, UInt32.ofNat_toNat]
  simp

end

theorem initializeIdt_prefix (isrStubTable : UInt8 → UInt32) (table : UInt8 → IdtGate) (v : UInt8) {n : Nat}
    (hn : n ≤ 256) : (List.range n).foldl (fun t i =>
      setInterruptGate t (UInt8.ofNat i) (isrStubTable (UInt8.ofNat i)) 0x8 (if i = 0x30 then 0x3 else 0)) table v =
    if v.toNat < n then interruptGate (isrStubTable v) 0x8 (if v.toNat = 0x30 then 0x3 else 0) (table v)
    else table v := by
  induction n with
  | zero => simp
  | succ n ih =>
    rw [List.range_succ, List.foldl_append, List.foldl_cons, List.foldl_nil, setInterruptGate]
    have hof : (UInt8.ofNat n).toNat = n := by
      rw [UInt8.toNat_ofNat']
      omega
    by_cases hv : v = UInt8.ofNat n
    · -- the gate that is set now was not set before
      subst hv
      rw [hof] at ih ⊢
      rw [Function.update_self, ih (by omega), if_neg (Nat.lt_irrefl n), if_pos (Nat.lt_succ_self n)]
    · have hne : v.toNat ≠ n := fun he => hv (UInt8.toNat_inj.mp (he.trans hof.symm))
      rw [Function.update_of_ne hv, ih (by omega)]
      split
      · next hlt => rw [if_pos (Nat.lt_succ_of_lt hlt)]
      · next hlt => rw [if_neg (show ¬ v.toNat < n + 1 by omega)]

/-- The first 64 gates, and only those, are set. -/
theorem initializeIdt_apply (isrStubTable : UInt8 → UInt32) (table : UInt8 → IdtGate) (v : UInt8) :
    initializeIdt isrStubTable table v = if v.toNat < 64 then
      interruptGate (isrStubTable v) 0x8 (if v.toNat = 0x30 then 0x3 else 0) (table v) else table v :=
  initializeIdt_prefix isrStubTable table v (by decide)

/-- The table the processor reads after `initialize_idt`. -/
def loadedIdt (isrStubTable : UInt8 → UInt32) (v : UInt8) : Lib.GateDescriptor :=
  Lib.GateDescriptor.decode (initializeIdt isrStubTable zeroIdt v).bits

theorem loadedIdt_eq (isrStubTable : UInt8 → UInt32) (v : UInt8) : loadedIdt isrStubTable v =
    if v.toNat < 64 then ⟨⟨0x8, isrStubTable v⟩, 0b01110, if v.toNat = 0x30 then 3 else 0, true⟩
    else ⟨⟨0, 0⟩, 0, 0, false⟩ := by
  unfold loadedIdt
  rw [initializeIdt_apply]
  split
  · rw [interruptGate_decode]
    split
    · rfl
    · rfl
  · have hzero : (zeroIdt 0).bits = 0 := by decide
    have hsame : zeroIdt v = zeroIdt 0 := rfl
    rw [hsame, hzero]
    rfl

/-- At level 3 only 0x30 gets past its gate. -/
theorem softwareInterrupt_loadedIdt (isrStubTable : UInt8 → UInt32) {c : Cpu} (hc : level (c.seg .cs) = 3) (n : UInt8) :
    Lib.softwareInterrupt (loadedIdt isrStubTable) c n =
      if n = 0x30 then (0x30, none) else (13, some (8 * n.toUInt32 + 2)) := by
  have hthree : level (c.seg .cs) = 3 → (level (c.seg .cs)).toNat = 3 := fun h => by rw [h]; rfl
  unfold Lib.softwareInterrupt
  rw [loadedIdt_eq, hthree hc]
  by_cases hn : n = 0x30
  · subst hn
    rfl
  · have hne : n.toNat ≠ 0x30 := fun h => hn (UInt8.toNat_inj.mp h)
    rw [if_neg hn]
    split
    · rfl
    · rfl

/-- Through the gate of any of the 64 vectors, to the code for that vector. -/
theorem gate_frame {isrStubTable : UInt8 → UInt32} {m : Lib.State (UInt32 → UInt32)} (tss : Lib.Tss)
    (hm : level (m.cpu.seg .cs) = 3) {v : UInt8} (hv : v.toNat < 64) {error : Option UInt32}
    (herror : error.isSome = decide (v ∈ errorCodeVectors)) :
    (Lib.interrupt tss (loadedIdt isrStubTable v).gate error m).cpu.eip = isrStubTable v ∧
      ∃ s, Lib.run 0 (interruptHandler v) (Lib.interrupt tss (loadedIdt isrStubTable v).gate error m) = some s ∧
        Lib.Holds s.mem s.cpu.esp
          (frameWords (frameOf m.cpu (savedEsp tss m.cpu)) v.toUInt32 (error.getD 0)) := by
  have hgate : (loadedIdt isrStubTable v).gate = ⟨0x8, isrStubTable v⟩ := by rw [loadedIdt_eq, if_pos hv]
  have hkernel : level (loadedIdt isrStubTable v).gate.selector = 0 := by
    rw [hgate]
    exact (show level 0x8 = 0 by decide)
  have hcs : level (m.cpu.seg .cs) ≠ 0 := by
    rw [hm]
    decide
  have hnone : Lib.Holds m.mem m.cpu.esp [] := fun _ h => absurd h (Nat.not_lt_zero _)
  obtain ⟨s, t, hs, hst, hmem, -⟩ := interruptHandler_machine tss error hkernel herror (fun h => absurd h hcs) hnone
    (by decide)
  have hall := hst.mem
  rw [hmem] at hall
  refine ⟨?_, s, hs, hall.of_append⟩
  rw [hgate]
  rfl

/-- **`int n` in a user program is a system call or a general protection fault.** Whatever `n`, the code that the
table names for the vector is entered, and `main_interrupt_handler` gets the number 0x30 only for `int 0x30`; for the
others it gets 13 and an error code that says which one it was. No program can call the handlers of the timer or of
the keyboard. -/
theorem user_interrupt {isrStubTable : UInt8 → UInt32} {tss : Lib.Tss} {m : Lib.State (UInt32 → UInt32)}
    (hm : level (m.cpu.seg .cs) = 3) (n : UInt8) :
    let x := Lib.softwareInterrupt (loadedIdt isrStubTable) m.cpu n
    let gate := (loadedIdt isrStubTable x.1).gate
    (Lib.interrupt tss gate x.2 m).cpu.eip = isrStubTable x.1 ∧
      ∃ s, Lib.run 0 (interruptHandler x.1) (Lib.interrupt tss gate x.2 m) = some s ∧
        Lib.Holds s.mem s.cpu.esp (frameWords (frameOf m.cpu (savedEsp tss m.cpu)) (if n = 0x30 then 0x30 else 13)
          (if n = 0x30 then 0 else 8 * n.toUInt32 + 2)) := by
  rw [softwareInterrupt_loadedIdt isrStubTable hm n]
  by_cases hn : n = 0x30
  · rw [if_pos hn, if_pos hn, if_pos hn]
    exact gate_frame tss hm (v := 0x30) (by decide) (by decide)
  · rw [if_neg hn, if_neg hn, if_neg hn]
    exact gate_frame tss hm (v := 13) (by decide) rfl

/-- A program that calls the vector of the timer. -/
theorem user_interrupt_timer :
    let x := Lib.softwareInterrupt (loadedIdt fun _ => 0xC0100000) userMachine.cpu 0x20
    let gate := (loadedIdt (fun _ => 0xC0100000) x.1).gate
    (Lib.interrupt ⟨0xC0400000, 0x10⟩ gate x.2 userMachine).cpu.eip = 0xC0100000 ∧
      ∃ s, Lib.run 0 (interruptHandler x.1) (Lib.interrupt ⟨0xC0400000, 0x10⟩ gate x.2 userMachine) = some s ∧
        Lib.Holds s.mem s.cpu.esp
          (frameWords (frameOf userMachine.cpu (savedEsp ⟨0xC0400000, 0x10⟩ userMachine.cpu))
            (if (0x20 : UInt8) = 0x30 then 0x30 else 13)
            (if (0x20 : UInt8) = 0x30 then 0 else 8 * UInt8.toUInt32 0x20 + 2)) :=
  user_interrupt (m := userMachine) (by decide) 0x20

end MoggersOs
