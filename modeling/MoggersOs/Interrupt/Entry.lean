import MoggersOs.Lib.Machine
import MoggersOs.Kernel.Scheduler
/-
# The way into a handler and back (`interrupt/intsetup.s`, `kernel/kernel-entrypoint.s`)

| here | there |
| --- | --- |
| `errorCodeVectors`     | the uses of `error_code_interrupt_handler` (`intsetup.s:97-128`) |
| `interruptHandler`     | `interrupt_handler_<v>` and `call_generic_handler` up to the call (`intsetup.s:5-46, 77-87`) |
| `interruptReturn`      | `call_generic_handler` after the call (`intsetup.s:48-64`) |
-/

namespace MoggersOs

open Lib (Insn Cpu level)

def errorCodeVectors : List UInt8 := [8, 10, 11, 12, 13, 14, 17, 30]

def callGenericHandler : List Insn :=
  [.pushSeg .ds, .pushSeg .es, .pushSeg .fs, .pushSeg .gs, .pushad, .pushf, .pushReg .eax,
   .load .eax 13, .and .eax 3, .jz 2,
   .load .eax 19, .store 5 .eax,
   .movLow .eax 0x10, .movSeg .ds .eax, .movSeg .es .eax, .movSeg .fs .eax, .movSeg .gs .eax, .popReg .eax, .popf,
   .lea .ebp 0]

def interruptHandler (v : UInt8) : List Insn :=
  (if v ∈ errorCodeVectors then [] else [.push 0]) ++ .push v.toUInt32 :: callGenericHandler

def interruptReturn : List Insn := [.popad, .popSeg .gs, .popSeg .fs, .popSeg .es, .popSeg .ds, .addEsp 2, .iret]

def frameWords (f : InterruptFrame) (intNumber errorCode : UInt32) : List UInt32 :=
  [f.cpu.edi, f.cpu.esi, f.cpu.ebp, f.cpu.esp, f.cpu.ebx, f.cpu.edx, f.cpu.ecx, f.cpu.eax, f.cpu.gs, f.cpu.fs,
   f.cpu.es, f.cpu.ds, intNumber, errorCode, f.eip, f.cs, f.eflags]

/-- The frame of a program that was stopped in state `c`. -/
def frameOf (c : Cpu) (esp : UInt32) : InterruptFrame where
  cpu := ⟨c.reg .edi, c.reg .esi, c.reg .ebp, esp, c.reg .ebx, c.reg .edx, c.reg .ecx, c.reg .eax, c.seg .gs,
    c.seg .fs, c.seg .es, c.seg .ds⟩
  eip := c.eip
  cs := c.seg .cs
  eflags := c.eflags

def CpuRegister.general (r : CpuRegister) : Lib.Reg → UInt32
  | .eax => r.eax
  | .ecx => r.ecx
  | .edx => r.edx
  | .ebx => r.ebx
  | .ebp => r.ebp
  | .esi => r.esi
  | .edi => r.edi

/-- The selectors, with the two that are not in `struct CPURegister`. -/
def CpuRegister.segments (r : CpuRegister) (cs ss : UInt32) : Lib.Seg → UInt32
  | .cs => cs
  | .ss => ss
  | .ds => r.ds
  | .es => r.es
  | .fs => r.fs
  | .gs => r.gs

/-- The state a frame takes the processor back to, with ESP and SS from elsewhere. -/
def InterruptFrame.resume (f : InterruptFrame) (esp ss : UInt32) : Cpu where
  reg := f.cpu.general
  esp := esp
  seg := f.cpu.segments f.cs ss
  eip := f.eip
  eflags := f.eflags

theorem frameOf_resume (c : Cpu) (esp : UInt32) : (frameOf c esp).resume c.esp (c.seg .ss) = c := by
  refine Cpu.ext (funext fun r => ?_) rfl (funext fun g => ?_) rfl rfl
  · cases r <;> rfl
  · cases g <;> rfl

/-- What is in the slot of ESP in the frame. The entry decides by DS, not by CS, whether the stack was changed. -/
def savedEsp (tss : Lib.Tss) (c : Cpu) : UInt32 :=
  if level (c.seg .ds) ≠ 0 then c.esp
  else if level (c.seg .cs) = 0 then c.esp - 36
  else tss.esp0 - 44

/-! ## The list -/

section
variable {c : Cpu}

theorem callGenericHandler_outer (v err eip cs eflags esp : UInt32) (ws : List UInt32) (hds : level (c.seg .ds) ≠ 0) : ∃ t,
    Lib.run 0 callGenericHandler ⟨c, v :: err :: eip :: cs :: eflags :: esp :: ws⟩ = some t ∧
      t.mem = frameWords { frameOf c esp with eip := eip, cs := cs, eflags := eflags } v err ++ esp :: ws ∧
      t.cpu.esp = c.esp - 48 ∧ t.cpu.seg .cs = c.seg .cs ∧ t.cpu.seg .ss = c.seg .ss := by
  have hand : c.seg .ds &&& 3 ≠ 0 := hds
  have hesp : c.esp - 56 + 4 + 4 = c.esp - 48 := by grind
  simp [callGenericHandler, Lib.run, Lib.step, Lib.allRegs, hand, frameWords, frameOf, Lib.sub_sub, Lib.wordAddr, hesp]

theorem callGenericHandler_same (v err eip cs eflags : UInt32) (ws : List UInt32) (hds : level (c.seg .ds) = 0) : ∃ t,
    Lib.run 0 callGenericHandler ⟨c, v :: err :: eip :: cs :: eflags :: ws⟩ = some t ∧
      t.mem = frameWords { frameOf c (c.esp - 16) with eip := eip, cs := cs, eflags := eflags } v err ++ ws ∧
      t.cpu.esp = c.esp - 48 ∧ t.cpu.seg .cs = c.seg .cs ∧ t.cpu.seg .ss = c.seg .ss := by
  have hand : c.seg .ds &&& 3 = 0 := hds
  have hesp : c.esp - 56 + 4 + 4 = c.esp - 48 := by grind
  simp [callGenericHandler, Lib.run, Lib.step, Lib.allRegs, hand, frameWords, frameOf, Lib.sub_sub, Lib.wordAddr, hesp]

/-- The error code comes from the processor or from the stub. -/
theorem interruptHandler_run {v : UInt8} {t : Lib.State (List UInt32)} : Lib.run 0 (interruptHandler v) t =
    Lib.run 0 callGenericHandler ((if v ∈ errorCodeVectors then t else t.push 0).push v.toUInt32) := by
  unfold interruptHandler
  split
  · exact Lib.run_push ..
  · exact (Lib.run_push ..).trans (Lib.run_push ..)

theorem interruptReturn_outer (f : InterruptFrame) (v err esp ss : UInt32) (ws : List UInt32) (hkernel : level (c.seg .cs) = 0)
    (hcs : level f.cs ≠ 0) : ∃ t,
      Lib.run 0 interruptReturn ⟨c, frameWords f v err ++ esp :: ss :: ws⟩ = some t ∧ t.cpu = f.resume esp ss := by
  have hout : 0 < level f.cs := UInt32.pos_iff_ne_zero.mpr hcs
  simp only [interruptReturn, Lib.run, Lib.step, frameWords, Lib.returnTo]
  simp [hkernel, hout]
  refine Cpu.ext (funext fun r => ?_) rfl (funext fun g => ?_) rfl rfl
  · cases r <;> rfl
  · cases g <;> rfl

/-- To the same level the stack goes on behind the frame. -/
theorem interruptReturn_same (f : InterruptFrame) (v err : UInt32) (ws : List UInt32) (hkernel : level (c.seg .cs) = 0) (hcs : level f.cs = 0) : ∃ t,
    Lib.run 0 interruptReturn ⟨c, frameWords f v err ++ ws⟩ = some t ∧ t.mem = ws ∧
      t.cpu = f.resume (c.esp + 68) (c.seg .ss) := by
  simp only [interruptReturn, Lib.run, Lib.step, frameWords, Lib.returnTo]
  simp [hkernel, hcs]
  refine Cpu.ext (funext fun r => ?_) ?_ (funext fun g => ?_) rfl rfl
  · cases r <;> rfl
  · simp [Lib.wordAddr, InterruptFrame.resume]
    grind
  · cases g <;> rfl

variable {tss : Lib.Tss} {gate : Lib.Gate} {error : Option UInt32} {v : UInt8} {err w : UInt32} {ws : List UInt32}

/-- The processor when the stub jumps to `call_generic_handler`. -/
def stubCpu (tss : Lib.Tss) (gate : Lib.Gate) (c : Cpu) : Cpu where
  reg := c.reg
  esp := if level (c.seg .cs) = 0 then c.esp - 20 else tss.esp0 - 28
  seg := Function.update (if level (c.seg .cs) = 0 then c.seg else Function.update c.seg .ss tss.ss0) .cs gate.selector
  eip := gate.offset
  eflags := c.eflags &&& ~~~Lib.gateClears

/-- What is on the stack above the frame. -/
def outside (tss : Lib.Tss) (c : Cpu) (ws : List UInt32) : List UInt32 :=
  if level (c.seg .cs) = 0 then ws else c.esp :: c.seg .ss :: Lib.Memory.move c.esp tss.esp0 ws

theorem interrupt_error (herror : error.isSome = decide (v ∈ errorCodeVectors)) (t : Lib.State (List UInt32)) :
    (if v ∈ errorCodeVectors then Lib.interrupt tss gate error t else (Lib.interrupt tss gate error t).push 0) =
      (Lib.interrupt tss gate none t).push (error.getD 0) := by
  cases error with
  | none =>
    have hv : v ∉ errorCodeVectors := by simpa using herror
    rw [if_neg hv]
    rfl
  | some e =>
    have hv : v ∈ errorCodeVectors := by simpa using herror
    rw [if_pos hv]
    rfl

theorem interrupt_none (hgate : level gate.selector = 0) :
    ((Lib.interrupt tss gate none ⟨c, ws⟩).push err).push w = ⟨stubCpu tss gate c,
      w :: err :: c.eip :: c.seg .cs :: c.eflags :: outside tss c ws⟩ := by
  by_cases hcs : level (c.seg .cs) = 0
  · simp [Lib.interrupt, Lib.enterStack, hgate, hcs, Lib.sub_sub, stubCpu, outside]
    rfl
  · have hout : 0 < level (c.seg .cs) := UInt32.pos_iff_ne_zero.mpr hcs
    simp [Lib.interrupt, Lib.enterStack, hgate, hcs, hout, Lib.sub_sub, stubCpu, outside]
    exact ⟨rfl, rfl⟩

theorem stubCpu_seg (g : Lib.Seg) (hcs : g ≠ .cs) (hss : g ≠ .ss) : (stubCpu tss gate c).seg g = c.seg g := by
  simp only [stubCpu, Function.update_of_ne hcs]
  split
  · rfl
  · exact Function.update_of_ne hss ..

theorem frameOf_stubCpu (esp : UInt32) : { frameOf (stubCpu tss gate c) esp with
    eip := c.eip, cs := c.seg .cs, eflags := c.eflags } = frameOf c esp := by
  simp [frameOf, stubCpu_seg]
  simp [stubCpu]

/-- What `main_interrupt_handler` is called with. -/
theorem interruptHandler_frame (tss : Lib.Tss) (ws : List UInt32) (hgate : level gate.selector = 0)
    (herror : error.isSome = decide (v ∈ errorCodeVectors)) (hds : level (c.seg .cs) = 0 → level (c.seg .ds) = 0) :
    ∃ t, Lib.run 0 (interruptHandler v) (Lib.interrupt tss gate error ⟨c, ws⟩) = some t ∧
      t.mem = frameWords (frameOf c (savedEsp tss c)) v.toUInt32 (error.getD 0) ++ outside tss c ws ∧
      t.cpu.esp = (stubCpu tss gate c).esp - 48 ∧ t.cpu.seg .cs = gate.selector ∧
      t.cpu.seg .ss = (stubCpu tss gate c).seg .ss := by
  rw [interruptHandler_run, interrupt_error herror, interrupt_none hgate]
  have hstub : level ((stubCpu tss gate c).seg .ds) = level (c.seg .ds) := by
    rw [stubCpu_seg .ds (by decide) (by decide)]
  have hstubCs : (stubCpu tss gate c).seg .cs = gate.selector := by simp [stubCpu]
  by_cases hds0 : level (c.seg .ds) = 0
  · obtain ⟨t, ht, hmem, hesp, hcs, hss⟩ := callGenericHandler_same v.toUInt32 (error.getD 0) c.eip (c.seg .cs) c.eflags
      (outside tss c ws) (hstub.trans hds0)
    have hslot : (stubCpu tss gate c).esp - 16 = savedEsp tss c := by
      simp only [stubCpu, savedEsp, hds0]
      split
      · simp [Lib.sub_sub]
      · simp [Lib.sub_sub]
    rw [frameOf_stubCpu, hslot] at hmem
    exact ⟨t, ht, hmem, hesp, hcs.trans hstubCs, hss⟩
  · have houter : level (c.seg .cs) ≠ 0 := fun h => hds0 (hds h)
    have hout : outside tss c ws = c.esp :: c.seg .ss :: Lib.Memory.move c.esp tss.esp0 ws := if_neg houter
    obtain ⟨t, ht, hmem, hesp, hcs, hss⟩ := callGenericHandler_outer v.toUInt32 (error.getD 0) c.eip (c.seg .cs) c.eflags
      c.esp (c.seg .ss :: Lib.Memory.move c.esp tss.esp0 ws) (hstub ▸ hds0)
    have hslot : savedEsp tss c = c.esp := if_pos hds0
    rw [frameOf_stubCpu, ← hout] at hmem
    rw [hslot, hout]
    exact ⟨t, ht, hout ▸ hmem, hesp, hcs.trans hstubCs, hss⟩

/-- IRET goes back to the state that was interrupted. -/
theorem interruptReturn_resumes {t : Lib.State (List UInt32)} {esp : UInt32} (hkernel : level (t.cpu.seg .cs) = 0)
    (hmem : t.mem = frameWords (frameOf c esp) w err ++ outside tss c ws)
    (hsame : level (c.seg .cs) = 0 → t.cpu.esp = c.esp - 68 ∧ t.cpu.seg .ss = c.seg .ss) :
    ∃ t', Lib.run 0 interruptReturn t = some t' ∧ t'.cpu = c ∧ (level (c.seg .cs) = 0 → t'.mem = ws) := by
  obtain ⟨d, words⟩ := t
  obtain rfl : words = _ := hmem
  by_cases hcs : level (c.seg .cs) = 0
  · obtain ⟨hesp, hss⟩ := hsame hcs
    obtain ⟨t', ht', hws, hc⟩ := interruptReturn_same (frameOf c esp) w err ws hkernel hcs
    rw [outside, if_pos hcs]
    refine ⟨t', ht', ?_, fun _ => hws⟩
    rw [hc, hesp, hss, UInt32.sub_add_cancel, frameOf_resume]
  · obtain ⟨t', ht', hc⟩ := interruptReturn_outer (frameOf c esp) w err c.esp (c.seg .ss)
      (Lib.Memory.move c.esp tss.esp0 ws) hkernel hcs
    rw [outside, if_neg hcs]
    refine ⟨t', ht', ?_, fun h => absurd h hcs⟩
    rw [hc, frameOf_resume]

end

theorem length_outside (tss : Lib.Tss) (c : Cpu) (ws : List UInt32) : (outside tss c ws).length ≤ 2 + ws.length := by
  have hmove := Lib.length_move_le ⟨c, ws⟩ tss.esp0
  unfold outside
  split
  · omega
  · simp only [List.length_cons]
    exact Nat.le_trans (Nat.add_le_add_right hmove 2) (by simp only; omega)

/-! ## The machine -/

section
variable {m : Lib.State (UInt32 → UInt32)} {tss : Lib.Tss} {gate : Lib.Gate} {error : Option UInt32} {v : UInt8}
variable {ws : List UInt32}

theorem interruptHandler_machine (tss : Lib.Tss) (error : Option UInt32) (hgate : level gate.selector = 0)
    (herror : error.isSome = decide (v ∈ errorCodeVectors))
    (hds : level (m.cpu.seg .cs) = 0 → level (m.cpu.seg .ds) = 0) (hws : Lib.Holds m.mem m.cpu.esp ws)
    (hlen : ws.length < 0x20000000) :
    ∃ s t, Lib.run 0 (interruptHandler v) (Lib.interrupt tss gate error m) = some s ∧ Lib.Refines s t ∧
      t.mem = frameWords (frameOf m.cpu (savedEsp tss m.cpu)) v.toUInt32 (error.getD 0) ++ outside tss m.cpu ws ∧
      t.cpu.esp = (stubCpu tss gate m.cpu).esp - 48 ∧ t.cpu.seg .cs = gate.selector ∧
      t.cpu.seg .ss = (stubCpu tss gate m.cpu).seg .ss := by
  have hm : Lib.Refines m ⟨m.cpu, ws⟩ := ⟨rfl, hws⟩
  obtain ⟨hint, hle⟩ := Lib.interrupt_refines tss gate error hm (by simp only; omega)
  obtain ⟨t, ht, hmem⟩ := interruptHandler_frame tss ws hgate herror hds
  have hcode : (interruptHandler v).length ≤ 22 := by
    unfold interruptHandler
    split <;> simp [callGenericHandler]
  obtain ⟨s, hs, hst⟩ := Lib.run_refines hint (by simp only at hle; omega) ht
  exact ⟨s, t, hs, hst, hmem⟩

/-- **An interrupt leaves no trace in the program it stops.** Whatever the vector and wherever it comes:
`main_interrupt_handler` is called with the registers of the program, the vector and the error code, and if it keeps
to the calling convention and does not write to its argument, IRET goes back to the processor as it was, and to the
stack as it was. The slot of ESP in the frame is `savedEsp`. -/
theorem interrupt_transparent (hgate : level gate.selector = 0)
    (herror : error.isSome = decide (v ∈ errorCodeVectors))
    (hds : level (m.cpu.seg .cs) = 0 → level (m.cpu.seg .ds) = 0) (hws : Lib.Holds m.mem m.cpu.esp ws)
    (hlen : ws.length < 0x20000000) :
    ∃ s, Lib.run 0 (interruptHandler v) (Lib.interrupt tss gate error m) = some s ∧
      Lib.Holds s.mem s.cpu.esp (frameWords (frameOf m.cpu (savedEsp tss m.cpu)) v.toUInt32 (error.getD 0)) ∧
      ∀ s', Lib.Returned (19 + ws.length) s s' → ∃ m', Lib.run 0 interruptReturn s' = some m' ∧ m'.cpu = m.cpu ∧
        (level (m.cpu.seg .cs) = 0 → Lib.Holds m'.mem m'.cpu.esp ws) := by
  obtain ⟨s, t, hs, hst, hmem, hesp, hcs, hss⟩ := interruptHandler_machine tss error hgate herror hds hws hlen
  have hout := length_outside tss m.cpu ws
  refine ⟨s, hs, ?_, fun s' hret => ?_⟩
  · have hall := hst.mem
    rw [hmem] at hall
    exact hall.of_append
  · have hback := hret.refines hst (by rw [hmem]; simp [frameWords]; omega)
    have hkernel : level (s'.cpu.seg .cs) = 0 := by rw [hret.cs, hst.cpu, hcs, hgate]
    have hsame (h0 : level (m.cpu.seg .cs) = 0) : s'.cpu.esp = m.cpu.esp - 68 ∧ s'.cpu.seg .ss = m.cpu.seg .ss := by
      rw [hret.esp, hret.ss, hst.cpu, hesp, hss]
      simp [stubCpu, h0, Lib.sub_sub]
    obtain ⟨t', ht', hcpu, hws'⟩ := interruptReturn_resumes (t := ⟨s'.cpu, t.mem⟩) hkernel hmem hsame
    obtain ⟨m', hm', hmt⟩ := Lib.run_refines hback (by simp [hmem, frameWords, interruptReturn]; omega) ht'
    exact ⟨m', hm', hmt.cpu.trans hcpu, fun h => hws' h ▸ hmt.mem⟩

end

/-- A user program that is about to be stopped. -/
def userCpu : Cpu where
  reg := fun _ => 7
  esp := 0xBFFFFF00
  seg
    | .cs => 0x1B
    | _ => 0x23
  eip := 0x1000
  eflags := 0x202

def userMachine : Lib.State (UInt32 → UInt32) := ⟨userCpu, fun _ => 0⟩

/-- A key is pressed while it runs. -/
theorem interrupt_transparent_key :
    ∃ s, Lib.run 0 (interruptHandler 0x21) (Lib.interrupt ⟨0xC0400000, 0x10⟩ ⟨0x8, 0xC0100000⟩ none
        userMachine) = some s ∧
      Lib.Holds s.mem s.cpu.esp (frameWords (frameOf userCpu (savedEsp ⟨0xC0400000, 0x10⟩ userCpu)) 0x21 0) ∧
      ∀ s', Lib.Returned 19 s s' → ∃ m', Lib.run 0 interruptReturn s' = some m' ∧ m'.cpu = userCpu ∧
        (level (userCpu.seg .cs) = 0 → Lib.Holds m'.mem m'.cpu.esp []) :=
  interrupt_transparent (show level 0x8 = 0 by decide) (show none.isSome = decide (0x21 ∈ errorCodeVectors) by decide)
    (show level (userMachine.cpu.seg .cs) = 0 → _ by decide) (fun _ h => absurd h (Nat.not_lt_zero _))
    (show ([] : List UInt32).length < 0x20000000 by decide)

end MoggersOs
