import MoggersOs.Interrupt.Entry
import MoggersOs.Kernel.GiveBack
import MoggersOs.Kernel.Switching
/-
# A process goes on with its own registers (`kernel/kernel-entrypoint.s`, `interrupt/intsetup.s`)

The scheduler moves `struct Context`s around. Here they are what the assembly makes of the registers: the entry
of vector 0x20 stores them in the frame that `timer_isr` copies, and `process_context_switch` loads them from its
argument.

| here | there |
| --- | --- |
| `contextWords`         | `struct Context` (`process.h:57-66`), as an argument on the stack |
| `processContextSwitch` | `process_context_switch` (`kernel-entrypoint.s:112-130`) |
| `InUserMode`           | the selectors of a new process (`process.c:83-96`) |
| `MachineStep`          | a tick at any point of the program on the CPU; a creation that succeeds |
-/

namespace MoggersOs

open Lib (Insn Cpu level)

def processContextSwitch : List Insn :=
  [.lea .ecx 1, .movEsp .ecx, .popad, .popSeg .gs, .popSeg .fs, .popSeg .es, .popSeg .ds, .iret]

def contextWords (c : Context) (pageDirectory : UInt32) : List UInt32 :=
  [c.cpu.edi, c.cpu.esi, c.cpu.ebp, c.cpu.esp, c.cpu.ebx, c.cpu.edx, c.cpu.ecx, c.cpu.eax, c.cpu.gs, c.cpu.fs,
   c.cpu.es, c.cpu.ds, c.eip, c.cs, c.eflags, c.esp, c.ss, pageDirectory]

/-- The processor that goes on with a context. -/
def Context.resume (c : Context) : Cpu := InterruptFrame.resume ⟨c.cpu, c.eip, c.cs, c.eflags⟩ c.esp c.ss

theorem processContextSwitch_list {d : Cpu} {c : Context} (ret pageDirectory : UInt32)
    (hkernel : level (d.seg .cs) = 0) (hcs : level c.cs ≠ 0) : ∃ t,
      Lib.run 0 processContextSwitch ⟨d, ret :: contextWords c pageDirectory⟩ = some t ∧ t.cpu = c.resume := by
  have hout : 0 < level c.cs := UInt32.pos_iff_ne_zero.mpr hcs
  have hfour : Lib.wordAddr d.esp 1 - d.esp = 4 := by
    show d.esp + 4 - d.esp = 4
    grind
  simp only [processContextSwitch, Lib.run, Lib.step, contextWords, Lib.returnTo]
  simp [hkernel, hout, Lib.State.move, Lib.Memory.move, hfour]
  refine Cpu.ext (funext fun r => ?_) rfl (funext fun g => ?_) rfl rfl
  · cases r <;> rfl
  · cases g <;> rfl

/-- The call of `process_context_switch`: the kernel's stack has the return address and the argument. -/
structure Switching (c : Context) (m : Lib.State (UInt32 → UInt32)) : Prop where
  kernel : level (m.cpu.seg .cs) = 0
  words  : ∃ ret pageDirectory, Lib.Holds m.mem m.cpu.esp (ret :: contextWords c pageDirectory)

theorem processContextSwitch_resumes {m : Lib.State (UInt32 → UInt32)} {c : Context} (h : Switching c m)
    (hcs : level c.cs ≠ 0) : ∃ m', Lib.run 0 processContextSwitch m = some m' ∧ m'.cpu = c.resume := by
  obtain ⟨ret, pageDirectory, hwords⟩ := h.words
  obtain ⟨t, ht, hc⟩ := processContextSwitch_list ret pageDirectory h.kernel hcs
  have hm : Lib.Refines m ⟨m.cpu, ret :: contextWords c pageDirectory⟩ := ⟨rfl, hwords⟩
  obtain ⟨m', hm', hmt⟩ := Lib.run_refines hm (by simp [contextWords, processContextSwitch]) ht
  exact ⟨m', hm', hmt.cpu.trans hc⟩

/-! ## Runs -/

/-- The code and stack segments are those of the process, and DS is one of level 3, not the null selector. -/
structure InUserMode (c : Cpu) : Prop where
  cs : c.seg .cs = 0x1B
  ss : c.seg .ss = 0x23
  ds : level (c.seg .ds) ≠ 0

/-- The processor a new process starts with. -/
def startCpu (r : ProcessRequest) : Cpu := (initialContext r .null).resume

/-- Per slot, where the process is when it does not run. -/
abbrev Stopped := Fin 16 → Cpu

def Stopped.start (l : Stopped) (slot : Option (Fin 16)) (c : Cpu) : Stopped :=
  match slot with
  | none => l
  | some i => Function.update l i c

inductive MachineEvent where
  | create (r : ProcessRequest)
  /-- The machine between two instructions of the process on the CPU. -/
  | tick (m : Lib.State (UInt32 → UInt32))

section
variable (tss : Lib.Tss) (gate : Lib.Gate)

/-- `timer_isr` is called with the frame that the entry left on the stack. -/
def TimerFrame (m : Lib.State (UInt32 → UInt32)) (frame : InterruptFrame) : Prop :=
  ∃ s, Lib.run 0 (interruptHandler 0x20) (Lib.interrupt tss gate none m) = some s ∧
    Lib.Holds s.mem s.cpu.esp (frameWords frame 0x20 0)

def MachineStep (x : Kernel × Stopped) (e : MachineEvent) (y : Kernel × Stopped) : Prop :=
  match e with
  | .create r => Lasting (.create r) ∧ KernelEvent.Happens x.1 (.create r) y.1 ∧
      y.2 = x.2.start (processListGetInactiveIndex x.1) (startCpu r)
  | .tick m => InUserMode m.cpu ∧
      (∃ frame, TimerFrame tss gate m frame ∧ KernelEvent.Happens x.1 (.tick frame) y.1) ∧
      y.2 = fun i : Fin 16 => if x.1.currentProcessIdx = i then m.cpu else x.2 i

end

theorem MachineStep.of_create (tss : Lib.Tss) (gate : Lib.Gate) {k k' : Kernel} {r : ProcessRequest}
    (hl : Lasting (.create r)) (hr : KernelEvent.Happens k (.create r) k') (l : Stopped) :
    MachineStep tss gate (k, l) (.create r) (k', l.start (processListGetInactiveIndex k) (startCpu r)) := ⟨hl, hr, rfl⟩

/-- The log of contexts says the same as the list of processors. -/
structure Followed (k : Kernel) (l : Stopped) (g : Log) : Prop where
  tracked : Tracked k g
  resume  : ∀ i, k.processUsed i = true → (g.resume i).resume = l i
  user    : ∀ i, k.processUsed i = true → (g.resume i).cs = 0x1B

theorem frameWords_injective {f f' : InterruptFrame} {v err : UInt32} (h : frameWords f v err = frameWords f' v err) :
    f = f' := by
  obtain ⟨⟨⟩⟩ := f
  obtain ⟨⟨⟩⟩ := f'
  simpa [frameWords, and_assoc] using h

section
variable {tss : Lib.Tss} {gate : Lib.Gate} {m : Lib.State (UInt32 → UInt32)}

/-- The frame has the registers of the process, ESP among them. -/
theorem timerFrame_iff (hgate : level gate.selector = 0) (hu : InUserMode m.cpu) (frame : InterruptFrame) :
    TimerFrame tss gate m frame ↔ frame = frameOf m.cpu m.cpu.esp := by
  have hcs : level (m.cpu.seg .cs) ≠ 0 := by
    rw [hu.cs]
    decide
  have hnone : Lib.Holds m.mem m.cpu.esp [] := fun _ h => absurd h (Nat.not_lt_zero _)
  obtain ⟨s, t, hs, hst, hmem, -⟩ := interruptHandler_machine tss none (v := 0x20) hgate rfl (fun h => absurd h hcs)
    hnone (by decide)
  have hslot : savedEsp tss m.cpu = m.cpu.esp := if_pos hu.ds
  have hall := hst.mem
  rw [hmem, hslot] at hall
  constructor
  · rintro ⟨s', hs', hframe⟩
    obtain rfl : s = s' := Option.some.inj (hs.symm.trans hs')
    exact frameWords_injective (hframe.unique hall.of_append rfl)
  · rintro rfl
    exact ⟨s, hs, hall.of_append⟩

end

namespace Followed

variable {k k' : Kernel} {l : Stopped} {g : Log}

theorem create {r : ProcessRequest} (h : Followed k l g) (hl : Lasting (.create r))
    (hr : KernelEvent.Happens k (.create r) k') :
    Followed k' (l.start (processListGetInactiveIndex k) (startCpu r)) (g.observe k (.create r)) := by
  have hdoes := processCreateUserProcess_does (processCreateUserProcess_passes hr) 0
  have hused (i : Fin 16) : k'.processUsed i = (k.processUsed i || processListGetInactiveIndex k == some i) := by
    rw [← hdoes.used i, hr]
  have htracked := h.tracked.create hl.1 hl.2 hr
  simp only [Log.observe] at htracked ⊢
  cases hslot : processListGetInactiveIndex k with
  | none =>
    rw [hslot] at htracked
    refine ⟨htracked, fun i hi => ?_, fun i hi => ?_⟩
    · exact h.resume i (by simpa [hused, hslot] using hi)
    · exact h.user i (by simpa [hused, hslot] using hi)
  | some j =>
    rw [hslot] at htracked
    have hold {i : Fin 16} (hi : k'.processUsed i = true) (hij : i ≠ j) : k.processUsed i = true := by
      simpa [hused, hslot, Ne.symm hij] using hi
    refine ⟨htracked, fun i hi => ?_, fun i hi => ?_⟩
    · by_cases hij : i = j
      · subst hij
        simp [Stopped.start, startCpu]
        rfl
      · simpa [Stopped.start, hij] using h.resume i (hold hi hij)
    · by_cases hij : i = j
      · subst hij
        simp [initialContext, startPcb]
      · simpa [hij] using h.user i (hold hi hij)

theorem tick {m : Lib.State (UInt32 → UInt32)} (h : Followed k l g) (hu : InUserMode m.cpu)
    (ht : KernelEvent.Happens k (.tick (frameOf m.cpu m.cpu.esp)) k') :
    Followed k' (fun i => if k.currentProcessIdx = i then m.cpu else l i)
      (g.observe k (.tick (frameOf m.cpu m.cpu.esp))) := by
  obtain ⟨fuel, ht⟩ := ht
  have hused := (Kept.tick ht).used
  refine ⟨h.tracked.tick ht, fun i hi => ?_, fun i hi => ?_⟩
  · rw [hused] at hi
    simp only [Log.observe, Log.stop]
    split
    · have hback := frameOf_resume m.cpu m.cpu.esp
      rwa [hu.ss] at hback
    · exact h.resume i hi
  · rw [hused] at hi
    simp only [Log.observe, Log.stop]
    split
    · exact hu.cs
    · exact h.user i hi

theorem step {tss : Lib.Tss} {gate : Lib.Gate} {e : MachineEvent} {y : Kernel × Stopped}
    (hgate : level gate.selector = 0) (h : ∃ g, Followed k l g) (hs : MachineStep tss gate (k, l) e y) :
    ∃ g, Followed y.1 y.2 g := by
  obtain ⟨g, h⟩ := h
  cases e with
  | create r =>
    obtain ⟨hl, hr, hlog⟩ := hs
    exact ⟨_, hlog ▸ h.create hl hr⟩
  | tick m =>
    obtain ⟨hu, ⟨frame, hframe, ht⟩, hlog⟩ := hs
    rw [timerFrame_iff hgate hu] at hframe
    subst hframe
    exact ⟨_, hlog ▸ h.tick hu ht⟩

end Followed

section Boot
variable (otherDirectory : UInt32 → PageDirectory) (afterMap : Nat → UInt8) (afterList : Nat → Pcb)
variable (afterUsed : Nat → UInt8)

/-- The shell is to start in the first free slot. -/
def bootStopped : Stopped :=
  Stopped.start (fun _ => zeroPcb.context.resume)
    (processListGetInactiveIndex (bootKernel otherDirectory afterMap afterList afterUsed)) (startCpu shellRequest)

theorem kernelSetup_followed {k : Kernel}
    (h : kernelSetup (bootKernel otherDirectory afterMap afterList afterUsed) = some k) :
    ∃ g, Followed k (bootStopped otherDirectory afterMap afterList afterUsed) g := by
  have hfirst := firstProcess_boot otherDirectory afterMap afterList afterUsed
  have hused : ∀ i, k.processUsed i = true → i = 0 := by
    intro i hi
    obtain ⟨j, -, -, -, hu, -⟩ := schedulerSwitch_does hfirst.current hfirst.next h
    rw [hu] at hi
    exact (hfirst.used i).mp hi
  have hslot : processListGetInactiveIndex (bootKernel otherDirectory afterMap afterList afterUsed) = some 0 := rfl
  refine ⟨_, kernelSetup_tracked otherDirectory afterMap afterList afterUsed h, fun i hi => ?_, fun i hi => ?_⟩
  · obtain rfl := hused i hi
    simp [bootLog, bootStopped, Log.observe, hslot, Stopped.start, startCpu]
    rfl
  · obtain rfl := hused i hi
    simp [bootLog, Log.observe, hslot, initialContext, startPcb]

end Boot

end MoggersOs
