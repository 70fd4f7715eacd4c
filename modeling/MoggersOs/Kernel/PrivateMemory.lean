import MoggersOs.Filesystem.Store
import MoggersOs.Kernel.AddressSpaces
import MoggersOs.Kernel.Creation
/-
# What a process finds in its memory

The programs share the frames, the kernel reads files into whatever CR3 maps, and the timer takes the processor away at
any point. Still, while no process ends, every process has its addresses to itself: it finds there what it was given when
it was created and what it has stored or read since (`memory_private`, an instance of `Lib/Spaces.lean`).

| here | there |
| --- | --- |
| `System`     | the machine with its memory; of frame 0 only what the kernel's variables say |
| `Finds`      | the memory at `request.buf`, through a directory |
| `Delivers`      | the first `n` bytes at `request.buf` are stored to; none of them is outside the process |
| `SystemEvent.create` | system calls 11 and 15 (`interrupt.c:126-131`, `146-157`): the file is read with the new directory in CR3 (`process.c:62-73`) |
| `SystemEvent.call`   | system calls 0 to 3 (`interrupt.c:62-79`): the code goes to the address in ECX |
| `SystemEvent.store`, `load` | an instruction of the program in CR3, or a byte that a call stores for it |
| `Memories`   | a memory for each slot |
-/

namespace MoggersOs

structure System where
  machine : Machine
  memory  : ℕ → UInt8

/-- The directory in CR3. -/
def Kernel.loaded (k : Kernel) : PageDirectory := k.paging.directory k.cr3

def Op.buf : Op → ℕ → UInt8
  | .write r => r.buf
  | .delete r => r.buf
  | .read r => r.buf
  | .readDirectory r => r.buf

def Finds (d : PageDirectory) (addr : UInt32) (memory : ℕ → UInt8) (buf : ℕ → UInt8) : Prop :=
  ∀ i a, translate d .kernel (addr + UInt32.ofNat i) = some a → buf i = memory a

def Delivers (d : PageDirectory) (addr : UInt32) (n : ℕ) (buf : ℕ → UInt8) (memory memory' : ℕ → UInt8) : Prop :=
  ∃ cell : ℕ → ℕ, (∀ i < n, translate d .store (addr + UInt32.ofNat i) = some (cell i)) ∧
    memory' = Lib.assign cell buf (List.range n) memory

/-- `*((int8_t*) ecx) = code`. -/
def codeByte (code : Int) : UInt8 := (Int8.ofInt code).toUInt8

inductive SystemEvent where
  | create (addr : UInt32) (r : Request)
  | tick (frame : InterruptFrame)
  | load (va : UInt32) (b : UInt8)
  | store (va : UInt32) (b : UInt8)
  | call (addr ecx : UInt32) (op : Op) (rep : Reply) (n : ℕ)

/-- The new process is created in the directory that `process_create_user_process` sets up for it. -/
def Creates (fuel : ℕ) (x : System) (addr : UInt32) (r : Request) (y : System) : Prop :=
  createFromFile fuel x.machine addr r = some (0, y.machine) ∧
    ∃ res n, read fuel x.machine.filesystem r = some res ∧
      let d := y.machine.kernel.paging.directory (claimMemory x.machine.kernel.paging (processRequest addr r)).pageDir
      Finds d addr x.memory r.buf ∧ (∀ i, n ≤ i → res.1.buf i = r.buf i) ∧ Delivers d addr n res.1.buf x.memory y.memory

def SystemStep (x : System) (e : SystemEvent) (y : System) : Prop :=
  match e with
  | .create addr r => Lasting (.create (processRequest addr r)) ∧ ∃ fuel, Creates fuel x addr r y
  | .tick frame => KernelEvent.Happens x.machine.kernel (.tick frame) y.machine.kernel ∧
      y.machine.filesystem = x.machine.filesystem ∧ y.memory = x.memory
  | .load va b => ∃ a, translate x.machine.kernel.loaded .load va = some a ∧ x.memory a = b ∧ y = x
  | .store va b => ∃ a, translate x.machine.kernel.loaded .store va = some a ∧
      y = { x with memory := Function.update x.memory a b }
  | .call addr ecx op rep n => ∃ fuel memory a, Finds x.machine.kernel.loaded addr x.memory op.buf ∧
      exec fuel x.machine.filesystem op = some (rep, y.machine.filesystem) ∧ (∀ i, n ≤ i → rep.buf i = op.buf i) ∧
      Delivers x.machine.kernel.loaded addr n rep.buf x.memory memory ∧
      translate x.machine.kernel.loaded .store ecx = some a ∧
      y.memory = Function.update memory a (codeByte rep.code) ∧ y.machine.kernel = x.machine.kernel

/-! ## A memory for each process -/

abbrev Memories := Fin 16 → UInt32 → UInt8

/-- The memory of slot `current` becomes another. -/
def Memories.change (m : Memories) (current : ℕ) (f : (UInt32 → UInt8) → UInt32 → UInt8) : Memories := fun i =>
  if current = i then f (m i) else m i

/-- What the process in slot `i` has at its addresses. -/
def System.window (x : System) (i : Fin 16) (va : UInt32) : UInt8 :=
  match addressSpace x.machine.kernel i va with
  | none => 0
  | some a => x.memory a

/-- A process changes its own memory only, and gets it when it is created. -/
def Memories.observe (m : Memories) (x : System) (e : SystemEvent) (y : System) : Memories :=
  let current := x.machine.kernel.currentProcessIdx
  match e with
  | .create _ _ =>
    match processListGetInactiveIndex x.machine.kernel with
    | none => m
    | some i => Function.update m i (y.window i)
  | .tick _ => m
  | .load _ _ => m
  | .store va b => m.change current fun own => Function.update own va b
  | .call addr ecx _ rep n => m.change current fun own =>
      Function.update (Lib.assign (fun i => addr + UInt32.ofNat i) rep.buf (List.range n) own) ecx (codeByte rep.code)

def SystemRun (x : System × Memories) (e : SystemEvent) (y : System × Memories) : Prop :=
  SystemStep x.1 e y.1 ∧ y.2 = x.2.observe x.1 e y.1

/-- What holds between two events. -/
structure Secluded (x : System) (m : Memories) : Prop where
  lodged : ∃ g n, Tracked x.machine.kernel g ∧ Lodged x.machine.kernel g n
  own    : Lib.Private (addressSpace x.machine.kernel) x.memory m

theorem Memories.change_fin (m : Memories) (c : Fin 16) (f : (UInt32 → UInt8) → UInt32 → UInt8) :
    m.change c f = Function.update m c (f (m c)) := by
  funext i
  unfold Memories.change
  by_cases hi : i = c
  · rw [hi, Function.update_self, if_pos rfl]
  · rw [Function.update_of_ne hi, if_neg fun he => hi (Fin.ext he).symm]

theorem Memories.observe_store {m : Memories} {x y : System} {c : Fin 16} (hc : x.machine.kernel.currentProcessIdx = c)
    (va : UInt32) (b : UInt8) : m.observe x (.store va b) y = Function.update m c (Function.update (m c) va b) := by
  unfold observe
  dsimp only
  rw [hc, change_fin]

theorem Memories.observe_create {m : Memories} {x y : System} {i : Fin 16}
    (hslot : processListGetInactiveIndex x.machine.kernel = some i) (addr : UInt32) (r : Request) :
    m.observe x (.create addr r) y = Function.update m i (y.window i) := by
  unfold observe
  rw [hslot]

/-- A creation that returns 0 has read the file. -/
theorem createFromFile_success {fuel : ℕ} {m m' : Machine} {addr : UInt32} {r : Request} {res : Reply × State}
    (h : createFromFile fuel m addr r = some (0, m')) (hr : read fuel m.filesystem r = some res) :
    processCreateUserProcess m.kernel (processRequest addr r) 0 = (0, m'.kernel) ∧ m'.filesystem = res.2 ∧
      res.1.code = 0 := by
  cases hcheck : creationCheck m.kernel (processRequest addr r) with
  | some retcode =>
    rw [createFromFile_refused hcheck] at h
    cases h
    exact absurd hcheck (creationCheck_ne_zero _ _)
  | none =>
    rw [createFromFile_read hcheck hr] at h
    obtain ⟨hcode, rfl⟩ := Prod.mk.inj (Option.some.inj h)
    have hzero : res.1.code = 0 := by
      rw [(processCreateUserProcess_does hcheck res.1.code).code] at hcode
      by_contra hne
      rw [if_neg hne] at hcode
      cases hcode
    rw [hzero] at hcode ⊢
    exact ⟨Prod.ext hcode rfl, rfl, rfl⟩

/-- Stores through a directory are stores to the process that has it. -/
theorem Delivers.private {k : Kernel} {d : PageDirectory} {p : Fin 16} {addr : UInt32} {n : ℕ} {buf : ℕ → UInt8}
    {memory memory' : ℕ → UInt8} {m : Memories} (h : Delivers d addr n buf memory memory') (hap : Lib.Apart (addressSpace k))
    (hd : ∀ va, translate d .load va = addressSpace k p va) (hm : Lib.Private (addressSpace k) memory m) :
    Lib.Private (addressSpace k) memory'
      (Function.update m p (Lib.assign (fun i => addr + UInt32.ofNat i) buf (List.range n) (m p))) := by
  obtain ⟨cell, hcell, rfl⟩ := h
  refine hm.stores hap fun i hi => ?_
  rw [← hd]
  exact (translate_of_store (hcell i (List.mem_range.1 hi))).1

/-- After a creation: slot `i` has a process, in frames `f` and `g`. -/
structure Starts (x y : System) (addr : UInt32) (r : Request) (i : Fin 16) (f g : Fin 1024) : Prop where
  slot      : processListGetInactiveIndex x.machine.kernel = some i
  used      : y.machine.kernel.processUsed i = true
  context   : (y.machine.kernel.processList i).context = initialContext (processRequest addr r) (ownDirectory i)
  claimed   : (claimMemory x.machine.kernel.paging (processRequest addr r)).pageDir = ownDirectory i
  directory : y.machine.kernel.paging.directory (ownDirectory i) = processDirectory (pageIndex addr) f g
  space     : ∀ va, translate (y.machine.kernel.paging.directory (ownDirectory i)) .load va = addressSpace y.machine.kernel i va
  others    : ∀ q, q ≠ i → ∀ va, addressSpace y.machine.kernel q va = addressSpace x.machine.kernel q va

/-- A new process has the next slot, and the addresses that its directory has. -/
theorem Lodged.starts {x y : System} {g : Log} {count fuel : ℕ} {addr : UInt32} {r : Request}
    (h : Lodged x.machine.kernel g count) (hl : Lasting (.create (processRequest addr r))) (hc : Creates fuel x addr r y) :
    ∃ i f f', Starts x y addr r i f f' ∧
      Lodged y.machine.kernel (g.observe x.machine.kernel (.create (processRequest addr r))) (count + 1) := by
  obtain ⟨hcreate, res, n, hread, -⟩ := hc
  obtain ⟨hkernel, -, -⟩ := createFromFile_success hcreate hread
  have hcheck := processCreateUserProcess_passes hkernel
  obtain ⟨hlod, i, hi, hslot, hdir, ⟨f, f', hown⟩, hold⟩ := h.create hl.1 hl.2 hkernel
  have hdoes := processCreateUserProcess_does hcheck 0
  have hctx := processCreateUserProcess_context hcheck hslot (h.populated.blank i (Nat.le_of_eq hi.symm))
  rw [hkernel] at hdoes hctx
  have hused : y.machine.kernel.processUsed i = true := by
    rw [hdoes.used i, hslot]
    simp
  rw [hdir] at hctx
  refine ⟨i, f, f', ⟨hslot, hused, hctx, hdir, hown, fun va => ?_, hold⟩, hlod⟩
  unfold addressSpace
  rw [if_pos hused, hlod.context hused]

/-- The page at address 0. -/
theorem pageIndex_small {i : ℕ} (hi : i < 0x400000) : pageIndex (0 + UInt32.ofNat i) = pageIndex 0 := by
  refine Fin.ext ?_
  unfold pageIndex
  dsimp only
  have hsize : i < UInt32.size := Nat.lt_trans hi (by decide)
  rw [UInt32.zero_add, UInt32.toNat_ofNat_of_lt' hsize, UInt32.toNat_zero]
  omega

/-- A creation that passes the checks and finds its file is made. -/
theorem Lodged.creates {x : System} {g : Log} {count n : ℕ} {r : Request} (h : Lodged x.machine.kernel g count)
    (fuel : ℕ) (res : (ℕ → UInt8) → Reply × State) (hl : Lasting (.create (processRequest 0 r)))
    (hcheck : creationCheck x.machine.kernel (processRequest 0 r) = none) (hn : n ≤ 0x400000)
    (hread : ∀ buf, read fuel x.machine.filesystem { r with buf := buf } = some (res buf) ∧
      (res buf).1.code = 0 ∧ ∀ i, n ≤ i → (res buf).1.buf i = buf i) :
    ∃ buf y, Creates fuel x 0 { r with buf := buf } y := by
  have hdoes := processCreateUserProcess_does hcheck 0
  have hkernel : processCreateUserProcess x.machine.kernel (processRequest 0 r) 0 =
      (0, (processCreateUserProcess x.machine.kernel (processRequest 0 r) 0).2) := Prod.ext hdoes.code rfl
  generalize (processCreateUserProcess x.machine.kernel (processRequest 0 r) 0).2 = k at hkernel
  obtain ⟨-, i, -, -, hdir, ⟨f, f', hown⟩, -⟩ := h.create hl.1 hl.2 hkernel
  let buf : ℕ → UInt8 := fun j =>
    (translate (processDirectory (pageIndex 0) f f') .kernel (0 + UInt32.ofNat j)).elim 0 x.memory
  obtain ⟨hres, hcode, hrest⟩ := hread buf
  have hcell : ∀ j, ∃ a, j < n → translate (processDirectory (pageIndex 0) f f') .store (0 + UInt32.ofNat j) = some a := by
    intro j
    by_cases hj : j < n
    · obtain ⟨a, ha⟩ := processDirectory_store.2 (.inr (pageIndex_small (Nat.lt_of_lt_of_le hj hn)))
      exact ⟨a, fun _ => ha⟩
    · exact ⟨0, fun hlt => absurd hlt hj⟩
  choose cell hcell using hcell
  refine ⟨buf, ⟨⟨k, (res buf).2⟩, Lib.assign cell (res buf).1.buf (List.range n) x.memory⟩, ?_, res buf, n, hres, ?_⟩
  · rw [createFromFile_read (r := { r with buf := buf }) hcheck hres, hcode,
      show processRequest 0 { r with buf := buf } = processRequest 0 r from rfl, hkernel]
  · dsimp only
    rw [show processRequest 0 { r with buf := buf } = processRequest 0 r from rfl, hdir, hown]
    refine ⟨fun j a ha => ?_, hrest, cell, fun j hj => hcell j hj, rfl⟩
    exact congrArg (Option.elim · 0 x.memory) ha

namespace Secluded

variable {x y : System} {m : Memories}

/-- CR3 has the directory of the process whose turn it is. -/
theorem loaded (h : Secluded x m) : ∃ c : Fin 16, x.machine.kernel.currentProcessIdx = c ∧
    x.machine.kernel.processUsed c = true ∧
    ∀ va, translate x.machine.kernel.loaded .load va = addressSpace x.machine.kernel c va := by
  obtain ⟨g, n, htr, hlod⟩ := h.lodged
  obtain ⟨c, hc, hu, -, -⟩ := htr.scheduled.running
  refine ⟨c, hc, hu, fun va => ?_⟩
  unfold addressSpace Kernel.loaded
  rw [if_pos hu, hlod.context hu, htr.cr3 c hc, hlod.directory c hu]

/-- A new process has the next slot, and the addresses that its directory has. -/
theorem starts {addr : UInt32} {r : Request} {fuel : ℕ} (h : Secluded x m) (hl : Lasting (.create (processRequest addr r)))
    (hc : Creates fuel x addr r y) : ∃ i f g, Starts x y addr r i f g ∧ ∃ g n, Tracked y.machine.kernel g ∧
      Lodged y.machine.kernel g n := by
  obtain ⟨g, count, htr, hlod⟩ := h.lodged
  obtain ⟨i, f, f', hstarts, hlod'⟩ := hlod.starts hl hc
  obtain ⟨hcreate, res, n, hread, -⟩ := hc
  obtain ⟨hkernel, -, -⟩ := createFromFile_success hcreate hread
  exact ⟨i, f, f', hstarts, _, _, htr.create hl.1 hl.2 hkernel, hlod'⟩

theorem create {addr : UInt32} {r : Request} {fuel : ℕ} (h : Secluded x m) (hl : Lasting (.create (processRequest addr r)))
    (hc : Creates fuel x addr r y) : Secluded y (m.observe x (.create addr r) y) := by
  obtain ⟨i, -, -, ⟨hslot, -, -, hdir, -, hspace, hold⟩, hlodged⟩ := h.starts hl hc
  obtain ⟨-, res, n, -, -, -, hdelivers⟩ := hc
  have hap : Lib.Apart (addressSpace y.machine.kernel) := by
    obtain ⟨_, _, -, hlod⟩ := hlodged
    exact hlod.space_apart
  -- with the new space the memory is private, and so it is when the file is read
  have henter : Lib.Private (addressSpace y.machine.kernel) x.memory
      (Function.update m i fun va => (addressSpace y.machine.kernel i va).elim 0 x.memory) := by
    refine h.own.enter (fun q hq v a ha => (hold q hq v) ▸ ha) _ fun v a ha => ?_
    rw [ha]
    rfl
  rw [hdir] at hdelivers
  have hread := hdelivers.private hap hspace henter
  rw [Function.update_idem] at hread
  refine ⟨hlodged, ?_⟩
  have hwindow := hread.enter (p := i) (fun q _ v a ha => ha) (y.window i) fun v a ha => ?_
  · rw [Function.update_idem] at hwindow
    rw [Memories.observe_create hslot]
    exact hwindow
  · unfold System.window
    rw [ha]

/-- **One event.** -/
theorem step {e : SystemEvent} (h : Secluded x m) (hs : SystemStep x e y) : Secluded y (m.observe x e y) := by
  obtain ⟨c, hc, hu, hloaded⟩ := h.loaded
  obtain ⟨g, n, htr, hlod⟩ := h.lodged
  cases e with
  | create addr r =>
    obtain ⟨hl, fuel, hcreates⟩ := hs
    exact h.create hl hcreates
  | tick frame =>
    obtain ⟨⟨fuel, ht⟩, -, hmem⟩ := hs
    obtain ⟨hlod', hspace⟩ := hlod.tick htr ht
    refine ⟨⟨_, _, htr.tick ht, hlod'⟩, ?_⟩
    rw [hspace, hmem]
    exact h.own
  | load va b =>
    obtain ⟨a, -, -, rfl⟩ := hs
    exact h
  | store va b =>
    obtain ⟨a, ha, rfl⟩ := hs
    have hcell := (translate_of_store ha).1
    rw [hloaded] at hcell
    refine ⟨h.lodged, ?_⟩
    rw [Memories.observe_store hc]
    exact h.own.store hlod.space_apart hcell b
  | call addr ecx op rep n =>
    obtain ⟨fuel, memory, a, -, -, -, hdelivers, ha, hmem, hkernel⟩ := hs
    have hcell := (translate_of_store ha).1
    rw [hloaded] at hcell
    have hbuf := hdelivers.private hlod.space_apart hloaded h.own
    have hcode := hbuf.store hlod.space_apart hcell (codeByte rep.code)
    rw [Function.update_self, Function.update_idem] at hcode
    refine ⟨by rw [hkernel]; exact h.lodged, ?_⟩
    unfold Memories.observe
    dsimp only
    rw [hc, Memories.change_fin, hkernel, hmem]
    exact hcode

theorem run {z : System} {m' : Memories} {events : List SystemEvent} (h : Secluded x m)
    (hrun : Lib.Path SystemRun (x, m) events (z, m')) : Secluded z m' := by
  refine hrun.invariant (I := fun w => Secluded w.1 w.2) (fun w e w' hw hs => ?_) h
  rw [hs.2]
  exact hw.step hs.1

end Secluded

/-- After the first switch nothing but the shell has a memory. -/
theorem kernelSetup_secluded {otherDirectory : UInt32 → PageDirectory} {afterMap : ℕ → UInt8} {afterList : ℕ → Pcb}
    {afterUsed : ℕ → UInt8} {x : System}
    (hboot : kernelSetup (bootKernel otherDirectory afterMap afterList afterUsed) = some x.machine.kernel) :
    Secluded x x.window := by
  refine ⟨⟨_, _, kernelSetup_tracked _ _ _ _ hboot, (kernelSetup_lodged _ _ _ _ hboot).1⟩, fun i va a ha => ?_⟩
  unfold System.window
  rw [ha]

/-- The file `f` as a program; `memory` is what is at address 0 before. -/
def programRequest (memory : ℕ → UInt8) : Request := ⟨memory, fileName, fun _ => 0, 2, 0x100000⟩

/-- It is read, whatever is in memory. -/
theorem withFile_reads : ∃ n ≤ 0x400000, ∃ res : (ℕ → UInt8) → Reply × State, ∀ memory,
    read 512 withFile (programRequest memory) = some (res memory) ∧ (res memory).1.code = 0 ∧
      ∀ i, n ≤ i → (res memory).1.buf i = memory i := by
  obtain ⟨x, b, hx, hentry⟩ := withFile_entry
  have hinv := withFile_run.inv
  have hroot : x.own rootClusterNumber ≠ (fileRequest 5).fileName := fun he => by
    have htable : withFile.volume.table rootClusterNumber = _ := firstFile_table blankState rfl (by decide) (by decide)
    rw [hx.own _ hinv.root, htable] at he
    exact absurd (congrFun (congrArg Prod.fst he) 0) (by decide)
  have hlook : x.look dotDotName rootClusterNumber (fileRequest 5).fileName = some (.file b) :=
    (Lib.Namespace.look_of_ne (Ne.symm hroot) (by decide)).trans hentry
  have hlen := hx.file_clusters hinv hinv.root hlook
  have hsize : b.length ≤ 0x100000 := by
    rw [clustersOf_eq_ceil] at hlen
    omega
  have hread := fun memory => hx.reads (r := programRequest memory) hinv withFile_run.rowsNamed hinv.root rfl hlook hsize
  choose res hres using fun memory => (hread memory).2.1
  refine ⟨2048 * clustersOf b.length, hlen.trans (by decide), res, fun memory => ⟨hres memory, ?_⟩⟩
  obtain ⟨hcode, -, hrest⟩ := (hread memory).2.2 _ _ (hres memory)
  exact ⟨hcode, hrest⟩

/-- The shell has been started on volume `s`, and the memory is zero. -/
def aloneOn (s : State) : System := ⟨⟨started, s⟩, fun _ => 0⟩

theorem aloneOn_setup (s : State) :
    kernelSetup (bootKernel (fun _ => zeroDirectory) (fun _ => 0) (fun _ => zeroPcb) fun _ => 0) =
      some (aloneOn s).machine.kernel := started_eq

theorem aloneOn_filesystem (s : State) : (aloneOn s).machine.filesystem = s := rfl

theorem aloneOn_kernel (s : State) : (aloneOn s).machine.kernel = started := rfl

/-- The cell of address 5 of the shell. -/
theorem translate_started : translate started.loaded .store 5 = some 0x400005 := by decide +kernel

/-- The program has been created. -/
def programReady : Kernel := (processCreateUserProcess started (processRequest 0 (programRequest fun _ => 0)) 0).2

def programNext : Kernel := (timerIsr 17 programReady zeroFrame).get (by decide +kernel)

/-- The program runs. -/
def programRuns : Kernel := (timerIsr 17 programNext zeroFrame).get (by decide +kernel)

/-- And it is the shell's turn again. -/
def shellAgain : Kernel := (timerIsr 17 programRuns zeroFrame).get (by decide +kernel)

/-- The cell of address 5 of the program. -/
theorem translate_program : translate programRuns.loaded .store 5 = some 0xC00005 := by decide +kernel

/-- The three ticks after the creation. -/
theorem program_ticks : KernelEvent.Happens programReady (.tick zeroFrame) programNext ∧
    KernelEvent.Happens programNext (.tick zeroFrame) programRuns ∧
    KernelEvent.Happens programRuns (.tick zeroFrame) shellAgain :=
  ⟨⟨17, (Option.some_get _).symm⟩, ⟨17, (Option.some_get _).symm⟩, ⟨17, (Option.some_get _).symm⟩⟩

section run
variable {x y : System} (m : Memories)

theorem SystemRun.of_store {c : Fin 16} (hc : x.machine.kernel.currentProcessIdx = c) {va : UInt32} {a : ℕ}
    (ha : translate x.machine.kernel.loaded .store va = some a) (b : UInt8) : SystemRun (x, m) (.store va b)
      ({ x with memory := Function.update x.memory a b }, Function.update m c (Function.update (m c) va b)) :=
  ⟨⟨a, ha, rfl⟩, (Memories.observe_store hc va b).symm⟩

theorem SystemRun.of_create {addr : UInt32} {r : Request} {i : Fin 16}
    (hslot : processListGetInactiveIndex x.machine.kernel = some i) (hcreate : SystemStep x (.create addr r) y) :
    SystemRun (x, m) (.create addr r) (y, Function.update m i (y.window i)) :=
  ⟨hcreate, (Memories.observe_create hslot addr r).symm⟩

theorem SystemRun.of_tick {frame : InterruptFrame} {k : Kernel}
    (ht : KernelEvent.Happens x.machine.kernel (.tick frame) k) :
    SystemRun (x, m) (.tick frame) (⟨⟨k, x.machine.filesystem⟩, x.memory⟩, m) := ⟨⟨ht, rfl, rfl⟩, rfl⟩

/-- What a process has stored stays when another is created and stores at the same address at its turn. -/
theorem SystemRun.of_other {c i : Fin 16} (hci : c ≠ i) {frame : InterruptFrame} {va : UInt32} {a a' : ℕ} {r : Request}
    {k₁ k₂ k₃ : Kernel} {b : UInt8} (b' : UInt8) (hc : x.machine.kernel.currentProcessIdx = c)
    (ha : translate x.machine.kernel.loaded .store va = some a)
    (hslot : processListGetInactiveIndex x.machine.kernel = some i)
    (hcreate : SystemStep { x with memory := Function.update x.memory a b } (.create 0 r) y)
    (h₁ : KernelEvent.Happens y.machine.kernel (.tick frame) k₁) (h₂ : KernelEvent.Happens k₁ (.tick frame) k₂)
    (hi : k₂.currentProcessIdx = i) (ha' : translate k₂.loaded .store va = some a')
    (h₃ : KernelEvent.Happens k₂ (.tick frame) k₃) :
    ∃ z m', Lib.Path SystemRun (x, m) [.store va b, .create 0 r, .tick frame, .tick frame, .store va b', .tick frame] (z, m') ∧
      z.machine.kernel = k₃ ∧ m' c va = b := by
  let x₁ : System := { x with memory := Function.update x.memory a b }
  let y₁ : System := ⟨⟨k₁, y.machine.filesystem⟩, y.memory⟩
  let y₂ : System := ⟨⟨k₂, y.machine.filesystem⟩, y.memory⟩
  let y₃ : System := ⟨⟨k₂, y.machine.filesystem⟩, Function.update y.memory a' b'⟩
  refine ⟨⟨⟨k₃, y.machine.filesystem⟩, y₃.memory⟩, _, .cons (SystemRun.of_store m hc ha b)
    (.cons (SystemRun.of_create (x := x₁) _ hslot hcreate) (.cons (SystemRun.of_tick _ h₁)
      (.cons (SystemRun.of_tick (x := y₁) _ h₂) (.cons (SystemRun.of_store (x := y₂) _ hi ha' b')
        (.cons (SystemRun.of_tick (x := y₃) _ h₃) .nil))))), rfl, ?_⟩
  rw [Function.update_of_ne hci, Function.update_of_ne hci, Function.update_self, Function.update_self]

end run

/-- The program can be created, whatever the shell has stored. -/
theorem program_creates {x : System} (hk : x.machine.kernel = started) (hf : x.machine.filesystem = withFile) :
    ∃ memory y, SystemStep x (.create 0 (programRequest memory)) y ∧ y.machine.kernel = programReady := by
  obtain ⟨g, count, -, hlod⟩ := (kernelSetup_secluded (aloneOn_setup withFile)).lodged
  obtain ⟨n, hn, res, hres⟩ := withFile_reads
  have hl : Lasting (.create (processRequest 0 (programRequest fun _ => 0))) := ⟨by decide, by decide⟩
  have hcheck : creationCheck started (processRequest 0 (programRequest fun _ => 0)) = none := by decide +kernel
  rw [aloneOn_kernel, ← hk] at hlod
  rw [← hk] at hcheck
  rw [← hf] at hres
  obtain ⟨memory, y, hc⟩ := hlod.creates 512 res hl hcheck hn hres
  obtain ⟨hkernel, -, -⟩ := createFromFile_success hc.1 (hres memory).1
  rw [hk] at hkernel
  exact ⟨memory, y, ⟨hl, 512, hc⟩, (congrArg Prod.snd hkernel).symm⟩

end MoggersOs
