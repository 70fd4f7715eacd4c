import MoggersOs.Kernel.FirstTurn
import MoggersOs.Shell.Session
/-
# A program is executed (`user_mode/command_list/exec.c`)

`exec` names a file of the directory that the shell stands in, and system call 15 makes a process of it. The file is read
by the driver into the page of a directory that the process manager has just set up, the process waits for the timer,
and the shell goes on meanwhile. At its first turn the process is at address 0, and finds there the bytes of the file
(`exec_runs`).

| here | there |
| --- | --- |
| `execRequest` | `request` of system call 15 (`interrupt.c:148-154`) for the arguments of `exec` (`exec.c:3-6`); `buf` is address 0 |
-/

namespace MoggersOs

/-- `memory` is what is at address 0 before. -/
def execRequest (memory : ℕ → UInt8) (sh : Shell) (argument : Arg) : Request where
  buf := memory
  name := argument.info
  ext := fun _ => 0
  parentClusterNumber := getClusterNumber sh.dirTable
  bufferSize := 0x100000

/-! ## The file -/

/-- A request for a file, with a buffer that is large enough. -/
theorem Stands.reads {sh : Shell} {s : State} {live : Finset Nat} {d : Nat} {x : Files} {r : Request} {b : List UInt8}
    (h : Stands sh s live d) (hx : Represents s.volume live x) (hparent : r.parent = d)
    (hn : x.look dotDotName d r.fileName = some (.file b)) (hsize : b.length ≤ r.bufferSize.toNat) :
    r.Named ∧ (∃ res, MoggersOs.read 512 s r = some res) ∧
      ∀ fuel res, MoggersOs.read fuel s r = some res → res.1.code = 0 ∧
        (∀ i (hi : i < b.length), res.1.buf i = b[i]) ∧
        ∀ i, 2048 * clustersOf b.length ≤ i → res.1.buf i = r.buf i :=
  hx.reads h.run.inv h.run.rowsNamed h.alive hparent hn hsize

/-- What a file's name asks of `read`. -/
theorem Stands.read_file {sh : Shell} {s : State} {live : Finset Nat} {d : Nat} {x : Files} {argument : Arg}
    {b : List UInt8} (memory : ℕ → UInt8) (h : Stands sh s live d) (hx : Represents s.volume live x)
    (hn : x.look dotDotName d (argument.info, fun _ => 0) = some (.file b)) :
    (∃ res, MoggersOs.read 512 s (execRequest memory sh argument) = some res) ∧
      ∀ fuel res, MoggersOs.read fuel s (execRequest memory sh argument) = some res → res.1.code = 0 ∧
        (∀ i (hi : i < b.length), res.1.buf i = b[i]) ∧
        ∀ i, 2048 * clustersOf b.length ≤ i → res.1.buf i = memory i := by
  have hparent : (execRequest memory sh argument).parent = d := h.here
  have hsize : (execRequest memory sh argument).bufferSize.toNat = 0x100000 := rfl
  have hlen := hx.file_clusters h.run.inv h.alive hn
  rw [clustersOf_eq_ceil] at hlen
  exact (h.reads hx hparent hn (by omega)).2

/-! ## The process -/

/-- **A program is executed.** The shell stands where its path leads to. If `exec` names a file there and the checks are
passed, the process is created; and whatever runs before its first turn, at that turn it is at address 0 and loads the bytes
of the file from there on. -/
theorem exec_runs {otherDirectory : UInt32 → PageDirectory} {afterMap : ℕ → UInt8} {afterList : ℕ → Pcb}
    {afterUsed : ℕ → UInt8} {x₀ x : System} {m : Memories} {events : List SystemEvent}
    (hboot : kernelSetup (bootKernel otherDirectory afterMap afterList afterUsed) = some x₀.machine.kernel)
    (hrun : Lib.Path SystemRun (x₀, x₀.window) events (x, m)) {s : State} {live : Finset Nat} (hvol : Run Ordinary s live)
    {garbage : Fin 3 → UInt8} {cmds : List (FileCommand × ℕ)} {sh : Shell}
    (hcmds : Lib.Path FileCommand.Given (cdRoot garbage s) cmds (sh, x.machine.filesystem)) :
    ∃ live' files d ns, Represents x.machine.filesystem.volume live' files ∧ d ∈ live' ∧
      files.Leads rootClusterNumber ns d ∧ sh.path.map Arg.name = rootName :: ns.map Prod.fst ∧
      ∀ argument b, files.look dotDotName d (argument.info, fun _ => 0) = some (.file b) →
        (creationCheck x.machine.kernel (processRequest 0 (execRequest (fun _ => 0) sh argument)) = none →
          ∃ memory y, SystemStep x (.create 0 (execRequest memory sh argument)) y) ∧
        ∀ memory y, SystemStep x (.create 0 (execRequest memory sh argument)) y → ∃ i : Fin 16,
          processListGetInactiveIndex x.machine.kernel = some i ∧
          ∀ later z m', Lib.Path (WaitingStep i) (y, m.observe x (.create 0 (execRequest memory sh argument)) y) later (z, m') →
            z.machine.kernel.currentProcessIdx = i →
            handedContext z.machine.kernel =
              initialContext (processRequest 0 (execRequest memory sh argument)) (ownDirectory i) ∧
            ∀ j (hj : j < b.length) v, SystemStep z (.load (UInt32.ofNat j) v) z ↔ v = b[j] := by
  have hx := (kernelSetup_secluded hboot).run hrun
  obtain ⟨_, _, -, hlod⟩ := hx.lodged
  obtain ⟨live', files, d, ns, hsound, hfiles, hleads, hnames, -⟩ := session_refined hvol hcmds
  refine ⟨live', files, d, ns, hfiles.represents, hsound.alive, hleads, hnames, fun argument b hb => ?_⟩
  have hlen := hfiles.represents.file_clusters hfiles.inv hsound.alive hb
  have hread := fun memory => hsound.toStands.read_file memory hfiles.represents hb
  constructor
  · intro hcheck
    choose res hres using fun memory => (hread memory).1
    have hl : Lasting (.create (processRequest 0 (execRequest (fun _ => 0) sh argument))) :=
      ⟨(by decide : (1 : UInt32) ≤ 0x100000), (by decide : (0x100000 : UInt32) ≤ 0x400000)⟩
    obtain ⟨memory, y, hc⟩ := hlod.creates 512 res hl hcheck (Nat.le_trans hlen (by decide)) fun memory => by
      obtain ⟨hcode, -, hrest⟩ := (hread memory).2 _ _ (hres memory)
      exact ⟨hres memory, hcode, hrest⟩
    exact ⟨memory, y, hl, 512, hc⟩
  · intro memory y hstep
    obtain ⟨hl, fuel, hc⟩ := hstep
    obtain ⟨i, res, hres, hslot, hused, hctx, hfinds⟩ := hlod.created hl hc
    obtain ⟨-, hbytes, -⟩ := (hread memory).2 _ _ hres
    have hy := hx.create hl hc
    refine ⟨i, hslot, fun later z m' hlater hturn => ?_⟩
    obtain ⟨hz, hsecluded⟩ := Waits.run ⟨hused, hctx, rfl, rfl⟩ hy hlater
    obtain ⟨hcontext, hload⟩ := hz.turn hsecluded hturn
    refine ⟨hcontext, fun j hj v => ?_⟩
    rw [clustersOf_eq_ceil] at hlen
    obtain ⟨a, ha, hmem⟩ := hfinds j (by omega)
    rw [hload _ a v ha, ← hy.own i _ a ha, hmem, hbytes j hj]

theorem aloneOn_session {z y : Shell × State} {cmds : List (FileCommand × ℕ)} (h : Lib.Path FileCommand.Given z cmds y) :
    Lib.Path FileCommand.Given z cmds (y.1, (aloneOn y.2).machine.filesystem) := h

theorem aloneOn_check (s : State) (sh : Shell) :
    creationCheck (aloneOn s).machine.kernel (processRequest 0 (execRequest (fun _ => 0) sh fWord.arg)) = none := by
  have hcheck : creationCheck started ⟨0, fWord.arg.info, 0x100000⟩ = none := by decide +kernel
  exact hcheck

/-- `mkdir g`, and `exec f`. -/
theorem exec_runs_file : ∃ memory y,
    SystemStep (aloneOn besideBoth.2) (.create 0 (execRequest memory besideBoth.1 fWord.arg)) y ∧
    ∃ (i : Fin 16) (b : List UInt8), ∀ later z m', Lib.Path (WaitingStep i) (y, Memories.observe (aloneOn besideBoth.2).window
      (aloneOn besideBoth.2) (.create 0 (execRequest memory besideBoth.1 fWord.arg)) y) later (z, m') →
      z.machine.kernel.currentProcessIdx = i →
      ∀ j (hj : j < b.length) v, SystemStep z (.load (UInt32.ofNat j) v) z ↔ v = b[j] := by
  obtain ⟨live', files, d, ns, hfiles, hd, hleads, hns, hexec⟩ := exec_runs (aloneOn_setup besideBoth.2) .nil
    withFile_run (aloneOn_session besideBoth_path)
  rw [aloneOn_filesystem] at hfiles
  obtain ⟨b, hb⟩ := besideBoth_look hfiles hd hleads hns
  have hname : (fileRequest 5).fileName = (fWord.arg.info, fun _ => 0) := by decide
  rw [hname] at hb
  obtain ⟨hcreates, hruns⟩ := hexec _ b hb
  obtain ⟨memory, y, hy⟩ := hcreates (aloneOn_check _ _)
  obtain ⟨i, -, hlater⟩ := hruns memory y hy
  exact ⟨memory, y, hy, i, b, fun later z m' hz hturn => (hlater later z m' hz hturn).2⟩

end MoggersOs
