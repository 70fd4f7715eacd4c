import MoggersOs.Filesystem.Remount
import MoggersOs.Shell.Exec
/-
# From the image to the shell (`inserter/external-inserter.c`, `kernel/kernel.c`)

The inserter is a program of the host. It is run once for every file, and each time it mounts the image, makes one
`write` and puts the image back. The kernel mounts the same image with a driver of its own, creates a process from the
file `shell` and switches to it. The image is then the store after the writes, and the first process runs what was
inserted under that name (`boots_shell`).

| here | there |
| --- | --- |
| `InserterStep` | a run of the inserter on an image in order, or on one without a signature (`external-inserter.c:33-83`) |
| `Boots`        | `kernel_setup` (`kernel.c:26-66`), with any memory before |
-/

namespace MoggersOs

/-- `t` is the inserter's memory. -/
def InserterStep (x : Disk × Finset Nat) (r : Request) (y : Disk × Finset Nat) : Prop :=
  ∃ t : State, t.disk = x.1 ∧ Ordinary (initializeFilesystemFat32 t).volume x.2 (.write r) ∧
    y.1 = (write (initializeFilesystemFat32 t) r).2.disk ∧
    y.2 = liveAfter (initializeFilesystemFat32 t) x.2 (.write r) (write (initializeFilesystemFat32 t) r).1

/-- `z` is the machine before the switch. -/
def Boots (image : Disk) (y : System) : Prop :=
  ∃ (t : State) (otherDirectory : UInt32 → PageDirectory) (afterMap : ℕ → UInt8) (afterList : ℕ → Pcb)
    (afterUsed : ℕ → UInt8) (memory buf : ℕ → UInt8) (fuel : ℕ) (z : System), t.disk = image ∧
    Creates fuel ⟨⟨bootKernel otherDirectory afterMap afterList afterUsed, initializeFilesystemFat32 t⟩, memory⟩ 0
      { bootRequest with buf := buf } z ∧
    schedulerSwitchToNextProcess 17 z.machine.kernel = some y.machine.kernel ∧
    y.machine.filesystem = z.machine.filesystem ∧ y.memory = z.memory

/-! ## The image -/

theorem isEmptyStorage_of_ne {t : State} (h : firstBlock (readClusters t.disk 0) ≠ fsSignature) : isEmptyStorage t = true := by
  simp only [isEmptyStorage, bne_iff_ne, ne_eq, memcmp_eq_zero]
  exact h

theorem InserterStep.of_write {t u : State} {live live' : Finset Nat} {r : Request} {d : Disk}
    (hu : initializeFilesystemFat32 t = u) (ho : Ordinary u.volume live (.write r)) (hd : d = (write u r).2.disk)
    (hl : live' = liveAfter u live (.write r) (write u r).1) : InserterStep (t.disk, live) r (d, live') := by
  subst hu
  refine ⟨t, ?_, ?_, ?_, ?_⟩
  · dsimp only
  · exact ho
  · exact hd
  · exact hl

/-- To a driver that has been there all along a run of the inserter is one request. -/
theorem InserterStep.request {s : State} {live : Finset Nat} {r : Request} {y : Disk × Finset Nat} (hinv : Inv s.volume live)
    (h : InserterStep (s.disk, live) r y) :
    ∃ s' rep, Step Ordinary (s, live) (.write r, rep) (s', y.2) ∧ s'.disk = y.1 := by
  obtain ⟨t, ht, ho, hdisk, hlive⟩ := h
  have hv : (initializeFilesystemFat32 t).volume = s.volume := hinv.mount ht
  dsimp only at ho hdisk hlive
  generalize initializeFilesystemFat32 t = u at ho hdisk hlive hv
  have hinv' : Inv u.volume live := by
    rw [hv]
    exact hinv
  have hsame : SameVolume (u, live) (s, live) := .of_volume hinv' hv.symm
  obtain ⟨⟨s', live'⟩, hs', -, hv', hlive'⟩ := hsame.step (Step.write ho)
  obtain rfl : live' = y.2 := hlive'.trans hlive.symm
  exact ⟨s', _, hs', (congrArg Volume.disk hv').trans hdisk.symm⟩

theorem InserterStep.requests {rs : List Request} {x y : Disk × Finset Nat} (h : Lib.Path InserterStep x rs y) :
    ∀ {s : State}, Inv s.volume x.2 → s.disk = x.1 → ∃ tr s', Lib.Path (Step Ordinary) (s, x.2) tr (s', y.2) ∧
      s'.disk = y.1 ∧ tr.map Prod.fst = rs.map Op.write := by
  induction h with
  | nil => exact fun _ hs => ⟨[], _, .nil, hs, rfl⟩
  | @cons x x₁ y r rs hr _ ih =>
    intro s hinv hs
    obtain ⟨d, live⟩ := x
    subst hs
    obtain ⟨s₁, rep, hstep, hdisk⟩ := hr.request hinv
    obtain ⟨tr, s', hpath, hdisk', hops⟩ := ih (hstep.inv Ordinary.safe hinv) hdisk
    exact ⟨_, s', .cons hstep hpath, hdisk', congrArg (Op.write r :: ·) hops⟩

/-- The first run of the inserter makes the volume. -/
theorem InserterStep.volume {d₀ d : Disk} {live : Finset Nat} {rs : List Request}
    (hblank : firstBlock (readClusters d₀ 0) ≠ fsSignature) (h : Lib.Path InserterStep (d₀, {rootClusterNumber}) rs (d, live))
    (hrs : rs ≠ []) : ∃ tr s x, tr.map Prod.fst = rs.map Op.write ∧ Lib.Path Serves Files.fresh tr x ∧
      Run Ordinary s live ∧ Represents s.volume live x ∧ s.disk = d := by
  cases h with
  | nil => exact absurd rfl hrs
  | @cons _ x₁ _ r rs hr hpath =>
    obtain ⟨t, rfl, ho, hdisk, hlive⟩ := hr
    have hformat : initializeFilesystemFat32 t = createFat32 t := if_pos (isEmptyStorage_of_ne hblank)
    rw [hformat] at ho hdisk hlive
    have hstep := Step.write ho
    dsimp only at hlive hdisk
    rw [← hlive] at hstep
    have hinv : Inv (write (createFat32 t) r).2.volume x₁.2 := hstep.inv Ordinary.safe (Run.format Ordinary t).inv
    obtain ⟨tr, s, htr, hs, hops⟩ := InserterStep.requests hpath hinv hdisk.symm
    have hall := Lib.Path.cons hstep htr
    obtain ⟨x, hserves, hx⟩ := (Refined.format t).run hall
    have hall' : ((.write r, ⟨(write (createFat32 t) r).1, r.buf⟩) :: tr).map Prod.fst = (r :: rs).map Op.write :=
      congrArg (Op.write r :: ·) hops
    exact ⟨_, s, x, hall', hserves, ⟨t, _, hall⟩, hx.represents, hs⟩

/-! ## The machine -/

/-- What is in the root is found there, except under the root's own name and `..`. -/
theorem Run.root_look {s : State} {live : Finset Nat} {x : Files} {n : FileName} {a : Lib.Node ℕ (List UInt8)}
    (hrun : Run Ordinary s live) (hx : Represents s.volume live x) (hn : x.entry rootClusterNumber n = some a)
    (hown : n.1 ≠ rootName) (hup : n ≠ dotDotName) : x.look dotDotName rootClusterNumber n = some a := by
  refine (Lib.Namespace.look_of_ne (fun he => hown ?_) hup).trans hn
  rw [he, hx.own _ hrun.inv.root]
  exact hrun.safe.headsNamed.1

/-- The creation of the shell. -/
theorem Creates.shell {fuel : ℕ} {k : Kernel} {u : State} {memory buf : ℕ → UInt8} {z : System}
    (h : Creates fuel ⟨⟨k, u⟩, memory⟩ 0 { bootRequest with buf := buf } z) :
    (processCreateUserProcess k shellRequest 0).2 = z.machine.kernel ∧
      ∃ res, read fuel u { bootRequest with buf := buf } = some res ∧ z.machine.filesystem = res.2 := by
  obtain ⟨hcreate, res, -, hread, -⟩ := h
  obtain ⟨hkernel, hfilesystem, -⟩ := createFromFile_success hcreate hread
  have hrequest : processRequest 0 { bootRequest with buf := buf } = shellRequest := rfl
  rw [hrequest] at hkernel
  exact ⟨congrArg Prod.snd hkernel, res, hread, hfilesystem⟩

/-- The driver `u` on volume `v` reads `b` for the request of `kernel_setup`. -/
structure ReadsShell (v : Volume) (u : State) (b : List UInt8) : Prop where
  total  : ∀ buf, ∃ res, read 512 u { bootRequest with buf := buf } = some res
  code   : ∀ {fuel buf res}, read fuel u { bootRequest with buf := buf } = some res → res.1.code = 0
  bytes  : ∀ {fuel buf res}, read fuel u { bootRequest with buf := buf } = some res →
    ∀ i (hi : i < b.length), res.1.buf i = b[i]
  rest   : ∀ {fuel buf res}, read fuel u { bootRequest with buf := buf } = some res →
    ∀ i, 2048 * clustersOf b.length ≤ i → res.1.buf i = buf i
  volume : ∀ {fuel buf res}, read fuel u { bootRequest with buf := buf } = some res → res.2.volume = v

section machine
variable {s : State} {live : Finset Nat} {x : Files} {b : List UInt8} (hrun : Run Ordinary s live)
  (hx : Represents s.volume live x) (hb : x.entry rootClusterNumber (shellRequest.name, fun _ => 0) = some (.file b))
include hrun hx hb

theorem boot_length : 2048 * clustersOf b.length ≤ 0x100000 :=
  hx.file_clusters hrun.inv hrun.inv.root (hrun.root_look hx hb (by decide) (by decide))

/-- The driver of the kernel. -/
theorem boot_reads {t : State} (ht : t.disk = s.disk) : ReadsShell s.volume (initializeFilesystemFat32 t) b := by
  have hv : (initializeFilesystemFat32 t).volume = s.volume := hrun.inv.mount ht
  have hlook := hrun.root_look hx hb (by decide) (by decide)
  have hlen := boot_length hrun hx hb
  rw [clustersOf_eq_ceil] at hlen
  generalize initializeFilesystemFat32 t = u at hv ⊢
  have hinv := hrun.inv
  have hrows := hrun.rowsNamed
  rw [← hv] at hx hinv hrows
  have hall : ∀ r : Request, r.parent = rootClusterNumber → r.fileName = (shellRequest.name, fun _ => 0) →
      r.bufferSize.toNat = 0x100000 → (∃ res, read 512 u r = some res) ∧ ∀ fuel res, read fuel u r = some res →
        res.1.code = 0 ∧ (∀ i (hi : i < b.length), res.1.buf i = b[i]) ∧
        (∀ i, 2048 * clustersOf b.length ≤ i → res.1.buf i = r.buf i) ∧ res.2.volume = s.volume := by
    intro r hparent hname hsize
    rw [← hname] at hlook
    obtain ⟨hnamed, hres, hall⟩ := hx.reads hinv hrows hrun.inv.root hparent hlook (by omega)
    refine ⟨hres, fun fuel res hread => ?_⟩
    obtain ⟨hcode, hbytes, hrest⟩ := hall fuel res hread
    obtain ⟨rep, u'⟩ := res
    obtain ⟨-, hsame⟩ := read_serves hinv hx ⟨hparent ▸ hrun.inv.root, hnamed⟩ hread
    exact ⟨hcode, hbytes, hrest, hsame.trans hv⟩
  have hboot := fun buf => hall { bootRequest with buf := buf } rfl rfl rfl
  exact ⟨fun buf => (hboot buf).1, fun h => ((hboot _).2 _ _ h).1, fun h => ((hboot _).2 _ _ h).2.1,
    fun h => ((hboot _).2 _ _ h).2.2.1, fun h => ((hboot _).2 _ _ h).2.2.2⟩

/-- The machine boots. -/
theorem exists_boots : ∃ y, Boots s.disk y := by
  have hlen := boot_length hrun hx hb
  have hreads := boot_reads hrun hx hb (t := s) rfl
  have hl : Lasting (.create shellRequest) :=
    ⟨(by decide : (1 : UInt32) ≤ 0x100000), (by decide : (0x100000 : UInt32) ≤ 0x400000)⟩
  have hcreates : ∀ u : State, ReadsShell s.volume u b →
      ∃ buf z, Creates 512 ⟨⟨quietKernel, u⟩, fun _ => 0⟩ 0 { bootRequest with buf := buf } z := by
    intro u hu
    choose res hres using hu.total
    exact (bootKernel_lodged (fun _ => zeroDirectory) (fun _ => 0) (fun _ => zeroPcb) fun _ => 0).creates 512 res hl
      (creationCheck_shell _ _ _ _) (Nat.le_trans hlen (by decide)) fun buf =>
        ⟨hres buf, hu.code (hres buf), hu.rest (hres buf)⟩
  obtain ⟨buf, z, hc⟩ := hcreates _ hreads
  refine ⟨⟨⟨started, z.machine.filesystem⟩, z.memory⟩, s, _, _, _, _, _, buf, 512, z, rfl, hc, ?_, rfl, rfl⟩
  rw [← hc.shell.1]
  exact started_eq

/-- The machine runs the shell. -/
theorem Boots.runs {y : System} (h : Boots s.disk y) : y.machine.filesystem.volume = s.volume ∧
    y.machine.kernel.currentProcessIdx = 0 ∧ handedContext y.machine.kernel = initialContext shellRequest (ownDirectory 0) ∧
    ∀ j (hj : j < b.length) v, SystemStep y (.load (UInt32.ofNat j) v) y ↔ v = b[j] := by
  obtain ⟨t, otherDirectory, afterMap, afterList, afterUsed, memory, buf, fuel, z, ht, hc, hswitch, hfilesystem, hmemory⟩ := h
  have hlen := boot_length hrun hx hb
  have hreads := boot_reads hrun hx hb ht
  generalize initializeFilesystemFat32 t = u at hc hreads
  have hl : Lasting (.create (processRequest 0 { bootRequest with buf := buf })) :=
    ⟨(by decide : (1 : UInt32) ≤ 0x100000), (by decide : (0x100000 : UInt32) ≤ 0x400000)⟩
  obtain ⟨i, res, hres, hslot, hused, hctx, hfinds⟩ :=
    (bootKernel_lodged otherDirectory afterMap afterList afterUsed).created hl hc
  obtain rfl : (0 : Fin 16) = i := Option.some.inj hslot
  obtain ⟨hkernel, res', hres', hstate⟩ := hc.shell
  rw [← hkernel] at hused hctx hfinds hswitch
  have hfirst := firstProcess_boot otherDirectory afterMap afterList afterUsed
  have hzero := (hfirst.used 0).2 rfl
  have hto := schedulerSwitch_switchedTo hfirst.current hfirst.next hzero hzero hswitch
  have hspace := (kernelSetup_lodged otherDirectory afterMap afterList afterUsed hswitch).2
  have hsecluded := kernelSetup_secluded hswitch
  have hwaits : Waits 0 _ _ _ y y.window := ⟨by rw [hto.used]; exact hused, (hto.context 0).trans hctx, rfl, rfl⟩
  obtain ⟨hcontext, hload⟩ := hwaits.turn hsecluded hto.current
  refine ⟨?_, hto.current, hcontext, fun j hj v => ?_⟩
  · rw [hfilesystem, hstate]
    exact hreads.volume hres'
  · rw [clustersOf_eq_ceil] at hlen
    obtain ⟨a, ha, hmem⟩ := hfinds j (by omega)
    rw [← hspace] at ha
    rw [hload _ a v ha, ← hsecluded.own 0 _ a ha, hmemory, hmem, hreads.bytes hres j hj]

end machine

/-- **The machine boots into what was inserted.** After any runs of the inserter, from an image without a signature on,
the image is the store after their writes, and so is what any driver mounts from it. If that has a file `shell` in the
root, the machine boots from the image, and in whatever way it does, the first process is at address 0, finds the bytes
of that file there, and the store is the driver's. -/
theorem boots_shell {d₀ d : Disk} {live : Finset Nat} {rs : List Request}
    (hblank : firstBlock (readClusters d₀ 0) ≠ fsSignature)
    (h : Lib.Path InserterStep (d₀, {rootClusterNumber}) rs (d, live)) (hrs : rs ≠ []) :
    ∃ tr, ∃ s : State, ∃ x, tr.map Prod.fst = rs.map Op.write ∧ Lib.Path Serves Files.fresh tr x ∧
      s.disk = d ∧ Represents s.volume live x ∧
      (∀ t : State, t.disk = d → Represents (initializeFilesystemFat32 t).volume live x) ∧
      ∀ b, x.entry rootClusterNumber (shellRequest.name, fun _ => 0) = some (.file b) →
        (∃ y, Boots d y) ∧ ∀ y, Boots d y → Represents y.machine.filesystem.volume live x ∧
          y.machine.kernel.currentProcessIdx = 0 ∧
          handedContext y.machine.kernel = initialContext shellRequest (ownDirectory 0) ∧
          ∀ j (hj : j < b.length) v, SystemStep y (.load (UInt32.ofNat j) v) y ↔ v = b[j] := by
  obtain ⟨tr, s, x, hops, hserves, hrun, hx, rfl⟩ := InserterStep.volume hblank h hrs
  have hmount : ∀ t : State, t.disk = s.disk → Represents (initializeFilesystemFat32 t).volume live x := by
    intro t ht
    have hv : (initializeFilesystemFat32 t).volume = s.volume := hrun.inv.mount ht
    rw [hv]
    exact hx
  refine ⟨tr, s, x, hops, hserves, rfl, hx, hmount, fun b hb => ⟨exists_boots hrun hx hb, fun y hy => ?_⟩⟩
  obtain ⟨hvol, hcurrent, hcontext, hload⟩ := hy.runs hrun hx hb
  exact ⟨hvol ▸ hx, hcurrent, hcontext, hload⟩

/-- A shell of five bytes. -/
def shellFile : Request := ⟨fun _ => 1, shellRequest.name, fun _ => 0, 2, 5⟩

/-- The image it is on. -/
def shellImage : Disk := (write (createFat32 blankState) shellFile).2.disk

theorem shellImage_inserted : ∃ live, Lib.Path InserterStep (blankState.disk, {rootClusterNumber}) [shellFile] (shellImage, live) := by
  have hformat : initializeFilesystemFat32 blankState = createFat32 blankState :=
    if_pos (isEmptyStorage_of_ne fun h => absurd (congrFun h 0) (by decide))
  have hord : Ordinary (createFat32 blankState).volume {rootClusterNumber} (.write shellFile) := by
    refine ⟨by decide, by decide, fun _ => rfl, ?_⟩
    rw [createFat32_fits]
    decide
  exact ⟨_, .cons (.of_write hformat hord rfl rfl) .nil⟩

/-- The fifth byte of the shell. -/
theorem boots_shell_file : ∃ y, Boots shellImage y ∧ ∀ v, SystemStep y (.load 4 v) y ↔ v = 1 := by
  obtain ⟨live, hinserted⟩ := shellImage_inserted
  obtain ⟨tr, s, x, hops, hserves, -, -, -, hboots⟩ :=
    boots_shell (fun h => absurd (congrFun h 0) (by decide)) hinserted (List.cons_ne_nil _ _)
  have hentry : x.entry rootClusterNumber (shellRequest.name, fun _ => 0) = some (.file shellFile.bytes) := by
    cases hserves with
    | nil => cases hops
    | @cons _ _ _ e _ hserve hnil =>
      obtain ⟨op, rep⟩ := e
      obtain ⟨rfl, htr⟩ := List.cons.inj hops
      obtain rfl := List.map_eq_nil_iff.1 htr
      cases hnil
      exact hserve.freshFile (by decide)
  obtain ⟨⟨y, hy⟩, hruns⟩ := hboots _ hentry
  obtain ⟨-, -, -, hload⟩ := hruns y hy
  exact ⟨y, hy, fun v => hload 4 (by decide) v⟩

end MoggersOs
