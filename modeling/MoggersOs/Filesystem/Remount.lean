import MoggersOs.Filesystem.Runs
/-
# The reserved clusters and a restart of the driver

`initialize_filesystem_fat32` decides from the boot block whether a disk is formatted, and then trusts
the table it finds in cluster 1. `reserved_area_kept` says that runs of safe requests never touch what it
looks at; `remount_equivalence` that after ordinary requests a restart makes no difference, since a
volume in order decides all replies (`exec_eq`) and the disk holds the whole volume.
-/

namespace MoggersOs

/-! ## The boot block -/

theorem Inv.not_emptyStorage {v : Volume} {live : Finset Nat} (h : Inv v live) {t : State} (ht : t.disk = v.disk) :
    isEmptyStorage t = false := by
  simp only [isEmptyStorage, bne_eq_false_iff_eq, memcmp_eq_zero]
  rw [ht, h.boot]

/-- Mounting a volume in order loads its table, whatever was in memory before. -/
theorem Inv.mount {v : Volume} {live : Finset Nat} (h : Inv v live) {t : State} (ht : t.disk = v.disk) :
    (initializeFilesystemFat32 t).volume = v := by
  have hfat : decodeFat (readClusters t.disk fatClusterNumber) = v.fat := by
    rw [ht, show readClusters v.disk fatClusterNumber = encodeFat v.fat from h.synced, decodeFat_encodeFat]
  rw [initializeFilesystemFat32, h.not_emptyStorage ht, if_neg (by decide), State.volume, State.loadFat, hfat, ht]

/-- **The reserved area stays** in every run in which each write fits or is refused and each delete
picks a row in use or none, under any names: the boot block keeps the signature, entries 0, 1 and 2 of
the table are not empty, and mounting the disk again does not format it. -/
theorem reserved_area_kept {s : State} {live : Finset Nat} (h : Run Safe s live) :
    firstBlock (readClusters s.disk 0) = fsSignature ∧
    s.fatTable.get 0 ≠ fatEmptyEntry ∧ s.fatTable.get 1 ≠ fatEmptyEntry ∧ s.fatTable.get 2 ≠ fatEmptyEntry ∧
    ∀ t : State, t.disk = s.disk → isEmptyStorage t = false ∧ (initializeFilesystemFat32 t).disk = s.disk := by
  have hinv := h.safe_inv
  refine ⟨hinv.boot, ?_, ?_, ?_, fun t ht => ⟨hinv.not_emptyStorage ht, ?_⟩⟩
  · exact fun h0 => absurd (hinv.fat0.symm.trans h0) (by decide)
  · exact fun h1 => absurd (hinv.fat1.symm.trans h1) (by decide)
  · exact fun h2 => absurd (hinv.fat2.symm.trans h2) (by decide)
  · have hdisk := congrArg Volume.disk (hinv.mount ht)
    rwa [State.volume_disk, State.volume_disk] at hdisk

/-- On a volume with one folder. -/
theorem reserved_area_kept_folder :
    Run Safe (write (createFat32 blankState) folderRequest).2 {3, rootClusterNumber} ∧
      (write (createFat32 blankState) folderRequest).2.fatTable.get 0 ≠ fatEmptyEntry :=
  have hrun := Run.folder ((folderRequest_ordinary blankState).safe (createFat32_inv blankState))
  ⟨hrun, (reserved_area_kept hrun).2.1⟩

/-! ## A delete that picks an unused row -/

/-- The row of a directory that was never used names cluster 0, and `delete` does not look whether the
row is in use: it empties entry 0 and overwrites the boot block, then follows `CLUSTER_0_VALUE` out of
the table. Where the word it finds there is the end mark it returns 0. -/
theorem deleteFile_unused (s : State) (r : Request) (row : Fin 64) (fuel : Nat)
    (h0 : s.fatTable.get 0 = cluster0Value) (hout : s.outside cluster0Value.toNat = fatEndOfFile) :
    ∃ s', deleteFile (fuel + 2) s r row 0 = some (0, s') ∧ s'.fatTable.get 0 = fatEmptyEntry ∧
      readClusters s'.disk 0 = zeroCluster := by
  have hc0 : (s.storeRow row zeroEntry r.parent).clusterMap 0 = cluster0Value := h0
  have hnext : (eraseCluster (s.storeRow row zeroEntry r.parent) 0).clusterMap cluster0Value.toNat =
      fatEndOfFile := by
    rw [State.clusterMap_of_ge _ (by decide) (by decide)]
    exact hout
  have hwalk : eraseChain (fuel + 2) (eraseCluster (s.storeRow row zeroEntry r.parent) 0) 0 cluster0Value =
      some (eraseCluster (eraseCluster (s.storeRow row zeroEntry r.parent) 0) cluster0Value.toNat,
        cluster0Value.toNat) := by
    rw [eraseChain, if_neg (by decide), hnext, eraseChain, if_pos rfl]
  refine ⟨_, by simp only [deleteFile, hc0, hwalk]; rfl, ?_, ?_⟩
  · simp only [State.flushFat, State.writeClusters, State.setClusterMap_endOfFile, eraseCluster,
      State.setClusterMap_of_ge _ (show 1536 ≤ cluster0Value.toNat by decide) (by decide)]
    exact Fat.get_set_self _ (by decide) _
  · have hmod : cluster0Value.toNat % 2 ^ 26 ≠ 0 % 2 ^ 26 := by decide
    simp only [State.flushFat, State.writeClusters, State.setClusterMap_endOfFile, eraseCluster,
      State.setClusterMap_of_ge _ (show 1536 ≤ cluster0Value.toNat by decide) (by decide)]
    rw [readClusters_writeClusters_of_mod_ne _ _ hmod,
      readClusters_writeClusters_of_ne _ _ (by decide) (by decide) (by decide),
      readClusters_writeClusters_of_mod_ne _ _ hmod]
    exact readClusters_writeClusters _ _ _

/-- `rm` without an argument in the root directory. -/
def blankRequest : Request := ⟨fun _ => 0, fun _ => 0, fun _ => 0, 2, 0⟩

theorem findRow_blankRequest : findRow formattedRoot blankRequest = some 2 := by decide

/-- On a fresh volume it takes row 2 for the file to remove. -/
theorem delete_blankRequest (s : State) (fuel : Nat) :
    delete fuel (createFat32 s) blankRequest =
      deleteFile fuel ((createFat32 s).loadDirTable rootClusterNumber) blankRequest 2 0 := by
  have htab : ((createFat32 s).loadDirTable blankRequest.parent).dirTableBuf = formattedRoot :=
    createFat32_table s
  have h2 : formattedRoot 2 = zeroEntry := formattedRoot_of_ge (by decide)
  simp only [delete, htab, isDirectory_formattedRoot, findRow_blankRequest, h2, Bool.not_true,
    Bool.false_eq_true, if_false]
  rfl

/-- The reserved area does not survive every run: after `create_fat32`, one `delete` with a blank name
empties entry 0 and wipes the boot block, and the next mount formats the disk. -/
theorem reserved_area_lost : ¬ ∀ s live, Run LiveParent s live →
    firstBlock (readClusters s.disk 0) = fsSignature ∧
    s.fatTable.get 0 ≠ fatEmptyEntry ∧ s.fatTable.get 1 ≠ fatEmptyEntry ∧ s.fatTable.get 2 ≠ fatEmptyEntry ∧
    ∀ t : State, t.disk = s.disk → isEmptyStorage t = false ∧ (initializeFilesystemFat32 t).disk = s.disk := by
  intro h
  have hrun := Run.format LiveParent { blankState with outside := fun _ => fatEndOfFile }
  obtain ⟨s', hdel, hfat, -⟩ := deleteFile_unused
    ((createFat32 { blankState with outside := fun _ => fatEndOfFile }).loadDirTable rootClusterNumber)
    blankRequest 2 0 rfl rfl
  rw [← delete_blankRequest] at hdel
  have hx : exec 2 (createFat32 { blankState with outside := fun _ => fatEndOfFile }) (.delete blankRequest) =
      some (⟨0, blankRequest.buf⟩, s') := by
    rw [exec, hdel]
    rfl
  have hkind : LiveParent (createFat32 { blankState with outside := fun _ => fatEndOfFile }).volume
      {rootClusterNumber} (.delete blankRequest) := by
    show blankRequest.parent ∈ ({rootClusterNumber} : Finset Nat)
    decide
  exact (h s' _ (hrun.step hkind hx)).2.1 hfat

/-! ## Restart -/

/-- What the driver does to the set of directories depends on the volume only. -/
theorem liveAfter_congr {s t : State} {live : Finset Nat} {op : Op} (hv : t.volume = s.volume)
    (ho : Ordinary s.volume live op) (code : Int) : liveAfter t live op code = liveAfter s live op code := by
  by_cases hc : code = 0
  swap
  · rw [liveAfter_of_ne _ _ _ hc, liveAfter_of_ne _ _ _ hc]
  subst hc
  cases op with
  | write r =>
    by_cases hz : r.bufferSize = 0
    · have hfit := ho.2.2.2
      simp only [Volume.Fits, Volume.needed, if_pos hz] at hfit
      have hfat : t.fatTable = s.fatTable := congrArg Volume.fat hv
      cases hfree : s.fatTable.freeClusters with
      | nil => simp [hfree] at hfit
      | cons c l =>
        have hs := (findEmptyCluster_eq (s := s.loadDirTable r.parent) hfree).1
        have ht := (findEmptyCluster_eq (s := t.loadDirTable r.parent) (hfat.symm ▸ hfree)).1
        rw [liveAfter_mkdir hz, liveAfter_mkdir hz, created, created, hs, ht]
    · rw [liveAfter_mkfile hz, liveAfter_mkfile hz]
  | delete r =>
    show removeFound (t.volume.table r.parent) r live = removeFound (s.volume.table r.parent) r live
    rw [hv]
  | read r => rfl
  | readDirectory r => rfl

/-- Two drivers on the same volume in order, with the same directories. -/
def SameVolume (x y : State × Finset Nat) : Prop :=
  Inv x.1.volume x.2 ∧ y.1.volume = x.1.volume ∧ y.2 = x.2

theorem SameVolume.of_volume {s t : State} {live : Finset Nat} (h : Inv s.volume live)
    (hv : t.volume = s.volume) : SameVolume (s, live) (t, live) := ⟨h, hv, rfl⟩

/-- **A driver on the same volume follows every request**, with the same reply. -/
theorem SameVolume.step {x y x' : State × Finset Nat} {a : Op × Reply} (h : SameVolume x y)
    (hs : Step Ordinary x a x') : ∃ y', Step Ordinary y a y' ∧ SameVolume x' y' := by
  obtain ⟨hinv, hv, hl⟩ := h
  obtain ⟨fuel, hx⟩ := hs.exec
  obtain ⟨hrep, hvol⟩ := exec_volume hinv hs.kind hx
  have hkind : Ordinary y.1.volume y.2 a.1 := by
    rw [hv, hl]
    exact hs.kind
  obtain ⟨t, ht, htv⟩ := exec_eq (Nat.le_refl 512) (hv.symm ▸ hl.symm ▸ hinv) hkind
  refine ⟨(t, x'.2), ⟨hkind, ⟨512, ?_⟩, ?_⟩, Step.inv Ordinary.safe hinv hs, ?_, rfl⟩
  · rw [ht, hv, hrep]
  · rw [hs.live, hl]
    exact (liveAfter_congr hv hs.kind _).symm
  · rw [htv, hv, hvol]

theorem SameVolume.path {x y x' : State × Finset Nat} {tr : List (Op × Reply)} (h : SameVolume x y)
    (hp : Lib.Path (Step Ordinary) x tr x') : ∃ y', Lib.Path (Step Ordinary) y tr y' ∧ SameVolume x' y' := by
  have hsim : ∀ x y a x', SameVolume x y → Step Ordinary x a x' → ∃ y', Step Ordinary y a y' ∧ SameVolume x' y' :=
    fun _ _ _ _ hr hs => hr.step hs
  exact hp.simulate hsim h

/-- **A restart makes no difference.** After any ordinary requests, throw the driver's memory away and
mount the disk again: every sequence of ordinary requests that one of the two drivers answers, the other
answers with the same replies and the same disk at its end; and each of them answers every ordinary
request. -/
theorem remount_equivalence {s t : State} {live : Finset Nat} (h : Run Ordinary s live) (ht : t.disk = s.disk) :
    (∀ tr s' live', Lib.Path (Step Ordinary) (s, live) tr (s', live') →
      ∃ t', Lib.Path (Step Ordinary) (initializeFilesystemFat32 t, live) tr (t', live') ∧ t'.disk = s'.disk) ∧
    (∀ tr t' live', Lib.Path (Step Ordinary) (initializeFilesystemFat32 t, live) tr (t', live') →
      ∃ s', Lib.Path (Step Ordinary) (s, live) tr (s', live') ∧ s'.disk = t'.disk) ∧
    (∀ op, Ordinary s.volume live op → ∃ rep s' t', exec 512 s op = some (rep, s') ∧
      exec 512 (initializeFilesystemFat32 t) op = some (rep, t')) := by
  have hinv := h.inv
  have hv := hinv.mount ht
  have hinv' : Inv (initializeFilesystemFat32 t).volume live := by
    rw [hv]
    exact hinv
  refine ⟨fun tr s' live' hp => ?_, fun tr t' live' hp => ?_, fun op ho => ?_⟩
  · have hsame : SameVolume (s, live) (initializeFilesystemFat32 t, live) := .of_volume hinv hv
    obtain ⟨⟨t', l'⟩, hp', -, hv', rfl⟩ := hsame.path hp
    exact ⟨t', hp', congrArg Volume.disk hv'⟩
  · have hsame : SameVolume (initializeFilesystemFat32 t, live) (s, live) := .of_volume hinv' hv.symm
    obtain ⟨⟨s', l'⟩, hp', -, hv', rfl⟩ := hsame.path hp
    exact ⟨s', hp', congrArg Volume.disk hv'⟩
  · obtain ⟨s', hs', -⟩ := exec_eq (Nat.le_refl 512) hinv ho
    obtain ⟨t', ht', -⟩ := exec_eq (Nat.le_refl 512) hinv' (hv.symm ▸ ho)
    rw [hv] at ht'
    exact ⟨_, s', t', hs', ht'⟩

/-- `mkdir a`, a restart with blank memory, `rm a`: the same reply as without the restart. -/
theorem remount_folder :
    ∃ rep s' t', exec 512 (write (createFat32 blankState) folderRequest).2 (.delete folderRequest) = some (rep, s') ∧
      exec 512 (initializeFilesystemFat32
        { blankState with disk := (write (createFat32 blankState) folderRequest).2.disk })
        (.delete folderRequest) = some (rep, t') := by
  have hrun := Run.folder (folderRequest_ordinary blankState)
  generalize (write (createFat32 blankState) folderRequest).2 = s at hrun ⊢
  have hdisk : ({ blankState with disk := s.disk } : State).disk = s.disk := rfl
  have hord : Ordinary s.volume {3, rootClusterNumber} (.delete folderRequest) := ⟨by decide, by decide⟩
  exact (remount_equivalence hrun hdisk).2.2 _ hord

end MoggersOs
