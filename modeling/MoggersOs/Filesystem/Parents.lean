import MoggersOs.Filesystem.Free
import MoggersOs.Filesystem.RoundTrip
/-
# Which clusters pass for a parent directory

`write` and `delete` take any cluster number for the parent and look at two bytes of the cluster, the
attribute and the user attribute of row 0 (`fat32.c:217-224`, `372-379`). Of the clusters that are no directory
the boot cluster, the table, zeroed clusters and removed folders all fail this test. What passes is user data
with the right bytes at offsets 11 and 12 (`Forged`), and a directory from before the last format that nothing
has overwritten since (`Stale`).

| here | there |
| --- | --- |
| `LooksLikeDirectory` | `attribute` and `user_attribute` of row 0 (`fat32.h:82-86`) |
| `RejectsParent`      | the codes for an invalid parent, `fat32.h:233-248` |
-/

namespace MoggersOs

/-- Bytes 11 and 12, as the check reads them. -/
def LooksLikeDirectory (x : Cluster) : Prop := x 11 = attrSubdirectory ∧ x 12 = uattrNotEmpty

theorem isDirectory_decodeTable {x : Cluster} : isDirectory (decodeTable x) = true ↔ LooksLikeDirectory x := by
  rw [isDirectory_iff, LooksLikeDirectory, and_comm]
  rfl

/-- `write` returns 2 and `delete` -1, and the disk and the table in memory stay. -/
structure RejectsParent (s : State) (r : Request) : Prop where
  write  : (write s r).1 = 2 ∧ (write s r).2.volume = s.volume
  delete : ∀ fuel, ∃ s', delete fuel s r = some (-1, s') ∧ s'.volume = s.volume

/-- The parent is a cluster of a file whose contents look like a directory. -/
def Forged (v : Volume) (live : Finset Nat) (p : Nat) : Prop :=
  (∃ d i l, v.LiveRow live d i ∧ ¬ (v.table d i).Folder ∧ Lib.Chain v.next endMark (v.table d i).cluster l ∧ p ∈ l) ∧
    LooksLikeDirectory (readClusters v.disk p)

/-- The parent is a free cluster past the root that still holds the directory it held before the format. -/
def Stale (before : Disk) (v : Volume) (p : Nat) : Prop :=
  3 ≤ p ∧ v.fat.get p = fatEmptyEntry ∧ readClusters v.disk p = readClusters before p ∧
    LooksLikeDirectory (readClusters before p)

/-! ## The check -/

theorem writeFolder_code {s : State} {r : Request} {row : Fin 64} : (writeFolder s r row).1 ≠ 2 := by
  unfold writeFolder
  dsimp only
  split <;> simp

theorem writeFile_code {s : State} {r : Request} {row : Fin 64} : (writeFile s r row).1 ≠ 2 := by
  unfold writeFile
  dsimp only
  generalize fillClusters r _ _ = f
  split <;> simp

/-- Whatever the state, the parent is rejected exactly if it does not look like a directory. -/
theorem rejectsParent_iff (s : State) (r : Request) :
    RejectsParent s r ↔ ¬ LooksLikeDirectory (readClusters s.disk r.parent) := by
  have htab : (s.loadDirTable r.parent).dirTableBuf = decodeTable (readClusters s.disk r.parent) := rfl
  rw [← isDirectory_decodeTable]
  by_cases hd : isDirectory (decodeTable (readClusters s.disk r.parent)) = true
  · refine iff_of_false (fun h => ?_) (not_not_intro hd)
    -- past the check no exit returns 2
    have hcode := h.write.1
    simp only [MoggersOs.write, htab, hd, Bool.not_true, Bool.false_eq_true, if_false] at hcode
    split at hcode
    · exact absurd hcode (by simp)
    · split at hcode
      · exact absurd hcode (by simp)
      · split at hcode
        · exact writeFolder_code hcode
        · exact writeFile_code hcode
  · refine iff_of_true ⟨?_, fun fuel => ⟨s.loadDirTable r.parent, ?_, rfl⟩⟩ hd
    · simp [MoggersOs.write, htab, hd]
    · simp [MoggersOs.delete, htab, hd]

/-! ## What the clusters hold -/

/-- A free cluster is as before the format, or does not look like a directory. -/
def AsBefore (before : Disk) (c : Nat) (x : Cluster) : Prop := x = readClusters before c ∨ ¬ LooksLikeDirectory x

theorem asBefore_discarded (before : Disk) : Discarded (AsBefore before) := by
  refine ⟨fun c => .inr fun h => ?_, fun c t _ => .inr fun h => ?_⟩
  · exact absurd (show (0 : UInt8) = attrSubdirectory from h.1) (by decide)
  · rw [← isDirectory_decodeTable, decodeTable_encodeTable, isDirectory_iff] at h
    exact not_used_clearEntry (t 0) h.1

/-- The boot cluster has a blank there. -/
theorem Inv.boot_not_directory {v : Volume} {live : Finset Nat} (h : Inv v live) :
    ¬ LooksLikeDirectory (readClusters v.disk 0) := by
  rintro ⟨h11, -⟩
  have hb := congrFun h.boot 11
  exact absurd (hb.symm.trans h11) (by decide)

/-- The last byte of entry 2, the root's end mark. -/
theorem Inv.fat_not_directory {v : Volume} {live : Finset Nat} (h : Inv v live) :
    ¬ LooksLikeDirectory (readClusters v.disk fatClusterNumber) := by
  rintro ⟨h11, -⟩
  have h2 : v.fat 2 = fatEndOfFile := by simpa [Fat.get] using h.fat2
  have hbyte : encodeFat v.fat 11 = Lib.leByte (v.fat 2).toNat 3 := rfl
  rw [show readClusters v.disk fatClusterNumber = encodeFat v.fat from h.synced, hbyte, h2] at h11
  exact absurd h11 (by decide)

/-- A cluster on a chain that is no directory is a file's. -/
theorem Inv.file_of_allocated {v : Volume} {live : Finset Nat} {p : Nat} (h : Inv v live) (h3 : 3 ≤ p)
    (hfat : v.fat.get p ≠ fatEmptyEntry) (hlive : p ∉ live) : ∃ d i l, v.LiveRow live d i ∧
      ¬ (v.table d i).Folder ∧ Lib.Chain v.next endMark (v.table d i).cluster l ∧ p ∈ l := by
  have h512 : p < 512 := by
    by_contra hge
    exact hfat (dif_neg hge)
  obtain ⟨⟨d, i⟩, c, n, l, hr, hl, hpl⟩ := h.owned.owner ⟨h3, h512⟩ fun h0 => hfat (UInt32.toNat_inj.1 h0)
  obtain ⟨hlr, rfl, -⟩ := Volume.rows_eq_some hr
  refine ⟨d, i, l, hlr, fun hf => hlive ?_, hl, hpl⟩
  rw [hl.unique (h.folder_chain hlr hf).1, List.mem_singleton] at hpl
  exact hpl ▸ (h.folder d i hlr hf).1

/-- **The clusters below 2048 that are no directory and look like one**: user data, and what a format left. -/
theorem Inv.looksLikeDirectory_iff {before : Disk} {v : Volume} {live : Finset Nat} {p : Nat} (h : Inv v live)
    (hq : FreeHolds (AsBefore before) v live) (hp : p < 2048) (hlive : p ∉ live) :
    LooksLikeDirectory (readClusters v.disk p) ↔ Forged v live p ∨ Stale before v p := by
  constructor
  · intro hlook
    have h0 : p ≠ 0 := by
      rintro rfl
      exact h.boot_not_directory hlook
    have h1 : p ≠ fatClusterNumber := by
      rintro rfl
      exact h.fat_not_directory hlook
    have h2 : p ≠ rootClusterNumber := fun h2 => hlive (h2 ▸ h.root)
    have h3 : 3 ≤ p := by
      have hf : fatClusterNumber = 1 := rfl
      have hr : rootClusterNumber = 2 := rfl
      omega
    by_cases hfat : v.fat.get p = fatEmptyEntry
    · rcases hq p h3 (by omega) hlive hfat with he | hno
      · exact .inr ⟨h3, hfat, he, he ▸ hlook⟩
      · exact absurd hlook hno
    · exact .inl ⟨h.file_of_allocated h3 hfat hlive, hlook⟩
  · rintro (⟨-, hlook⟩ | ⟨-, -, he, hlook⟩)
    · exact hlook
    · exact he ▸ hlook

/-- **What the parent check lets through.** In every state a parent is rejected exactly if bytes 11 and 12 of its
cluster are not those of a directory. After safe requests on a formatted disk the clusters that are no directory and
still pass are those of files with such contents and free ones that hold a directory from before the format. -/
theorem parent_check (s : State) (r : Request) :
    (RejectsParent s r ↔ ¬ LooksLikeDirectory (readClusters s.disk r.parent)) ∧
    ∀ s₀ live tr, Lib.Path (Step Safe) (createFat32 s₀, {rootClusterNumber}) tr (s, live) →
      r.parent < 2048 → r.parent ∉ live →
        (RejectsParent s r ↔ ¬ Forged s.volume live r.parent ∧ ¬ Stale s₀.disk s.volume r.parent) := by
  refine ⟨rejectsParent_iff s r, fun s₀ live tr hpath hr hlive => ?_⟩
  obtain ⟨hinv, hq⟩ := FreeHolds.path (fun _ hk => hk) (asBefore_discarded s₀.disk) (fun c _ _ => .inl rfl) hpath
  have hlook := hinv.looksLikeDirectory_iff hq hr hlive
  rw [State.volume_disk] at hlook
  rw [rejectsParent_iff, hlook, not_or]

/-- A request for a folder in a cluster. -/
def requestIn (p : UInt32) : Request := { folderRequest with parentClusterNumber := p }

/-- Cluster 3 is rejected again after `mkdir a` and `rm a`. -/
theorem parent_check_recycled : ∃ s tr, tr.map Prod.fst = [.write folderRequest, .delete folderRequest] ∧
    Lib.Path (Step Ordinary) (createFat32 blankState, {rootClusterNumber}) tr (s, {rootClusterNumber}) ∧
    RejectsParent s (requestIn 3) := by
  obtain ⟨s, tr, hops, hpath, hfree⟩ := recycled
  have hinv : Inv s.volume {rootClusterNumber} := Run.inv ⟨_, tr, hpath⟩
  have hzero : ¬ LooksLikeDirectory zeroCluster := fun h => absurd h.1 (by decide)
  have hsafe := Step.path_safe hpath (createFat32_inv blankState)
  refine ⟨s, tr, hops, hpath, ((parent_check s (requestIn 3)).2 blankState _ tr hsafe (by decide) (by decide)).2 ⟨?_, ?_⟩⟩
  · rintro ⟨⟨d, i, l, hr, -, hl, hmem⟩, -⟩
    exact hinv.chain_notMem_free hr hl 3 hmem (Fat.mem_freeClusters.2 ⟨by decide, hfree⟩)
  · rintro ⟨-, -, -, hlook⟩
    exact hzero (show LooksLikeDirectory (readClusters blankState.disk 3) from hlook)

/-- A file of 13 bytes with the attributes of a directory at 11 and 12. -/
def forgedRequest : Request :=
  ⟨fun i => if i = 11 then attrSubdirectory else if i = 12 then uattrNotEmpty else 0, fileName, fun _ => 0, 2, 13⟩

/-- The file's cluster 3 is taken for a directory. -/
theorem not_rejectsParent_file : ¬ ∀ s live r, Run LiveParent s live → r.parent < 2048 → r.parent ∉ live →
    RejectsParent s r := by
  intro hall
  have hord : Ordinary (createFat32 blankState).volume {rootClusterNumber} (.write forgedRequest) := by
    refine ⟨by decide, by decide, fun _ => rfl, ?_⟩
    rw [createFat32_fits]
    decide
  have hrun := (Run.format LiveParent blankState).write (show LiveParent _ _ (.write forgedRequest) from hord.1)
  rw [liveAfter_mkfile (by decide)] at hrun
  have hvol := (write_does hord.2.2.2).volume
  rw [createFat32_mkfile blankState (k := 0) rfl (by decide) rfl (by decide)] at hvol
  have hread : readClusters (write (createFat32 blankState) forgedRequest).2.disk 3 =
      filePartCluster forgedRequest.buf 0 2048 := by
    rw [← State.volume_disk, hvol]
    exact Volume.mkfile_parts (createFat32 blankState).volume forgedRequest 2 (c := 3) (l := []) (by decide) (by decide)
      (by decide) (by decide) (by decide) (by decide) (j := 0) rfl
  refine (rejectsParent_iff _ (requestIn 3)).1 (hall _ _ (requestIn 3) hrun (by decide) (by decide)) ?_
  rw [show (requestIn 3).parent = 3 from rfl, hread]
  exact ⟨by decide, by decide⟩

end MoggersOs
