import MoggersOs.Filesystem.RoundTrip
/-
# Where a file goes

`write` looks for the clusters of a file in two scans that share their variables: the first one stops at the first
unused entry of the table, the second one goes on from there and links each cluster to the one before it
(`fat32.c:297-340`). Together they are first fit: the file gets the smallest unused clusters, in increasing order,
whatever holes the table has (`write_firstFit`). This needs no invariant; the parent may be any cluster at all.
-/

namespace MoggersOs

/-- The file of the request is in row `row` of the parent and in the clusters `cs`, as first fit gives them. -/
structure FirstFit (s s' : State) (r : Request) (row : Fin 64) (cs : List Nat) : Prop where
  /-- One cluster for each `CLUSTER_SIZE` bytes begun. -/
  length : cs.length = (r.bufferSize.toNat + 2047) / 2048
  sorted : cs.Pairwise (· < ·)
  free   : ∀ x ∈ cs, x < 512 ∧ s.fatTable.get x = fatEmptyEntry
  least  : ∀ x < 512, s.fatTable.get x = fatEmptyEntry → x ∉ cs → ∀ y ∈ cs, y < x
  /-- The entries of `cs` are the row's chain, the rest of the table is as before. -/
  chain  : Lib.Chain s'.volume.next endMark (s'.volume.table r.parent row).cluster cs
  fat    : ∀ x ∉ cs, s'.fatTable.get x = s.fatTable.get x
  /-- The row is the first unused one, the others are as before. -/
  unused : 2 ≤ row.val ∧ ¬ (s.volume.table r.parent row).Used
  first  : ∀ i : Fin 64, 2 ≤ i.val → i < row → (s.volume.table r.parent i).Used
  rows   : ∀ i, i ≠ row → s'.volume.table r.parent i = s.volume.table r.parent i
  entry  : (s'.volume.table r.parent row).Used ∧ ¬ (s'.volume.table r.parent row).Folder ∧
    (s'.volume.table r.parent row).name = r.name ∧ (s'.volume.table r.parent row).ext = r.ext ∧
    (s'.volume.table r.parent row).filesize = r.bufferSize
  /-- The clusters of the disk; a write to cluster `x` goes to cluster `x % 2 ^ 26`. -/
  disk   : ∀ x < 2 ^ 26, x ≠ fatClusterNumber → x ≠ r.parent % 2 ^ 26 → x ∉ cs →
    readClusters s'.disk x = readClusters s.disk x
  synced : r.parent % 2 ^ 26 ≠ fatClusterNumber → Synced s'.volume

theorem findFreeRow_first {t : Table} {row i : Fin 64} (h : findFreeRow t = some row) (hi : 2 ≤ i.val)
    (hlt : i < row) : (t i).Used := by
  have hp := (Fin.find?_eq_some_iff.1 h).2 i hlt
  simpa [hi, DirEntry.Used] using hp

namespace Volume

variable (v : Volume) (r : Request) (row : Fin 64) {c x : Nat} {l : List Nat}

/-- Every cluster that is written is one of the file, the table or the parent. -/
theorem mem_mkfile_writes {w : Nat × Cluster} (h : w ∈ (v.mkfile r row c l).writes) :
    w.1 ∈ c :: l ∨ w.1 = fatClusterNumber ∨ w.1 = r.parent := by
  simp only [mkfile, List.mem_append, List.mem_cons, List.not_mem_nil, or_false] at h
  rcases h with (rfl | hw) | rfl | rfl
  · exact .inl (List.mem_cons_self ..)
  · exact .inl (List.mem_cons_of_mem _ (mem_partsFrom hw))
  · exact .inr (.inl rfl)
  · exact .inr (.inr rfl)

theorem mkfile_disk (hlt : ∀ y ∈ c :: l, y < 512) (hx : x < 2 ^ 26) (h1 : x ≠ fatClusterNumber)
    (hp : x ≠ r.parent % 2 ^ 26) (hl : x ∉ c :: l) :
    readClusters (v.apply (v.mkfile r row c l)).disk x = readClusters v.disk x := by
  refine readClusters_writeAll_of_mod_ne _ _ fun w hw => ?_
  rw [Nat.mod_eq_of_lt hx]
  rcases mem_mkfile_writes v r row hw with hmem | he | he
  · have hw512 := hlt _ hmem
    rw [Nat.mod_eq_of_lt (by omega)]
    exact fun he => hl (he ▸ hmem)
  · rw [he]
    exact fun he' => h1 he'.symm
  · rw [he]
    exact Ne.symm hp

/-- The parent's table goes out last. -/
theorem mkfile_parent : (v.apply (v.mkfile r row c l)).table r.parent =
    Function.update (v.table r.parent) row (newFile r c) := by
  have h : readClusters (v.apply (v.mkfile r row c l)).disk r.parent =
      encodeTable (Function.update (v.table r.parent) row (newFile r c)) := by
    simp only [apply, mkfile, writeAll_append, writeAll, readClusters_writeClusters]
  exact (congrArg decodeTable h).trans (decodeTable_encodeTable _)

theorem mkfile_synced (hp : r.parent % 2 ^ 26 ≠ fatClusterNumber) : Synced (v.apply (v.mkfile r row c l)) := by
  have h : readClusters (v.apply (v.mkfile r row c l)).disk fatClusterNumber =
      encodeFat (v.mkfile r row c l).fat := by
    simp only [apply, mkfile, writeAll_append, writeAll]
    rw [readClusters_writeClusters_of_mod_ne _ _ hp, readClusters_writeClusters]
  exact h

end Volume

/-- **First-fit allocation.** Whenever `write` accepts a file that fits, the file is in the smallest unused
clusters and in the first unused row, and nothing else changes. -/
theorem write_firstFit {s : State} {r : Request} (hz : r.bufferSize ≠ 0) (hfit : s.volume.Fits r)
    (hw : (write s r).1 = 0) : ∃ row cs, FirstFit s (write s r).2 r row cs := by
  have hdoes := write_does hfit
  obtain ⟨row, c, l, -, hrow, htake, he⟩ := Volume.write_file hz (hdoes.code.symm.trans hw)
  have hvol : (write s r).2.volume = s.volume.apply (s.volume.mkfile r row c l) := he ▸ hdoes.volume
  have hfat : (write s r).2.fatTable = Volume.linkFrom (s.fatTable.set c fatEndOfFile) c l :=
    congrArg Volume.fat hvol
  have hdisk : (write s r).2.disk = (s.volume.apply (s.volume.mkfile r row c l)).disk := congrArg Volume.disk hvol
  obtain ⟨hmem, -, hlen⟩ := hfit.taken hz htake
  have hsorted : s.volume.fat.freeClusters.Pairwise (· < ·) := Lib.free_pairwise _ _
  have hfree : ∀ x ∈ c :: l, x < 512 ∧ s.fatTable.get x = fatEmptyEntry := fun x hx =>
    Fat.mem_freeClusters.1 (hmem x hx)
  have hlt : ∀ x ∈ c :: l, x < 512 := fun x hx => (hfree x hx).1
  have hcs : (c :: l).Pairwise (· < ·) := htake ▸ hsorted.sublist (List.take_sublist _ _)
  have htab : (write s r).2.volume.table r.parent = Function.update (s.volume.table r.parent) row (newFile r c) :=
    hvol ▸ s.volume.mkfile_parent r row
  have hnew : (write s r).2.volume.table r.parent row = newFile r c := by rw [htab, Function.update_self]
  obtain ⟨hrow2, hunused⟩ := findFreeRow_eq_some hrow
  refine ⟨row, c :: l, ?_, hcs, hfree, ?_, ?_, ?_, ⟨hrow2, hunused⟩, ?_, ?_, ?_, ?_, ?_⟩
  · rw [hlen, clustersOf_eq_ceil]
  · intro x hx h0 hxl y hy
    rw [← htake] at hxl hy
    exact Lib.lt_of_mem_take hsorted (Fat.mem_freeClusters.2 ⟨hx, h0⟩) hxl hy
  · rw [hnew, newFile_cluster r (hlt c (by simp)), hvol]
    exact Volume.linkFrom_chain (Fat.get_set_self _ (hlt c (by simp)) _) (hcs.imp Nat.ne_of_lt) hlt
  · intro x hx
    obtain ⟨hxc, hxl⟩ := List.ne_and_not_mem_of_not_mem_cons hx
    rw [hfat, Volume.linkFrom_get hxc hxl, Fat.get_set_of_ne _ hxc]
  · exact fun i hi hlt' => findFreeRow_first hrow hi hlt'
  · intro i hi
    rw [htab, Function.update_of_ne hi]
  · rw [hnew]
    exact ⟨newFile_used r c, newFile_not_folder r c, rfl, rfl, rfl⟩
  · intro x hx h1 hp hxl
    rw [hdisk]
    exact s.volume.mkfile_disk r row hlt hx h1 hp hxl
  · intro hp
    rw [hvol]
    exact s.volume.mkfile_synced r row hp

/-- Two clusters on a fresh volume. -/
theorem write_firstFit_fresh : ∃ row cs,
    FirstFit (createFat32 blankState) (write (createFat32 blankState) (fileRequest 3000)).2 (fileRequest 3000) row cs :=
  write_firstFit (by decide) (fileRequest_fits (k := 1) rfl (by decide)) (fileRequest_write (k := 1) rfl (by decide))

end MoggersOs
