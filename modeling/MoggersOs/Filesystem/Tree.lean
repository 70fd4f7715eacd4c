import MoggersOs.Filesystem.Frame
/-
# Clusters and directories over whole runs

What the invariant says in the terms of the source, for every state that ordinary requests reach:

* `fat_ownership`: the table, its copy on the disk and the chains of the rows in use;
* `directory_tree`: the rows that lead to a directory and the rows that lead back.
-/

namespace MoggersOs

/-! ## Ownership of the clusters -/

/-- **Every cluster has one owner.** After any ordinary requests the table is on the disk as it is in
memory and its first three entries are as formatted; the chain of a row in use stays between 3 and 511
and has one cluster for a folder, as many as the contents need for a file; two rows share no cluster,
and every entry that is not empty belongs to a row. -/
theorem fat_ownership {s : State} {live : Finset Nat} (h : Run Ordinary s live) :
    readClusters s.disk fatClusterNumber = encodeFat s.fatTable ∧
    (s.fatTable.get 0 = cluster0Value ∧ s.fatTable.get 1 = cluster1Value ∧ s.fatTable.get 2 = fatEndOfFile) ∧
    (∀ d i, s.volume.LiveRow live d i →
      ∃ l, Lib.Chain (fun c => (s.fatTable.get c).toNat) fatEndOfFile.toNat (s.volume.table d i).cluster l ∧
        (∀ x ∈ l, 3 ≤ x ∧ x ≤ 511) ∧
        l.length = if (s.volume.table d i).attr = attrSubdirectory then 1
          else ((s.volume.table d i).filesize.toNat + 2047) / 2048) ∧
    (∀ d i e j l l', s.volume.LiveRow live d i → s.volume.LiveRow live e j → (d, i) ≠ (e, j) →
      Lib.Chain (fun c => (s.fatTable.get c).toNat) fatEndOfFile.toNat (s.volume.table d i).cluster l →
      Lib.Chain (fun c => (s.fatTable.get c).toNat) fatEndOfFile.toNat (s.volume.table e j).cluster l' →
      List.Disjoint l l') ∧
    (∀ x, 3 ≤ x → x ≤ 511 → s.fatTable.get x ≠ fatEmptyEntry → ∃ d i l, s.volume.LiveRow live d i ∧
      Lib.Chain (fun c => (s.fatTable.get c).toNat) fatEndOfFile.toNat (s.volume.table d i).cluster l ∧
      x ∈ l) := by
  have hinv := h.inv
  refine ⟨hinv.synced, ⟨hinv.fat0, hinv.fat1, hinv.fat2⟩, ?_, ?_, ?_⟩
  · intro d i hr
    obtain ⟨l, hl, hlen, hR⟩ := hinv.chain hr
    refine ⟨l, hl, fun x hx => ⟨(hR x hx).1, by have := hR x hx; omega⟩, ?_⟩
    rw [hlen, ← clustersOf_eq_ceil]
    by_cases hf : (s.volume.table d i).attr = attrSubdirectory
    · rw [if_pos hf]
      exact if_pos hf
    · rw [if_neg hf]
      exact if_neg hf
  · intro d i e j l l' hd he hne hl hl' x hx hx'
    obtain ⟨rfl, rfl⟩ := hinv.eq_of_mem hd he hl hl' hx hx'
    exact hne rfl
  · intro x h3 h511 hx
    have hnext : s.volume.next x ≠ 0 := fun h0 => hx (UInt32.toNat_inj.1 h0)
    obtain ⟨⟨d, i⟩, c, n, l, hr, hl, hxl⟩ := hinv.owned.owner ⟨h3, by omega⟩ hnext
    obtain ⟨hlr, rfl, -⟩ := Volume.rows_eq_some hr
    exact ⟨d, i, l, hlr, hl, hxl⟩

/-- On a volume with one folder. -/
theorem fat_ownership_folder :
    Run Ordinary (write (createFat32 blankState) folderRequest).2 {3, rootClusterNumber} ∧
      (write (createFat32 blankState) folderRequest).2.fatTable.get 2 = fatEndOfFile :=
  have hrun := Run.folder (folderRequest_ordinary blankState)
  ⟨hrun, (fat_ownership hrun).2.1.2.2⟩

/-! ## The directory tree -/

/-- The directory that row 1 of `d` names. -/
def State.up (s : State) (d : Nat) : Nat := (s.volume.table d 1).cluster

/-- A directory that a request removes had no row in use. -/
theorem removed_empty {s s' : State} {live : Finset Nat} {op : Op} {fuel : Nat} {rep : Reply}
    (h : Inv s.volume live) (ho : Ordinary s.volume live op) (hx : exec fuel s op = some (rep, s')) {d : Nat}
    (hd : d ∈ live) (hd' : d ∉ liveAfter s live op rep.code) (i : Fin 64) : ¬ s.volume.LiveRow live d i := by
  cases op with
  | write r =>
    by_cases hz : r.bufferSize = 0 ∧ rep.code = 0
    · rw [hz.2, liveAfter_mkdir hz.1] at hd'
      exact absurd (Finset.mem_insert_of_mem hd) hd'
    · by_cases hc : rep.code = 0
      · rw [liveAfter_mkfile fun h0 => hz ⟨h0, hc⟩] at hd'
        exact absurd hd hd'
      · rw [liveAfter_of_ne _ _ _ hc] at hd'
        exact absurd hd hd'
  | delete r =>
    obtain ⟨rfl, -⟩ := exec_volume h ho hx
    rcases s.volume.delete_cases r with ⟨code, hcode, he⟩ | ⟨row, hf, hfo, hocc, he⟩ | ⟨row, hf, hfo, he⟩
    · rw [Volume.exec, he] at hd'
      exact absurd hd ((liveAfter_of_ne s live (.delete r) hcode) ▸ hd')
    · have hlive : liveAfter s live (.delete r) (s.volume.exec (.delete r)).1.code =
          live.erase (s.volume.table r.parent row).cluster := by
        rw [Volume.exec, he]
        exact removeFound_folder hf hfo
      rw [hlive] at hd'
      obtain rfl : d = (s.volume.table r.parent row).cluster := by
        by_contra hne
        exact hd' (Finset.mem_erase.2 ⟨hne, hd⟩)
      exact fun hr => occupied_eq_false hocc hr.2.1 hr.2.2
    · have hlive : liveAfter s live (.delete r) (s.volume.exec (.delete r)).1.code = live := by
        rw [Volume.exec, he]
        exact removeFound_file hf hfo
      rw [hlive] at hd'
      exact absurd hd hd'
  | read r =>
    rw [liveAfter_read] at hd'
    exact absurd hd hd'
  | readDirectory r =>
    rw [liveAfter_readDirectory] at hd'
    exact absurd hd hd'

/-- A directory that stays keeps its own entry. -/
theorem kept_self {s s' : State} {live : Finset Nat} {op : Op} {fuel : Nat} {rep : Reply}
    (h : Inv s.volume live) (ho : Ordinary s.volume live op) (hx : exec fuel s op = some (rep, s')) {d : Nat}
    (hd : d ∈ live) (hd' : d ∈ liveAfter s live op rep.code) : s'.volume.table d 0 = s.volume.table d 0 := by
  rcases exec_change h ho hx with ⟨hv, -⟩ | ⟨r, row, e, l, -, -, -, hch⟩
  · rw [hv]
  · rcases hch.dirs d hd' with ⟨-, hdl⟩ | ⟨hnew, -⟩
    · refine h.edit_table hch.edit hd hdl ?_
      rintro ⟨-, h0⟩
      have hrow := hch.row2
      rw [← h0] at hrow
      exact absurd hrow (by decide)
    · exact absurd hd hnew

/-- A directory that a request creates has the requested name in its own entry. -/
theorem created_self {s s' : State} {live : Finset Nat} {r : Request} {fuel : Nat} {rep : Reply}
    (h : Inv s.volume live) (ho : Ordinary s.volume live (.write r))
    (hx : exec fuel s (.write r) = some (rep, s')) (hz : r.bufferSize = 0) (hcode : rep.code = 0) :
    (s'.volume.table (created s r) 0).name = r.name := by
  obtain ⟨rfl, hv⟩ := exec_volume h ho hx
  rcases s.volume.write_cases r with ⟨code, hne, hw⟩ | ⟨row, c, l, -, -, -, -, hfree, hw⟩ |
    ⟨row, c, l, -, -, -, hz', -, -⟩
  · rw [Volume.exec, hw] at hcode
    exact absurd hcode hne
  · have hc : created s r = c := by
      rw [created, (findEmptyCluster_eq (s := s.loadDirTable r.parent) hfree).1, Option.getD_some]
    have hc512 := (h.of_free (c := c) (by rw [hfree]; simp)).2.1
    rw [hv, hc, Volume.exec, hw, mkdir_table s.volume r row hc512, newDirectory_zero]
    rfl
  · exact absurd hz hz'

/-- **The directories form a tree.** After any ordinary requests every directory but the root has
exactly one row, in exactly one other directory; row 0 of its table has the name in that row, row 1 the
other directory, and row 1 again and again leads to the root. A request that follows removes no directory
with a row in use, keeps row 0 of those it does not remove, and gives a new one the requested name. -/
theorem directory_tree {s : State} {live : Finset Nat} (h : Run Ordinary s live) :
    (∀ d ∈ live, d ≠ rootClusterNumber →
      ∃ p i, p ∈ live ∧ p ≠ d ∧ s.volume.LiveRow live p i ∧ (s.volume.table p i).cluster = d ∧
        (∀ q j, s.volume.LiveRow live q j → (s.volume.table q j).cluster = d → q = p ∧ j = i) ∧
        (s.volume.table d 0).name = (s.volume.table p i).name ∧ (s.volume.table d 0).cluster = d ∧
        (s.volume.table d 1).cluster = p ∧ ∃ k, s.up^[k] d = rootClusterNumber) ∧
    (∀ op fuel rep s', Ordinary s.volume live op → exec fuel s op = some (rep, s') →
      (∀ d ∈ live, d ∉ liveAfter s live op rep.code → ∀ i, ¬ s.volume.LiveRow live d i) ∧
      (∀ d ∈ live, d ∈ liveAfter s live op rep.code → s'.volume.table d 0 = s.volume.table d 0) ∧
      (∀ r, op = .write r → r.bufferSize = 0 → rep.code = 0 →
        (s'.volume.table (created s r) 0).name = r.name)) := by
  have hinv := h.inv
  refine ⟨fun d hd h2 => ?_, fun op fuel rep s' ho hx => ⟨fun d hd hd' => removed_empty hinv ho hx hd hd',
    fun d hd hd' => kept_self hinv ho hx hd hd', ?_⟩⟩
  swap
  · rintro r rfl hz hcode
    exact created_self hinv ho hx hz hcode
  obtain ⟨p, i, hr, hf, rfl⟩ := hinv.parent d hd h2
  obtain ⟨-, hself, hup, -⟩ := hinv.folder p i hr hf
  obtain ⟨k, hk⟩ := hinv.rooted.reach _ hd
  refine ⟨p, i, hr.1, ?_, hr, rfl, ?_, by rw [hself], by rw [hself], hup, k, hk⟩
  · -- a directory that is its own parent never meets the root
    intro hp
    have hfix : s.up (s.volume.table p i).cluster = (s.volume.table p i).cluster := hup.trans hp
    have hk' : s.up^[k] (s.volume.table p i).cluster = rootClusterNumber := hk
    rw [Function.iterate_fixed hfix k] at hk'
    exact h2 hk'
  · intro q j hq hc
    exact hinv.eq_of_cluster hq hr hc

/-- On a volume with one folder, at cluster 3. -/
theorem directory_tree_folder : ∃ p i,
    (write (createFat32 blankState) folderRequest).2.volume.LiveRow {3, rootClusterNumber} p i ∧
    ((write (createFat32 blankState) folderRequest).2.volume.table p i).cluster = 3 := by
  obtain ⟨p, i, -, -, hr, hc, -⟩ := (directory_tree (Run.folder (folderRequest_ordinary blankState))).1 3
    (by decide) (by decide)
  exact ⟨p, i, hr, hc⟩

end MoggersOs
