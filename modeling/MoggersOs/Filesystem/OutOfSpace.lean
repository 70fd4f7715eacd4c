import MoggersOs.Filesystem.Runs
/-
# `write` on a volume without room

`write` finds out that it runs out of clusters when it has already written data, table and row
(`fat32.c:366`), and its scans go on past the 512 entries of the table up to `CLUSTER_SIZE` words. So a
request that does not fit is refused without a trace only if one of the checks at the top stops it, or if
it is for a folder and no word the scan reaches is empty (`allOrNothing_iff`).
-/

namespace MoggersOs

/-- A failed `write` leaves the disk and the table as they were, and a `write` that needs more clusters
than the table has unused entries fails. -/
def AllOrNothing (s : State) (r : Request) : Prop :=
  ((write s r).1 ≠ 0 → (∀ c, readClusters (write s r).2.disk c = readClusters s.disk c) ∧
    ∀ n < 512, (write s r).2.fatTable.get n = s.fatTable.get n) ∧
  (¬ s.volume.Fits r → (write s r).1 ≠ 0)

/-! ## Past the checks -/

theorem write_of_not_refused {s : State} {r : Request} (h : ¬ s.volume.Refused r) :
    ∃ row, findFreeRow (s.volume.table r.parent) = some row ∧
      write s r = if r.bufferSize = 0 then writeFolder (s.loadDirTable r.parent) r row
        else writeFile (s.loadDirTable r.parent) r row := by
  have htab : (s.loadDirTable r.parent).dirTableBuf = s.volume.table r.parent := rfl
  obtain ⟨hd, ⟨row, hrow⟩, hf⟩ := Volume.not_refused h
  refine ⟨row, hrow, ?_⟩
  simp only [write, htab, hd, hrow, hf, Bool.not_true, Bool.false_eq_true, if_false, Option.isSome_none]

/-- Whatever the scans found, the row goes into the parent's table last. -/
theorem writeFile_storeRow (s : State) (r : Request) (row : Fin 64) :
    ∃ (t : State) (c : Nat), (writeFile s r row).2 = t.storeRow row (newFile r c) r.parent := by
  unfold writeFile
  dsimp only
  generalize fillClusters r _ _ = f
  split
  · exact ⟨f.state.flushFat, (findEmptyCluster s).getD 0, rfl⟩
  · exact ⟨f.state.flushFat, (findEmptyCluster s).getD 0, rfl⟩

/-- So after a request for a file that passed the checks the parent's cluster is not as before. -/
theorem writeFile_parent {s : State} {r : Request} {row : Fin 64} (hu : ¬ (s.volume.table r.parent row).Used) :
    readClusters (writeFile s r row).2.disk r.parent ≠ readClusters s.disk r.parent := by
  intro he
  obtain ⟨t, c, hw⟩ := writeFile_storeRow s r row
  have hread : readClusters (writeFile s r row).2.disk r.parent =
      encodeTable (Function.update t.dirTableBuf row (newFile r c)) := by
    rw [hw]
    exact readClusters_writeClusters _ _ _
  have htab : s.volume.table r.parent = Function.update t.dirTableBuf row (newFile r c) := by
    rw [Volume.table, State.volume_disk, ← he, hread, decodeTable_encodeTable]
  rw [htab, Function.update_self] at hu
  exact hu (newFile_used r c)

/-- A request for a folder that fits nowhere: the scan finds a word past the table, or none. -/
theorem findEmptyCluster_of_full {s : State} (hfull : s.fatTable.freeClusters = []) :
    (∃ c, findEmptyCluster s = some c ∧ c ≠ 0) ∨
      findEmptyCluster s = none ∧ ∀ i < 2048, s.clusterMap i ≠ fatEmptyEntry := by
  cases hf : findEmptyCluster s with
  | none =>
    right
    refine ⟨rfl, fun i hi he => ?_⟩
    have hall := List.find?_eq_none.1 hf i (List.mem_range.2 hi)
    simp [he] at hall
  | some c =>
    left
    refine ⟨c, rfl, ?_⟩
    rintro rfl
    have hc := List.find?_some hf
    rw [beq_iff_eq, s.clusterMap_of_lt (by decide)] at hc
    have hmem : 0 ∈ s.fatTable.freeClusters := Fat.mem_freeClusters.2 ⟨by decide, hc⟩
    rw [hfull] at hmem
    exact absurd hmem List.not_mem_nil

/-! ## When `write` is all or nothing -/

theorem allOrNothing_of_fits {s : State} {r : Request} (h : s.volume.Fits r) : AllOrNothing s r := by
  refine ⟨fun hcode => ?_, fun hn => absurd h hn⟩
  have hdoes := write_does h
  rw [hdoes.code] at hcode
  have hvol := hdoes.volume
  rcases s.volume.write_cases r with ⟨code, -, hw⟩ | ⟨row, c, l, -, -, -, -, -, hw⟩ | ⟨row, c, l, -, -, -, -, -, hw⟩
  · rw [hw, Volume.apply_refuse] at hvol
    have hdisk : (write s r).2.disk = s.disk := congrArg Volume.disk hvol
    have hfat : (write s r).2.fatTable = s.fatTable := congrArg Volume.fat hvol
    rw [hdisk, hfat]
    exact ⟨fun _ => rfl, fun _ _ => rfl⟩
  · rw [hw] at hcode
    exact absurd rfl hcode
  · rw [hw] at hcode
    exact absurd rfl hcode

theorem allOrNothing_of_refused {s : State} {r : Request} (h : s.volume.Refused r) : AllOrNothing s r := by
  obtain ⟨code, hcode, hw, -⟩ := write_refused h
  unfold AllOrNothing
  rw [hw]
  exact ⟨fun _ => ⟨fun _ => rfl, fun _ _ => rfl⟩, fun _ => hcode⟩

/-- A request for a file that does not fit and that no check stops is never all or nothing: it returns
0 or has changed the parent's table. -/
theorem not_allOrNothing_file {s : State} {r : Request} (hfit : ¬ s.volume.Fits r) (href : ¬ s.volume.Refused r)
    (hz : r.bufferSize ≠ 0) : ¬ AllOrNothing s r := by
  rintro ⟨hsame, hfail⟩
  obtain ⟨row, hrow, hw⟩ := write_of_not_refused href
  rw [if_neg hz] at hw
  have hdisk := (hsame (hfail hfit)).1 r.parent
  rw [hw] at hdisk
  exact writeFile_parent (s := s.loadDirTable r.parent) (findFreeRow_eq_some hrow).2 hdisk

/-- **When `write` is all or nothing**: exactly if the request fits, or one of the checks stops it, or
it is for a folder and none of the 2048 words from the start of the table is empty. -/
theorem allOrNothing_iff (s : State) (r : Request) :
    AllOrNothing s r ↔ s.volume.Fits r ∨ s.volume.Refused r ∨
      (r.bufferSize = 0 ∧ ∀ i < 2048, (s.loadDirTable r.parent).clusterMap i ≠ fatEmptyEntry) := by
  by_cases hfit : s.volume.Fits r
  · exact iff_of_true (allOrNothing_of_fits hfit) (Or.inl hfit)
  by_cases href : s.volume.Refused r
  · exact iff_of_true (allOrNothing_of_refused href) (Or.inr (Or.inl href))
  by_cases hz : r.bufferSize = 0
  swap
  · refine iff_of_false (not_allOrNothing_file hfit href hz) ?_
    rintro (h | h | h)
    · exact hfit h
    · exact href h
    · exact hz h.1
  obtain ⟨row, hrow, hw⟩ := write_of_not_refused href
  rw [if_pos hz] at hw
  have hfull : (s.loadDirTable r.parent).fatTable.freeClusters = [] := by
    simp only [Volume.Fits, Volume.needed, if_pos hz, Nat.not_le, Nat.lt_one_iff] at hfit
    exact List.length_eq_zero_iff.1 hfit
  rcases findEmptyCluster_of_full hfull with ⟨c, hc, hne⟩ | ⟨hnone, hall⟩
  · -- the folder goes to a cluster past the table, and `write` returns 0
    have hcode : (write s r).1 = 0 := by
      rw [hw, writeFolder, hc]
      simp [hne]
    refine iff_of_false (fun h => h.2 hfit hcode) ?_
    rintro (h | h | h)
    · exact hfit h
    · exact href h
    · have hfound := List.find?_some hc
      have hmem := List.mem_of_find?_eq_some hc
      exact h.2 c (List.mem_range.1 hmem) (beq_iff_eq.1 hfound)
  · have hcode : write s r = (-1, s.loadDirTable r.parent) := by
      rw [hw, writeFolder, hnone]
      rfl
    refine iff_of_true ?_ (Or.inr (Or.inr ⟨hz, hall⟩))
    unfold AllOrNothing
    rw [hcode]
    exact ⟨fun _ => ⟨fun _ => rfl, fun _ _ => rfl⟩, fun _ => show (-1 : Int) ≠ 0 by decide⟩

/-- A fresh volume has 509 unused entries; a file of 510 clusters goes past the table. -/
theorem not_allOrNothing_fresh : ¬ ∀ s live r, Run LiveParent s live → r.parent ∈ live → AllOrNothing s r := by
  intro h
  refine not_allOrNothing_file ?_ ?_ ?_ (h (createFat32 blankState) {rootClusterNumber} (fileRequest 1044480)
    (Run.format LiveParent blankState) (by decide))
  · rw [createFat32_fits]
    decide
  · have htab : (createFat32 blankState).volume.table (fileRequest 1044480).parent = formattedRoot :=
      createFat32_table blankState
    have hnamed : (fileRequest 1044480).Named := by decide
    rw [Volume.Refused, htab, isDirectory_formattedRoot, findFreeRow_formattedRoot, findRow_formattedRoot hnamed]
    simp
  · decide

end MoggersOs
