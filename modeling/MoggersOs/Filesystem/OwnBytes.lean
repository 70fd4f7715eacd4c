import MoggersOs.Filesystem.OutOfSpace
import MoggersOs.Filesystem.RoundTrip
/-
# Whose bytes reach the disk

`write` hands the buffer itself to `write_clusters` for the first cluster, all 2048 bytes from `request.buf` on
(`fat32.c:313-315`), and copies the later parts into a zeroed cluster with the length they have
(`fat32.c:325-331`). So a file of less than 2048 bytes takes what lies behind the buffer to the disk, and no longer
file does (`ownBytesOnly_iff`).

| here | there |
| --- | --- |
| `SameFile`     | two requests that differ only in the memory from `buf + buffer_size` on |
| `OwnBytesOnly` | `write` makes no difference between such requests |
| `startCluster` | `start_cluster` after the first scan (`fat32.c:297-304`) |
-/

namespace MoggersOs

structure SameFile (r r' : Request) : Prop where
  name       : r'.name = r.name
  ext        : r'.ext = r.ext
  parent     : r'.parentClusterNumber = r.parentClusterNumber
  bufferSize : r'.bufferSize = r.bufferSize
  buf        : ∀ a < r.bufferSize.toNat, r'.buf a = r.buf a

def OwnBytesOnly (s : State) (r : Request) : Prop := ∀ r', SameFile r r' →
  (write s r').1 = (write s r).1 ∧ (write s r').2.disk = (write s r).2.disk ∧
    (write s r').2.fatTable = (write s r).2.fatTable

/-- The cluster of the first part: the first empty word of the scan, or 0. -/
def startCluster (s : State) (r : Request) : Nat := (findEmptyCluster (s.loadDirTable r.parent)).getD 0

/-- Such a request is the first one with another buffer. -/
theorem SameFile.eq {r r' : Request} (h : SameFile r r') : r' = { r with buf := r'.buf } := by
  obtain ⟨buf, name, ext, parent, size⟩ := r'
  obtain ⟨rfl, rfl, rfl, rfl, -⟩ := h
  rfl

/-! ## The second loop reads only the file -/

section loop
variable {r : Request} {b : Nat → UInt8} (hb : ∀ a < r.bufferSize.toNat, b a = r.buf a)
include hb

/-- A part that lies in the file. -/
theorem filePartCluster_congr {part size : Nat} (hsize : 2048 * part + size ≤ r.bufferSize.toNat) :
    filePartCluster b part size = filePartCluster r.buf part size := by
  funext i
  unfold filePartCluster
  by_cases hi : i.val < size
  · rw [if_pos hi, if_pos hi, hb _ (by omega)]
  · rw [if_neg hi, if_neg hi]

/-- The body of the loop on part `part` of a file with `needed` clusters to go. -/
theorem fillCluster_congr (i : Nat) (f : Fill) (hpos : 0 < f.clusterNeeded)
    (hpart : f.filePart + f.clusterNeeded ≤ clustersOf r.bufferSize.toNat) :
    fillCluster { r with buf := b } i f = fillCluster r i f := by
  have hcl : filePartCluster b f.filePart (if f.clusterNeeded = 1 then r.bufferSize.toNat % 2048 else 2048) =
      filePartCluster r.buf f.filePart (if f.clusterNeeded = 1 then r.bufferSize.toNat % 2048 else 2048) := by
    unfold clustersOf at hpart
    refine filePartCluster_congr hb ?_
    split <;> split at hpart <;> omega
  simp [fillCluster, hcl]

theorem fillClusters_congr : ∀ (is : List Nat) (f : Fill),
    f.filePart + f.clusterNeeded ≤ clustersOf r.bufferSize.toNat →
    fillClusters { r with buf := b } is f = fillClusters r is f
  | [], _, _ => rfl
  | i :: is, f, hpart => by
    unfold fillClusters
    by_cases hpos : 0 < f.clusterNeeded
    · by_cases he : f.state.clusterMap i = fatEmptyEntry
      · rw [if_pos hpos, if_pos hpos, if_pos he, if_pos he, fillCluster_congr hb i f hpos hpart]
        refine fillClusters_congr is _ ?_
        simp only [fillCluster]
        omega
      · rw [if_pos hpos, if_pos hpos, if_neg he, if_neg he]
        exact fillClusters_congr is f hpart
    · rw [if_neg hpos, if_neg hpos]

end loop

/-- A scan that meets no empty word fills nothing. -/
theorem fillClusters_of_full (r : Request) : ∀ (is : List Nat) (f : Fill),
    (∀ i ∈ is, f.state.clusterMap i ≠ fatEmptyEntry) → fillClusters r is f = f
  | [], _, _ => rfl
  | i :: is, f, h => by
    unfold fillClusters
    by_cases hpos : 0 < f.clusterNeeded
    · rw [if_pos hpos, if_neg (h i (by simp))]
      exact fillClusters_of_full r is f fun j hj => h j (List.mem_cons_of_mem _ hj)
    · rw [if_neg hpos]

/-- When the first scan finds no empty word, the second one finds none behind cluster 0. -/
theorem fillClusters_of_none {s : State} (hnone : findEmptyCluster s = none) (r : Request) (x : Cluster) (n p : Nat) :
    fillClusters r (List.range' 1 2047) ⟨(s.writeClusters x 0).setClusterMap 0 fatEndOfFile, 0, n, p⟩ =
      ⟨(s.writeClusters x 0).setClusterMap 0 fatEndOfFile, 0, n, p⟩ := by
  refine fillClusters_of_full r _ _ fun i hi => ?_
  obtain ⟨h1, h2⟩ := List.mem_range'_1.1 hi
  have hword := List.find?_eq_none.1 hnone i (List.mem_range.2 (by omega))
  have hsame : ((s.writeClusters x 0).setClusterMap 0 fatEndOfFile).clusterMap i = s.clusterMap i := by
    have hmod : i % 2 ^ 30 = i := Nat.mod_eq_of_lt (by omega)
    have h0 : i ≠ 0 := by omega
    simp only [State.setClusterMap_of_lt _ (show 0 < 512 by omega), State.clusterMap, State.writeClusters, hmod,
      Fat.get_set_of_ne _ h0]
  rw [hsame]
  simpa using hword

/-! ## A file of at least one full cluster -/

/-- The whole of `write` past the checks depends on the file's bytes only. -/
theorem writeFile_congr {r : Request} {b : Nat → UInt8} (hb : ∀ a < r.bufferSize.toNat, b a = r.buf a)
    (hn : 2048 ≤ r.bufferSize.toNat) (s : State) (row : Fin 64) :
    writeFile s { r with buf := b } row = writeFile s r row := by
  have hfirst : filePartCluster b 0 2048 = filePartCluster r.buf 0 2048 := filePartCluster_congr hb (by omega)
  have hcl : 1 ≤ clustersOf r.bufferSize.toNat := by
    unfold clustersOf
    omega
  unfold writeFile
  rcases hfind : findEmptyCluster s with _ | c
  · simp [hfirst, fillClusters_of_none hfind, newFile]
  · have hloop := fillClusters_congr hb (List.range' (c + 1) (2048 - (c + 1)))
      ⟨(s.writeClusters (filePartCluster r.buf 0 2048) c).setClusterMap c fatEndOfFile, c,
        clustersOf r.bufferSize.toNat - 1, 1⟩ (by simp only; omega)
    simp only [hfirst, Option.getD_some, Option.isSome_some, if_true, hloop]
    rfl

theorem write_congr {r : Request} {b : Nat → UInt8} (hb : ∀ a < r.bufferSize.toNat, b a = r.buf a)
    (hn : 2048 ≤ r.bufferSize.toNat) (s : State) : write s { r with buf := b } = write s r := by
  have hz : r.bufferSize ≠ 0 := by
    intro hz
    rw [hz] at hn
    exact absurd hn (by decide)
  unfold write
  simp only [if_neg hz, writeFile_congr hb hn]
  rfl

/-! ## A file of less than a cluster -/

/-- The state after the only cluster, the table and the row are written. -/
def writeOne (s : State) (r : Request) (row : Fin 64) (c : Nat) : State :=
  ((s.writeClusters (filePartCluster r.buf 0 2048) c).setClusterMap c fatEndOfFile).flushFat.storeRow row (newFile r c)
    r.parent

theorem writeFile_small {r : Request} (hz : r.bufferSize ≠ 0) (hn : r.bufferSize.toNat < 2048) (s : State)
    (row : Fin 64) : writeFile s r row =
      (if (findEmptyCluster s).isSome then 0 else -1, writeOne s r row ((findEmptyCluster s).getD 0)) := by
  have hone : clustersOf r.bufferSize.toNat = 1 := by
    have hpos := clustersOf_pos hz
    rw [clustersOf_eq_ceil] at hpos ⊢
    omega
  unfold writeFile
  rcases hfind : findEmptyCluster s with _ | c
  · simp [hone, fillClusters_of_none hfind, writeOne]
  · simp [hone, fillClusters_of_zero, writeOne]

/-- The three writes: only the first one depends on the buffer. -/
theorem writeOne_eq (s : State) (r : Request) (row : Fin 64) (c : Nat) : ∃ (f : Fat) (t : Table), ∀ b,
    (writeOne s { r with buf := b } row c).fatTable = f ∧ (writeOne s { r with buf := b } row c).disk =
      writeClusters (writeClusters (writeClusters s.disk (filePartCluster b 0 2048) c) (encodeFat f) fatClusterNumber)
        (encodeTable t) r.parent := by
  have hset : ∀ x : Cluster, ((s.writeClusters x c).setClusterMap c fatEndOfFile).disk = writeClusters s.disk x c ∧
      ((s.writeClusters x c).setClusterMap c fatEndOfFile).fatTable = (s.setClusterMap c fatEndOfFile).fatTable ∧
      ((s.writeClusters x c).setClusterMap c fatEndOfFile).dirTableBuf =
        (s.setClusterMap c fatEndOfFile).dirTableBuf := by
    intro x
    unfold State.setClusterMap
    dsimp only
    split
    · exact ⟨rfl, rfl, rfl⟩
    · split
      · exact ⟨rfl, rfl, rfl⟩
      · split <;> exact ⟨rfl, rfl, rfl⟩
  refine ⟨(s.setClusterMap c fatEndOfFile).fatTable,
    Function.update (s.setClusterMap c fatEndOfFile).dirTableBuf row (newFile r c), fun b => ?_⟩
  obtain ⟨hdisk, hfat, htab⟩ := hset (filePartCluster b 0 2048)
  refine ⟨hfat, ?_⟩
  simp only [writeOne, State.storeRow, State.flushFat, State.writeClusters] at hdisk hfat htab ⊢
  rw [hdisk, hfat, htab]
  rfl

/-- The contents of the cluster are on the disk unless the table or the parent is written over them. -/
theorem writeOne_disk (s : State) (r : Request) (row : Fin 64) {c : Nat} (h1 : c % 2 ^ 26 ≠ 1)
    (hp : c % 2 ^ 26 ≠ r.parent % 2 ^ 26) (b : Nat → UInt8) :
    readClusters (writeOne s { r with buf := b } row c).disk c = filePartCluster b 0 2048 := by
  obtain ⟨f, t, he⟩ := writeOne_eq s r row c
  have h1' : fatClusterNumber % 2 ^ 26 ≠ c % 2 ^ 26 := Ne.symm h1
  rw [(he b).2, readClusters_writeClusters_of_mod_ne _ _ (Ne.symm hp), readClusters_writeClusters_of_mod_ne _ _ h1',
    readClusters_writeClusters]

/-- Otherwise nothing is left of them. -/
theorem writeOne_buried (s : State) (r : Request) (row : Fin 64) {c : Nat}
    (hc : c % 2 ^ 26 = 1 ∨ c % 2 ^ 26 = r.parent % 2 ^ 26) (b b' : Nat → UInt8) :
    (writeOne s { r with buf := b } row c).disk = (writeOne s { r with buf := b' } row c).disk := by
  obtain ⟨f, t, he⟩ := writeOne_eq s r row c
  have h1 : fatClusterNumber % 2 ^ 26 = 1 := by decide
  rw [(he b).2, (he b').2]
  rcases hc with hc | hc
  · have hfat : writeClusters (writeClusters s.disk (filePartCluster b 0 2048) c) (encodeFat f) fatClusterNumber =
        writeClusters (writeClusters s.disk (filePartCluster b' 0 2048) c) (encodeFat f) fatClusterNumber := by
      refine writeClusters_congr (fun a ha => ?_) _
      rw [h1, ← hc] at ha
      rw [writeClusters_of_not_mem _ _ ha, writeClusters_of_not_mem _ _ ha]
    rw [hfat]
  · refine writeClusters_congr (fun a ha => ?_) _
    by_cases ha1 : 2048 * (fatClusterNumber % 2 ^ 26) ≤ a ∧ a < 2048 * (fatClusterNumber % 2 ^ 26) + 2048
    · -- the table is written over both contents there
      simp only [writeClusters, writeBlocks, blockAddr_clusterToLba]
      rw [dif_pos (by omega), dif_pos (by omega)]
    · rw [← hc] at ha
      rw [writeClusters_of_not_mem _ _ ha1, writeClusters_of_not_mem _ _ ha1, writeClusters_of_not_mem _ _ ha,
        writeClusters_of_not_mem _ _ ha]

/-! ## When the disk depends on the file alone -/

/-- The first cluster is overwritten in the same call: the scan ends on the table's cluster or on the parent's. -/
def Buried (s : State) (r : Request) : Prop :=
  startCluster s r % 2 ^ 26 = 1 ∨ startCluster s r % 2 ^ 26 = r.parent % 2 ^ 26

/-- A request that one of the checks stops looks at no byte of the buffer. -/
theorem write_congr_refused {s : State} {r : Request} (h : s.volume.Refused r) (b : Nat → UInt8) :
    write s { r with buf := b } = write s r := by
  have htab : (s.loadDirTable r.parent).dirTableBuf = s.volume.table r.parent := rfl
  have hrow : findRow (s.volume.table r.parent) { r with buf := b } = findRow (s.volume.table r.parent) r := rfl
  have hpar : ({ r with buf := b } : Request).parent = r.parent := rfl
  unfold write
  simp only [hpar, htab, hrow]
  rcases h with hd | hf | hf
  · simp [hd]
  · simp [hf]
  · simp [hf]

/-- Whatever the buffer, a small file that passes the checks goes into the same row and cluster. -/
theorem write_small {s : State} {r : Request} (hz : r.bufferSize ≠ 0) (hn : r.bufferSize.toNat < 2048)
    (hr : ¬ s.volume.Refused r) : ∃ (code : Int) (row : Fin 64), ∀ b, write s { r with buf := b } =
      (code, writeOne (s.loadDirTable r.parent) { r with buf := b } row (startCluster s r)) := by
  obtain ⟨row, hrow, -⟩ := write_of_not_refused hr
  refine ⟨if (findEmptyCluster (s.loadDirTable r.parent)).isSome then 0 else -1, row, fun b => ?_⟩
  obtain ⟨r', hr'⟩ : ∃ r', r' = { r with buf := b } := ⟨_, rfl⟩
  have hsize : r'.bufferSize = r.bufferSize := by rw [hr']
  have hpar : r'.parent = r.parent := by rw [hr']
  have hnot : ¬ s.volume.Refused r' := by rw [hr']; exact hr
  obtain ⟨row', hrow', hw⟩ := write_of_not_refused hnot
  rw [hpar, hrow] at hrow'
  obtain rfl := Option.some.inj hrow'
  rw [← hr', hw, hpar, if_neg (hsize ▸ hz), writeFile_small (hsize ▸ hz) (hsize ▸ hn)]
  rfl

/-- The disks after two buffers that agree on the file and differ in the byte behind it. -/
theorem write_leaks {s : State} {r : Request} (hz : r.bufferSize ≠ 0) (hn : r.bufferSize.toNat < 2048)
    (hr : ¬ s.volume.Refused r) (hb : ¬ Buried s r) : ¬ OwnBytesOnly s r := by
  intro hown
  obtain ⟨h1, hp⟩ := not_or.1 hb
  obtain ⟨code, row, hw⟩ := write_small hz hn hr
  have hcl : ∀ b, (∀ a < r.bufferSize.toNat, b a = r.buf a) →
      filePartCluster b 0 2048 = readClusters (write s r).2.disk (startCluster s r) := by
    intro b hb
    rw [← (hown { r with buf := b } ⟨rfl, rfl, rfl, rfl, hb⟩).2.1, hw b, writeOne_disk _ r row h1 hp]
  have hsame := (hcl r.buf fun _ _ => rfl).trans
    (hcl (fun a => if a < r.bufferSize.toNat then r.buf a else r.buf a + 1) fun a ha => if_pos ha).symm
  have hbyte := congrFun hsame ⟨r.bufferSize.toNat, hn⟩
  simp [filePartCluster, hn] at hbyte

theorem ownBytesOnly_of_buried {s : State} {r : Request} (hz : r.bufferSize ≠ 0) (hn : r.bufferSize.toNat < 2048)
    (hr : ¬ s.volume.Refused r) (hb : Buried s r) : OwnBytesOnly s r := by
  intro r' hsame
  obtain ⟨code, row, hw⟩ := write_small hz hn hr
  obtain ⟨f, t, he⟩ := writeOne_eq (s.loadDirTable r.parent) r row (startCluster s r)
  have hself : write s r = _ := hw r.buf
  rw [hsame.eq, hw, hself]
  exact ⟨rfl, writeOne_buried _ r row hb r'.buf r.buf, (he r'.buf).1.trans (he r.buf).1.symm⟩

/-- In any state, for any request. -/
theorem ownBytesOnly_cases (s : State) (r : Request) : OwnBytesOnly s r ↔
    r.bufferSize = 0 ∨ 2048 ≤ r.bufferSize.toNat ∨ s.volume.Refused r ∨ Buried s r := by
  by_cases hr : s.volume.Refused r
  · refine iff_of_true (fun r' hsame => ?_) (.inr (.inr (.inl hr)))
    rw [hsame.eq, write_congr_refused hr]
    exact ⟨rfl, rfl, rfl⟩
  by_cases hn : 2048 ≤ r.bufferSize.toNat
  · refine iff_of_true (fun r' hsame => ?_) (.inr (.inl hn))
    rw [hsame.eq, write_congr hsame.buf hn]
    exact ⟨rfl, rfl, rfl⟩
  by_cases hz : r.bufferSize = 0
  · refine iff_of_true (fun r' hsame => ?_) (.inl hz)
    have hfolder : write s { r with buf := r'.buf } = write s r := by
      simp only [write, if_pos hz]
      rfl
    rw [hsame.eq, hfolder]
    exact ⟨rfl, rfl, rfl⟩
  · have hlt : r.bufferSize.toNat < 2048 := by omega
    constructor
    · intro hown
      by_contra hnot
      exact write_leaks hz hlt hr (fun hb => hnot (.inr (.inr (.inr hb)))) hown
    · rintro (h | h | h | hb)
      · exact absurd h hz
      · exact absurd h hn
      · exact absurd h hr
      · exact ownBytesOnly_of_buried hz hlt hr hb

/-- On a volume in order the scan ends on no directory and not on the table. -/
theorem Inv.not_buried {s : State} {live : Finset Nat} {r : Request} (h : Inv s.volume live) (hp : r.parent ∈ live) :
    ¬ Buried s r := by
  obtain ⟨h2, h512, hword⟩ := h.live_cluster hp
  have hstart : startCluster s r < 2048 ∧ startCluster s r ≠ 1 ∧ startCluster s r ≠ r.parent := by
    have h0 : 0 ≠ r.parent := by omega
    unfold startCluster
    rcases hf : findEmptyCluster (s.loadDirTable r.parent) with _ | c
    · exact ⟨by simp, by simp, h0⟩
    · have hmem := List.mem_of_find?_eq_some hf
      have hlt : c < 2048 := List.mem_range.1 hmem
      have hempty := List.find?_some hf
      rw [beq_iff_eq] at hempty
      have hne : ∀ n < 512, s.fatTable.get n ≠ fatEmptyEntry → c ≠ n := by
        rintro n hn hne rfl
        rw [State.clusterMap_of_lt _ hn] at hempty
        exact hne hempty
      refine ⟨hlt, hne 1 (by decide) ?_, hne _ h512 ?_⟩
      · rw [← State.volume_fat, h.fat1]
        decide
      · rw [← State.volume_fat, hword]
        decide
  unfold Buried
  omega

/-- **Whose bytes reach the disk.** The code, the disk and the table depend on the file's bytes alone exactly if the
request is for a folder, fills its first cluster, is refused, or has its first cluster overwritten in the same call.
The last does not happen below a directory of a volume that safe requests have built. -/
theorem ownBytesOnly_iff (s : State) (r : Request) :
    (OwnBytesOnly s r ↔ r.bufferSize = 0 ∨ 2048 ≤ r.bufferSize.toNat ∨ s.volume.Refused r ∨ Buried s r) ∧
    ∀ live, Run Safe s live → r.parent ∈ live →
      (OwnBytesOnly s r ↔ r.bufferSize = 0 ∨ 2048 ≤ r.bufferSize.toNat ∨ s.volume.Refused r) := by
  refine ⟨ownBytesOnly_cases s r, fun live h hp => ?_⟩
  have hb : ¬ Buried s r := h.safe_inv.not_buried hp
  rw [ownBytesOnly_cases]
  simp [hb]

theorem ownBytesOnly_4096 : OwnBytesOnly (createFat32 blankState) (fileRequest 4096) :=
  ((ownBytesOnly_iff _ _).2 {rootClusterNumber} (Run.format Safe blankState) (by decide)).2 (.inr (.inl (by decide)))

/-- One byte, and another one behind it. -/
theorem not_ownBytesOnly_one : ¬ ∀ s live r, Run LiveParent s live → r.bufferSize ≠ 0 → OwnBytesOnly s r := by
  intro hall
  have hown := hall _ _ (fileRequest 1) (Run.format LiveParent blankState) (by decide)
  have hb := (createFat32_inv blankState).not_buried (r := fileRequest 1) (by decide)
  refine write_leaks (by decide) (by decide) (fun hr => ?_) hb hown
  obtain ⟨code, hcode, hw, -⟩ := write_refused hr
  have hzero := fileRequest_write (n := 1) (k := 0) rfl (by decide)
  rw [hw] at hzero
  exact hcode hzero

end MoggersOs
