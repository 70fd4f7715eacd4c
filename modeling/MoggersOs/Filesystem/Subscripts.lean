import MoggersOs.Lib.Traced
import MoggersOs.Filesystem.Remove
import MoggersOs.Filesystem.Allocate
/-
# The subscripts of `cluster_map`

`read`, `write` and `delete` once more, each with the list of subscripts it loads from and stores to
`driver_state.fat_table.cluster_map` at. Forgetting the list gives back the operations of `Fat32.lean`
(`exec_out`), so these are subscripts of the same code.

| here | there |
| --- | --- |
| `load`, `store`     | one load or store `driver_state.fat_table.cluster_map[n]` |
| `findEmptyCluster`  | the scan `for(i=0; i<CLUSTER_SIZE; i++)` of both branches of `write` (`fat32.c:258-263`, `297-304`) |
| `InTable`           | every subscript is smaller than `CLUSTER_MAP_SIZE` (`fat32.h:19`) |
| `DeletesFile`       | the request reaches the store after the loop of `delete` (`fat32.c:496`) |

The whole table also goes to the disk and comes from there; those calls get the array and use no subscript.
-/

namespace MoggersOs

namespace Subscripts

open Lib (Traced)

def load (s : State) (n : Nat) : Traced Nat UInt32 := .note n (s.clusterMap n)

def store (s : State) (n : Nat) (v : UInt32) : Traced Nat State := .note n (s.setClusterMap n v)

/-! ## `read` -/

def readChain (s : State) : Nat → (Nat → UInt8) → Nat → Nat → Traced Nat (Option (Nat → UInt8))
  | 0, _, _, _ => pure none
  | fuel + 1, buf, counter, clusterNum => do
    let buf := blit buf (2048 * counter) (readClusters s.disk clusterNum)
    let next ← load s clusterNum
    if next = fatEndOfFile then pure (some buf)
    else readChain s fuel buf ((counter + 1) % 2 ^ 16) next.toNat

def read (fuel : Nat) (s : State) (r : Request) : Traced Nat (Option (Reply × State)) :=
  let s := s.loadDirTable r.parent
  if (s.dirTableBuf 0).userAttribute != uattrNotEmpty then pure (some (⟨-1, r.buf⟩, s))
  else
    let s := s.loadFat
    match Fin.find? fun i => sameName (s.dirTableBuf i) r with
    | none => pure (some (⟨2, r.buf⟩, s))
    | some i =>
      let e := s.dirTableBuf i
      if e.attr = attrSubdirectory then pure (some (⟨1, r.buf⟩, s))
      else if r.bufferSize < e.filesize then pure (some (⟨-1, r.buf⟩, s))
      else do
        let buf ← readChain s fuel r.buf 0 e.cluster
        pure (buf.map fun buf => (⟨0, buf⟩, s))

/-! ## `write` -/

def findEmptyCluster (s : State) : List Nat → Traced Nat (Option Nat)
  | [] => pure none
  | i :: is => do
    let entry ← load s i
    if entry = fatEmptyEntry then pure (some i) else findEmptyCluster s is

def writeFolder (s : State) (r : Request) (entryRow : Fin 64) : Traced Nat (Int × State) := do
  let found ← findEmptyCluster s (List.range 2048)
  let clusterNumber := found.getD 0
  if clusterNumber = 0 then pure (-1, s)
  else do
    let s ← store s clusterNumber fatEndOfFile
    let s := s.flushFat
    let newDir := newDirectory r.name r.parent clusterNumber
    let s := s.storeRow entryRow (newDir 0) r.parent
    let s := s.writeClusters (encodeTable newDir) clusterNumber
    pure (0, s)

def fillCluster (r : Request) (i : Nat) (f : Fill) : Traced Nat Fill := do
  let size := if f.clusterNeeded = 1 then r.bufferSize.toNat % 2048 else 2048
  let s ← store f.state f.tempCluster (UInt32.ofNat i)
  let s := s.writeClusters (filePartCluster r.buf f.filePart size) i
  let s ← store s i fatEndOfFile
  pure ⟨s, i, f.clusterNeeded - 1, f.filePart + 1⟩

def fillClusters (r : Request) : List Nat → Fill → Traced Nat Fill
  | [], f => pure f
  | i :: is, f =>
    if 0 < f.clusterNeeded then do
      let entry ← load f.state i
      if entry = fatEmptyEntry then do
        let f ← fillCluster r i f
        fillClusters r is f
      else fillClusters r is f
    else pure f

def writeFile (s : State) (r : Request) (entryRow : Fin 64) : Traced Nat (Int × State) := do
  let clusterNeeded := clustersOf r.bufferSize.toNat
  let found ← findEmptyCluster s (List.range 2048)
  let startCluster := found.getD 0
  let clusterNeeded := if found.isSome then clusterNeeded - 1 else clusterNeeded
  let s := s.writeClusters (filePartCluster r.buf 0 2048) startCluster
  let s ← store s startCluster fatEndOfFile
  let f ← fillClusters r (List.range' (startCluster + 1) (2048 - (startCluster + 1)))
    ⟨s, startCluster, clusterNeeded, 1⟩
  let s := f.state.flushFat
  let s := s.storeRow entryRow (newFile r startCluster) r.parent
  if 0 < f.clusterNeeded then pure (-1, s) else pure (0, s)

def write (s : State) (r : Request) : Traced Nat (Int × State) :=
  let s := s.loadDirTable r.parent
  if !isDirectory s.dirTableBuf then pure (2, s)
  else match findFreeRow s.dirTableBuf with
    | none => pure (-1, s)
    | some entryRow =>
      if (findRow s.dirTableBuf r).isSome then pure (1, s)
      else if r.bufferSize = 0 then writeFolder s r entryRow
      else writeFile s r entryRow

/-! ## `delete` -/

def deleteFolder (s : State) (r : Request) (entryRow : Fin 64) (clusterNumber : Nat) : Traced Nat (Int × State) :=
  let targetDir := decodeTable (readClusters s.disk clusterNumber)
  if occupied targetDir then pure (2, s)
  else do
    let s := s.storeRow entryRow (clearEntry (s.dirTableBuf entryRow)) r.parent
    let targetDir := Function.update (Function.update targetDir 0 (clearEntry (targetDir 0))) 1
      (clearEntry (targetDir 1))
    let s := s.writeClusters (encodeTable targetDir) clusterNumber
    let s ← store s clusterNumber fatEmptyEntry
    pure (0, s.flushFat)

def eraseCluster (s : State) (c : Nat) : Traced Nat State := do
  let s ← store s c fatEmptyEntry
  pure (s.writeClusters zeroCluster c)

def eraseChain : Nat → State → Nat → UInt32 → Traced Nat (Option (State × Nat))
  | 0, _, _, _ => pure none
  | fuel + 1, s, clusterNumber, nextCluster =>
    if nextCluster = fatEndOfFile then pure (some (s, clusterNumber))
    else do
      let following ← load s nextCluster.toNat
      let s ← eraseCluster s nextCluster.toNat
      eraseChain fuel s nextCluster.toNat following

def deleteFile (fuel : Nat) (s : State) (r : Request) (entryRow : Fin 64) (clusterNumber : Nat) :
    Traced Nat (Option (Int × State)) := do
  let s := s.storeRow entryRow zeroEntry r.parent
  let nextCluster ← load s clusterNumber
  let s ← eraseCluster s clusterNumber
  let walked ← eraseChain fuel s clusterNumber nextCluster
  match walked with
  | none => pure none
  | some (s, clusterNumber) => do
    let s ← store s fatEndOfFile.toNat fatEmptyEntry
    let s := s.flushFat
    pure (some (0, s.writeClusters zeroCluster clusterNumber))

def delete (fuel : Nat) (s : State) (r : Request) : Traced Nat (Option (Int × State)) :=
  let s := s.loadDirTable r.parent
  if !isDirectory s.dirTableBuf then pure (some (-1, s))
  else match findRow s.dirTableBuf r with
    | none => pure (some (1, s))
    | some entryRow =>
      let e := s.dirTableBuf entryRow
      if e.attr = attrSubdirectory then do
        let out ← deleteFolder s r entryRow e.cluster
        pure (some out)
      else deleteFile fuel s r entryRow e.cluster

def exec (fuel : Nat) (s : State) : Op → Traced Nat (Option (Reply × State))
  | .write r => do
    let out ← write s r
    pure (some (⟨out.1, r.buf⟩, out.2))
  | .delete r => do
    let out ← delete fuel s r
    pure (out.map fun out => (⟨out.1, r.buf⟩, out.2))
  | .read r => read fuel s r
  | .readDirectory r => pure (some (MoggersOs.readDirectory s r))

/-! ## The list does not change the operations -/

@[simp] theorem load_out (s : State) (n : Nat) : (load s n).out = s.clusterMap n := rfl
@[simp] theorem store_out (s : State) (n : Nat) (v : UInt32) : (store s n v).out = s.setClusterMap n v := rfl

@[simp] theorem readChain_out (s : State) : ∀ (fuel : Nat) (buf : Nat → UInt8) (k c : Nat),
    (readChain s fuel buf k c).out = MoggersOs.readChain s fuel buf k c
  | 0, _, _, _ => rfl
  | fuel + 1, buf, k, c => by
    by_cases h : s.clusterMap c = fatEndOfFile
    · simp [readChain, MoggersOs.readChain, h]
    · simp [readChain, MoggersOs.readChain, h, readChain_out s fuel]

@[simp] theorem read_out (fuel : Nat) (s : State) (r : Request) : (read fuel s r).out = MoggersOs.read fuel s r := by
  simp only [read, MoggersOs.read]
  cases Fin.find? fun i => sameName ((s.loadDirTable r.parent).loadFat.dirTableBuf i) r with
  | none => simp
  | some i => simp

@[simp] theorem findEmptyCluster_out (s : State) : ∀ is : List Nat,
    (findEmptyCluster s is).out = is.find? fun i => s.clusterMap i == fatEmptyEntry
  | [] => rfl
  | i :: is => by
    by_cases h : s.clusterMap i = fatEmptyEntry
    · simp [findEmptyCluster, h]
    · simp [findEmptyCluster, h, findEmptyCluster_out s is]

@[simp] theorem fillCluster_out (r : Request) (i : Nat) (f : Fill) :
    (fillCluster r i f).out = MoggersOs.fillCluster r i f := rfl

@[simp] theorem fillClusters_out (r : Request) : ∀ (is : List Nat) (f : Fill),
    (fillClusters r is f).out = MoggersOs.fillClusters r is f
  | [], _ => rfl
  | i :: is, f => by
    by_cases hn : 0 < f.clusterNeeded
    · by_cases h : f.state.clusterMap i = fatEmptyEntry
      · simp [fillClusters, MoggersOs.fillClusters, hn, h, fillClusters_out r is]
      · simp [fillClusters, MoggersOs.fillClusters, hn, h, fillClusters_out r is]
    · simp [fillClusters, MoggersOs.fillClusters, hn]

@[simp] theorem writeFolder_out (s : State) (r : Request) (row : Fin 64) :
    (writeFolder s r row).out = MoggersOs.writeFolder s r row := by
  rw [writeFolder, MoggersOs.writeFolder, Traced.out_bind, findEmptyCluster_out, ← MoggersOs.findEmptyCluster]
  generalize MoggersOs.findEmptyCluster s = found
  by_cases h0 : found.getD 0 = 0
  · simp [h0]
  · simp [h0]

@[simp] theorem writeFile_out (s : State) (r : Request) (row : Fin 64) :
    (writeFile s r row).out = MoggersOs.writeFile s r row := by
  rw [writeFile, MoggersOs.writeFile, Traced.out_bind, findEmptyCluster_out, ← MoggersOs.findEmptyCluster]
  generalize MoggersOs.findEmptyCluster s = found
  dsimp only
  rw [Traced.out_bind, Traced.out_bind, fillClusters_out, store_out]
  generalize MoggersOs.fillClusters r _ _ = f
  by_cases hn : 0 < f.clusterNeeded
  · rw [if_pos hn, if_pos hn]
    rfl
  · rw [if_neg hn, if_neg hn]
    rfl

@[simp] theorem write_out (s : State) (r : Request) : (write s r).out = MoggersOs.write s r := by
  simp only [write, MoggersOs.write]
  cases findFreeRow (s.loadDirTable r.parent).dirTableBuf with
  | none => simp
  | some row => simp

@[simp] theorem deleteFolder_out (s : State) (r : Request) (row : Fin 64) (c : Nat) :
    (deleteFolder s r row c).out = MoggersOs.deleteFolder s r row c := by
  simp only [deleteFolder, MoggersOs.deleteFolder, Traced.out_bind, Traced.out_ite, Traced.out_pure, store_out]

@[simp] theorem eraseCluster_out (s : State) (c : Nat) : (eraseCluster s c).out = MoggersOs.eraseCluster s c := rfl

@[simp] theorem eraseChain_out : ∀ (fuel : Nat) (s : State) (c : Nat) (next : UInt32),
    (eraseChain fuel s c next).out = MoggersOs.eraseChain fuel s c next
  | 0, _, _, _ => rfl
  | fuel + 1, s, c, next => by
    simp only [eraseChain, MoggersOs.eraseChain, Traced.out_bind, Traced.out_ite, Traced.out_pure, load_out,
      eraseCluster_out, eraseChain_out fuel]

@[simp] theorem deleteFile_out (fuel : Nat) (s : State) (r : Request) (row : Fin 64) (c : Nat) :
    (deleteFile fuel s r row c).out = MoggersOs.deleteFile fuel s r row c := by
  simp only [deleteFile, MoggersOs.deleteFile, Traced.out_bind, load_out, eraseCluster_out, eraseChain_out]
  cases MoggersOs.eraseChain fuel (MoggersOs.eraseCluster (s.storeRow row zeroEntry r.parent) c) c
    ((s.storeRow row zeroEntry r.parent).clusterMap c) with
  | none => rfl
  | some walked => rfl

@[simp] theorem delete_out (fuel : Nat) (s : State) (r : Request) :
    (delete fuel s r).out = MoggersOs.delete fuel s r := by
  simp only [delete, MoggersOs.delete]
  cases findRow (s.loadDirTable r.parent).dirTableBuf r with
  | none => simp
  | some row => simp

/-- **The traced request is the request.** -/
theorem exec_out (fuel : Nat) (s : State) (op : Op) : (exec fuel s op).out = MoggersOs.exec fuel s op := by
  cases op with
  | write r => simp [exec, MoggersOs.exec]
  | delete r => simp [exec, MoggersOs.exec]
  | read r => exact read_out fuel s r
  | readDirectory r => rfl

/-! ## Walks along a chain in the table -/

theorem readChain_all {s : State} : ∀ {fuel : Nat} {buf : Nat → UInt8} {k c : Nat} {l : List Nat},
    Lib.Chain s.volume.next endMark c l → (∀ x ∈ l, x < 512) → Traced.All (· < 512) (readChain s fuel buf k c)
  | 0, _, _, _, _, _, _ => Traced.all_pure _
  | fuel + 1, buf, k, c, _, h, hlt => by
    have hc := hlt c h.head_mem
    rw [readChain]
    refine Traced.all_bind.2 ⟨Traced.all_note.2 hc, ?_⟩
    rw [load_out, s.clusterMap_of_lt hc]
    cases h with
    | last hs =>
      have he : s.fatTable.get c = fatEndOfFile := next_eq_endMark.1 hs
      rw [if_pos he]
      exact Traced.all_pure _
    | cons hne ht =>
      have he : s.fatTable.get c ≠ fatEndOfFile := fun he => hne (next_eq_endMark.2 he)
      rw [if_neg he]
      exact readChain_all ht fun x hx => hlt x (List.mem_cons_of_mem _ hx)

theorem read_all {s : State} {r : Request} (fuel : Nat) (h : Synced s.volume)
    (hchain : ∀ row, Volume.findAnyRow (s.volume.table r.parent) r = some row →
      ¬ (s.volume.table r.parent row).Folder →
      ∃ l, Lib.Chain s.volume.next endMark (s.volume.table r.parent row).cluster l ∧ ∀ x ∈ l, x < 512) :
    Traced.All (· < 512) (read fuel s r) := by
  have htab : (s.loadDirTable r.parent).loadFat.dirTableBuf = s.volume.table r.parent := rfl
  unfold read
  dsimp only
  rw [htab]
  split
  · exact Traced.all_pure _
  · split
    · exact Traced.all_pure _
    · rename_i i hi
      split
      · exact Traced.all_pure _
      · rename_i hfo
        split
        · exact Traced.all_pure _
        · obtain ⟨l, hl, hlt⟩ := hchain i hi hfo
          rw [← h.volume_loadFat r.parent] at hl
          exact Traced.all_bind.2 ⟨readChain_all hl hlt, Traced.all_pure _⟩

theorem eraseCluster_all (s : State) {c : Nat} (hc : c < 512) : Traced.All (· < 512) (eraseCluster s c) :=
  Traced.all_bind.2 ⟨Traced.all_note.2 hc, Traced.all_pure _⟩

/-- The loop of `delete` stays in the table, although it destroys the chain it follows. -/
theorem eraseChain_all {c : Nat} {l : List Nat} : ∀ {s : State} {fuel : Nat}, Lib.Chain s.volume.next endMark c l →
    (∀ x ∈ l, x < 512) →
    Traced.All (· < 512) (eraseChain fuel (MoggersOs.eraseCluster s c) c (s.clusterMap c)) := by
  intro s fuel h hlt
  -- on the chain's length: the state changes on the way
  induction l generalizing c s fuel with
  | nil => exact absurd rfl h.ne_nil
  | cons d l ih =>
    cases fuel with
    | zero => exact Traced.all_pure _
    | succ fuel =>
      have hd : d < 512 := hlt d (by simp)
      cases h with
      | last hs =>
        have he : s.fatTable.get d = fatEndOfFile := next_eq_endMark.1 hs
        rw [s.clusterMap_of_lt hd, eraseChain, if_pos he]
        exact Traced.all_pure _
      | cons hne ht =>
        have hlt' : ∀ x ∈ l, x < 512 := fun x hx => hlt x (List.mem_cons_of_mem _ hx)
        have hnext : s.volume.next d < 512 := hlt' _ ht.head_mem
        have ht' := eraseCluster_chain hd (.cons hne ht) ht
        have he : s.fatTable.get d ≠ fatEndOfFile := fun he => hne (next_eq_endMark.2 he)
        rw [s.clusterMap_of_lt hd, eraseChain, if_neg he]
        exact Traced.all_bind.2 ⟨Traced.all_note.2 hnext, Traced.all_bind.2 ⟨eraseCluster_all _ hnext, ih ht' hlt'⟩⟩

/-! ## The scans of `write` -/

theorem findEmptyCluster_all {s : State} (rest : List Nat) : ∀ {is : List Nat}, (∀ i ∈ is, i < 512) →
    (∃ i ∈ is, s.clusterMap i = fatEmptyEntry) → Traced.All (· < 512) (findEmptyCluster s (is ++ rest))
  | [], _, h => by simp at h
  | i :: is, hlt, h => by
    rw [List.cons_append, findEmptyCluster]
    refine Traced.all_bind.2 ⟨Traced.all_note.2 (hlt i (by simp)), ?_⟩
    rw [load_out]
    by_cases hi : s.clusterMap i = fatEmptyEntry
    · rw [if_pos hi]
      exact Traced.all_pure _
    · rw [if_neg hi]
      refine findEmptyCluster_all rest (fun j hj => hlt j (List.mem_cons_of_mem _ hj)) ?_
      obtain ⟨j, hj, hje⟩ := h
      rcases List.mem_cons.1 hj with rfl | hj
      · exact absurd hje hi
      · exact ⟨j, hj, hje⟩

/-- With an unused entry in the table the first scan stops there. -/
theorem firstScan_all {s : State} {c : Nat} (h : c ∈ s.fatTable.freeClusters) :
    Traced.All (· < 512) (findEmptyCluster s (List.range 2048)) := by
  have hsplit : List.range 2048 = List.range 512 ++ List.range' 512 1536 := by
    have h := List.range'_append_1 (s := 0) (m := 512) (n := 1536)
    rw [List.range_eq_range', List.range_eq_range']
    exact h.symm
  obtain ⟨hc, h0⟩ := Fat.mem_freeClusters.1 h
  rw [hsplit]
  refine findEmptyCluster_all _ (fun i hi => List.mem_range.1 hi) ⟨c, List.mem_range.2 hc, ?_⟩
  rw [s.clusterMap_of_lt hc, h0]
  rfl

theorem fillCluster_all (r : Request) {i : Nat} {f : Fill} (ht : f.tempCluster < 512) (hi : i < 512) :
    Traced.All (· < 512) (fillCluster r i f) :=
  Traced.all_bind.2 ⟨Traced.all_note.2 ht, Traced.all_bind.2 ⟨Traced.all_note.2 hi, Traced.all_pure _⟩⟩

/-- With enough unused entries ahead the second scan has what it needs before it leaves them. -/
theorem fillClusters_all (r : Request) (rest : List Nat) : ∀ {is : List Nat} {f : Fill}, is.Nodup →
    (∀ i ∈ is, i < 512) → f.tempCluster < 512 → f.tempCluster ∉ is →
    f.clusterNeeded ≤ (is.filter fun i => f.state.fatTable.get i == fatEmptyEntry).length →
    Traced.All (· < 512) (fillClusters r (is ++ rest) f)
  | [], f, _, _, _, _, hn => by
    have h0 : ¬ 0 < f.clusterNeeded := by simpa using hn
    cases rest with
    | nil => exact Traced.all_pure _
    | cons i rest =>
      rw [List.nil_append, fillClusters, if_neg h0]
      exact Traced.all_pure _
  | i :: is, f, hnd, hlt, ht, hti, hn => by
    obtain ⟨hi, hnd⟩ := List.nodup_cons.1 hnd
    have hlt' : ∀ j ∈ is, j < 512 := fun j hj => hlt j (List.mem_cons_of_mem _ hj)
    have hi512 : i < 512 := hlt i (by simp)
    simp only [List.mem_cons, not_or] at hti
    by_cases hpos : 0 < f.clusterNeeded
    swap
    · rw [List.cons_append, fillClusters, if_neg hpos]
      exact Traced.all_pure _
    rw [List.cons_append, fillClusters, if_pos hpos]
    refine Traced.all_bind.2 ⟨Traced.all_note.2 hi512, ?_⟩
    rw [load_out, f.state.clusterMap_of_lt hi512]
    by_cases he : f.state.fatTable.get i = fatEmptyEntry
    · rw [if_pos he]
      refine Traced.all_bind.2 ⟨fillCluster_all r ht hi512, fillClusters_all r rest hnd hlt' hi512 hi ?_⟩
      -- the entries ahead are as before, and one cluster less is needed
      have hfilter : (is.filter fun j => (MoggersOs.fillCluster r i f).state.fatTable.get j == fatEmptyEntry) =
          is.filter fun j => f.state.fatTable.get j == fatEmptyEntry := by
        refine List.filter_congr fun j hj => ?_
        rw [fillCluster_get r ht hi512 (fun h => hti.2 (h ▸ hj)) (fun h => hi (h ▸ hj))]
      rw [List.filter_cons_of_pos (by simp [he]), List.length_cons] at hn
      rw [fillCluster_out, hfilter]
      show f.clusterNeeded - 1 ≤ _
      omega
    · rw [if_neg he]
      rw [List.filter_cons_of_neg (by simp [he])] at hn
      exact fillClusters_all r rest hnd hlt' ht hti.2 hn

theorem writeFile_all {s : State} {r : Request} (row : Fin 64)
    (hpos : 0 < clustersOf r.bufferSize.toNat) (hfit : clustersOf r.bufferSize.toNat ≤ s.fatTable.freeClusters.length) :
    Traced.All (· < 512) (writeFile s r row) := by
  obtain ⟨c, m, hfree⟩ := List.exists_cons_of_length_pos (Nat.lt_of_lt_of_le hpos hfit)
  obtain ⟨hfind, hc, hm⟩ := findEmptyCluster_eq hfree
  rw [writeFile]
  refine Traced.all_bind.2 ⟨firstScan_all (c := c) (by rw [hfree]; simp), ?_⟩
  rw [findEmptyCluster_out, ← MoggersOs.findEmptyCluster, hfind]
  simp only [Option.getD_some, Option.isSome_some, if_true]
  refine Traced.all_bind.2 ⟨Traced.all_note.2 hc, Traced.all_bind.2 ⟨?_, ?_⟩⟩
  · rw [store_out, State.setClusterMap_of_lt _ hc, secondScan_split hc]
    refine fillClusters_all r _ List.nodup_range' ?_ hc (by simp) ?_
    · intro i hi
      simp only [List.mem_range'_1] at hi
      omega
    · have hlen := congrArg List.length hfree
      dsimp only [State.writeClusters]
      rw [secondScan_free, ← hm]
      rw [List.length_cons] at hlen
      omega
  · split <;> exact Traced.all_pure _

theorem writeFolder_all {s : State} {r : Request} (row : Fin 64) (hfit : 0 < s.fatTable.freeClusters.length) :
    Traced.All (· < 512) (writeFolder s r row) := by
  obtain ⟨c, m, hfree⟩ := List.exists_cons_of_length_pos hfit
  obtain ⟨hfind, hc, -⟩ := findEmptyCluster_eq hfree
  rw [writeFolder]
  refine Traced.all_bind.2 ⟨firstScan_all (c := c) (by rw [hfree]; simp), ?_⟩
  rw [findEmptyCluster_out, ← MoggersOs.findEmptyCluster, hfind]
  dsimp only
  split
  · exact Traced.all_pure _
  · exact Traced.all_bind.2 ⟨Traced.all_note.2 hc, Traced.all_pure _⟩

theorem write_all {s : State} {r : Request} (hfit : s.volume.Fits r) : Traced.All (· < 512) (write s r) := by
  unfold write
  dsimp only
  split
  · exact Traced.all_pure _
  · split
    · exact Traced.all_pure _
    · split
      · exact Traced.all_pure _
      · split
        · rename_i hz
          rw [Volume.Fits, Volume.needed, if_pos hz] at hfit
          exact writeFolder_all (s := s.loadDirTable r.parent) _ hfit
        · rename_i hz
          rw [Volume.Fits, Volume.needed, if_neg hz] at hfit
          exact writeFile_all (s := s.loadDirTable r.parent) _ (clustersOf_pos hz) hfit

/-! ## `delete` -/

theorem deleteFolder_all (s : State) (r : Request) (row : Fin 64) {c : Nat} (hc : c < 512) :
    Traced.All (· < 512) (deleteFolder s r row c) := by
  unfold deleteFolder
  dsimp only
  split
  · exact Traced.all_pure _
  · exact Traced.all_bind.2 ⟨Traced.all_note.2 hc, Traced.all_pure _⟩

/-- **The store after the loop of `delete` is out of range.** -/
theorem deleteFile_not_all {s : State} {r : Request} (row : Fin 64) {c : Nat} {l : List Nat}
    (h : Lib.Chain s.volume.next endMark c l) (hlt : ∀ x ∈ l, x < 512) {fuel : Nat} (hfuel : l.length ≤ fuel) :
    ¬ Traced.All (· < 512) (deleteFile fuel s r row c) := by
  intro hall
  have hwalk := eraseChain_eq (s := s.storeRow row zeroEntry r.parent) h hlt hfuel
  rw [deleteFile] at hall
  have hrest := (Traced.all_bind.1 (Traced.all_bind.1 (Traced.all_bind.1 hall).2).2).2
  rw [eraseChain_out, eraseCluster_out, load_out, hwalk] at hrest
  exact absurd (Traced.all_note.1 (Traced.all_bind.1 hrest).1) (by decide)

/-- Every other subscript of the file branch is in the table. -/
theorem deleteFile_all {s : State} {r : Request} (row : Fin 64) {c : Nat} {l : List Nat}
    (h : Lib.Chain s.volume.next endMark c l) (hlt : ∀ x ∈ l, x < 512) (fuel : Nat) :
    Traced.All (fun x => x < 512 ∨ x = endMark) (deleteFile fuel s r row c) := by
  have hc : c < 512 := hlt c h.head_mem
  rw [deleteFile]
  refine Traced.all_bind.2 ⟨Traced.all_note.2 (.inl hc), Traced.all_bind.2 ⟨?_, Traced.all_bind.2 ⟨?_, ?_⟩⟩⟩
  · exact (eraseCluster_all _ hc).imp fun _ => .inl
  · rw [eraseCluster_out, load_out]
    exact (eraseChain_all (s := s.storeRow row zeroEntry r.parent) h hlt).imp fun _ => .inl
  · split
    · exact Traced.all_pure _
    · exact Traced.all_bind.2 ⟨Traced.all_note.2 (.inr rfl), Traced.all_pure _⟩

end Subscripts

/-! ## The next request -/

/-- `delete` of a file, which is the row with the name. -/
def DeletesFile (v : Volume) (live : Finset Nat) : Op → Prop
  | .delete r => ∃ i, v.Holds live r i ∧ ¬ (v.table r.parent i).Folder
  | .write _ => False
  | .read _ => False
  | .readDirectory _ => False

/-- Every subscript that the request uses, however long it runs, is in the table. -/
def InTable (s : State) (op : Op) : Prop := ∀ fuel, Lib.Traced.All (· < 512) (Subscripts.exec fuel s op)

section
variable {s : State} {live : Finset Nat} {r : Request} (h : Inv s.volume live) (hp : r.parent ∈ live) (hr : r.Named)
include h hp hr

/-- What holds of the subscripts of `delete` if it does in both branches. -/
theorem delete_branches {p : Nat → Prop} {fuel : Nat}
    (hfolder : ∀ row, s.volume.Holds live r row → (s.volume.table r.parent row).Folder → Lib.Traced.All p
      (Subscripts.deleteFolder (s.loadDirTable r.parent) r row (s.volume.table r.parent row).cluster))
    (hfile : ∀ row, s.volume.Holds live r row → ¬ (s.volume.table r.parent row).Folder → Lib.Traced.All p
      (Subscripts.deleteFile fuel (s.loadDirTable r.parent) r row (s.volume.table r.parent row).cluster)) :
    Lib.Traced.All p (Subscripts.exec fuel s (.delete r)) := by
  refine Lib.Traced.all_bind.2 ⟨?_, Lib.Traced.all_pure _⟩
  have htab : (s.loadDirTable r.parent).dirTableBuf = s.volume.table r.parent := rfl
  unfold Subscripts.delete
  dsimp only
  rw [htab]
  split
  · exact Lib.Traced.all_pure _
  · split
    · exact Lib.Traced.all_pure _
    · rename_i row hf
      have hi := h.holds_of_findRow hp hr hf
      split
      · rename_i hfo
        exact Lib.Traced.all_bind.2 ⟨hfolder row hi hfo, Lib.Traced.all_pure _⟩
      · rename_i hfo
        exact hfile row hi hfo

theorem delete_inTable (hno : ¬ DeletesFile s.volume live (.delete r)) : InTable s (.delete r) := by
  refine fun fuel => delete_branches h hp hr (fun row hi hfo => ?_) fun row hi hfo => ?_
  · exact Subscripts.deleteFolder_all _ r row (h.folder_chain hi.1 hfo).2.2
  · exact absurd ⟨row, hi, hfo⟩ hno

/-- No subscript of `delete` is out of range but the end mark. -/
theorem delete_subscripts (fuel : Nat) :
    Lib.Traced.All (fun x => x < 512 ∨ x = endMark) (Subscripts.exec fuel s (.delete r)) := by
  refine delete_branches h hp hr (fun row hi hfo => ?_) fun row hi hfo => ?_
  · exact (Subscripts.deleteFolder_all _ r row (h.folder_chain hi.1 hfo).2.2).imp fun _ => .inl
  · obtain ⟨l, hl, -, hR⟩ := h.chain hi.1
    exact Subscripts.deleteFile_all (s := s.loadDirTable r.parent) row hl (fun x hx => (hR x hx).2) fuel

theorem not_delete_inTable (hn : NamesUnique s.volume live) (hd : DeletesFile s.volume live (.delete r)) :
    ¬ InTable s (.delete r) := by
  intro hall
  obtain ⟨i, hi, hfo⟩ := hd
  obtain ⟨l, hl, -, hR⟩ := h.chain hi.1
  have hlt : ∀ x ∈ l, x < 512 := fun x hx => (hR x hx).2
  have hdir : isDirectory (s.volume.table r.parent) = true :=
    isDirectory_iff.2 ⟨(h.self _ hp).1, (h.self _ hp).2.1⟩
  have hall := (Lib.Traced.all_bind.1 (hall 512)).1
  have htab : (s.loadDirTable r.parent).dirTableBuf = s.volume.table r.parent := rfl
  cases hf : findRow (s.volume.table r.parent) r with
  | none => exact findRow_eq_none hf hi.1.2.1 hi.2
  | some row =>
    obtain rfl := hn.holds_unique (h.holds_of_findRow hp hr hf) hi
    have hattr : ¬ (s.volume.table r.parent i).attr = attrSubdirectory := hfo
    unfold Subscripts.delete at hall
    dsimp only at hall
    rw [htab, hdir, hf] at hall
    simp only [Bool.not_true, Bool.false_eq_true, if_false, hattr] at hall
    exact Subscripts.deleteFile_not_all (s := s.loadDirTable r.parent) i hl hlt (chain_length_le hl hlt) hall

end

/-- Any request but the `delete` of a file stays in the table. -/
theorem inTable_of_not_deletesFile {s : State} {live : Finset Nat} {op : Op} (h : Inv s.volume live)
    (ho : Ordinary s.volume live op) (hno : ¬ DeletesFile s.volume live op) : InTable s op := by
  cases op with
  | write r => exact fun fuel => Lib.Traced.all_bind.2 ⟨Subscripts.write_all ho.2.2.2, Lib.Traced.all_pure _⟩
  | delete r => exact delete_inTable h ho.1 ho.2 hno
  | read r => exact fun fuel => Subscripts.read_all fuel h.synced fun row hf hfo => h.read_chain ho.1 ho.2 hf hfo
  | readDirectory r => exact fun fuel => Lib.Traced.all_pure _

/-- **The end mark is the only subscript out of range**, whatever the request. -/
theorem subscripts_inTable_or_mark {s : State} {live : Finset Nat} {op : Op} (h : Run Ordinary s live)
    (ho : Ordinary s.volume live op) (fuel : Nat) :
    Lib.Traced.All (fun x => x < 512 ∨ x = endMark) (Subscripts.exec fuel s op) := by
  by_cases hd : DeletesFile s.volume live op
  · cases op with
    | delete r => exact delete_subscripts h.inv ho.1 ho.2 fuel
    | write r => exact hd.elim
    | read r => exact hd.elim
    | readDirectory r => exact hd.elim
  · exact (inTable_of_not_deletesFile h.inv ho hd fuel).imp fun _ => .inl

/-- **When every subscript is in range.** After any ordinary requests, all subscripts that the next one uses in
`cluster_map` are smaller than 512 if and only if it does not delete a file: the store after the loop of `delete` is
at the end mark (`fat32.c:496`), and it is the only one out of range. -/
theorem subscripts_inTable_iff {s : State} {live : Finset Nat} {op : Op} (h : Run Ordinary s live)
    (ho : Ordinary s.volume live op) : InTable s op ↔ ¬ DeletesFile s.volume live op := by
  refine ⟨fun hall hd => ?_, inTable_of_not_deletesFile h.inv ho⟩
  cases op with
  | delete r => exact not_delete_inTable h.inv ho.1 ho.2 h.namesUnique hd hall
  | write r => exact hd
  | read r => exact hd
  | readDirectory r => exact hd

/-- Beside a file, a new folder. -/
theorem subscripts_inTable_folder : InTable withFile (.write folderRequest) :=
  (subscripts_inTable_iff withFile_run folderRequest_ordinary_withFile).2 not_false

/-- The file of five bytes goes. -/
theorem not_inTable_file : ¬ ∀ s live op, Run Ordinary s live → Ordinary s.volume live op → InTable s op := by
  intro hall
  have hp : (fileRequest 5).parent ∈ ({rootClusterNumber} : Finset Nat) := by decide
  have hr : (fileRequest 5).Named := by decide
  refine not_delete_inTable withFile_run.inv hp hr withFile_run.namesUnique
    ⟨2, ⟨⟨hp, by decide, ?_⟩, ?_⟩, ?_⟩ (hall _ _ _ withFile_run ⟨hp, hr⟩)
  · exact withFile_row ▸ newFile_used _ _
  · exact withFile_row ▸ ⟨rfl, rfl⟩
  · exact withFile_row ▸ newFile_not_folder _ _

end MoggersOs
