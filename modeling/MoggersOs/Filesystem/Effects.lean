import MoggersOs.Lib.Chain
import MoggersOs.Filesystem.Fat32
/-
# What the four operations do to a volume

`Volume` is the part of the driver that outlives a call: the disk and the file allocation table. On a
volume that is in order the operations need nothing else (`Refine.lean`), and what they do can be said
without loops: `mkdir`, `mkfile`, `rmdir` and `unlink` list the clusters written, in the order of the
source, and give the new table.

| here | there |
| --- | --- |
| `mkdir`, `mkfile` | the two branches of `write` once the clusters are chosen (`fat32.c:268-286`, `313-363`) |
| `rmdir`, `unlink` | the two branches of `delete` once the row is found (`fat32.c:434-458`, `478-499`) |
| `Volume.chain`    | the clusters `read` and `delete` meet from a row's first cluster on |
| `linkFrom`        | the table after the second allocation loop has used the given clusters |
| `partsFrom`       | the clusters that loop writes |
-/

namespace MoggersOs

structure Volume where
  disk : Disk
  fat  : Fat

def State.volume (s : State) : Volume := ⟨s.disk, s.fatTable⟩

@[simp] theorem State.volume_disk (s : State) : s.volume.disk = s.disk := rfl
@[simp] theorem State.volume_fat (s : State) : s.volume.fat = s.fatTable := rfl
@[simp] theorem State.volume_loadDirTable (s : State) (c : Nat) : (s.loadDirTable c).volume = s.volume := rfl

/-- A code, the clusters written and the new table. -/
structure Effect where
  code   : Int
  writes : List (Nat × Cluster)
  fat    : Fat

/-- The disk after the given `write_clusters` calls. -/
def writeAll (d : Disk) : List (Nat × Cluster) → Disk
  | [] => d
  | w :: ws => writeAll (writeClusters d w.2 w.1) ws

theorem writeAll_append (d : Disk) : ∀ ws ws' : List (Nat × Cluster),
    writeAll d (ws ++ ws') = writeAll (writeAll d ws) ws'
  | [], _ => rfl
  | w :: ws, ws' => writeAll_append (writeClusters d w.2 w.1) ws ws'

/-- A cluster that is not written keeps its contents; 26 bits of its number reach the controller. -/
theorem readClusters_writeAll_of_mod_ne {c : Nat} : ∀ (d : Disk) (ws : List (Nat × Cluster)),
    (∀ w ∈ ws, w.1 % 2 ^ 26 ≠ c % 2 ^ 26) → readClusters (writeAll d ws) c = readClusters d c
  | _, [], _ => rfl
  | d, w :: ws, h => by
    rw [writeAll, readClusters_writeAll_of_mod_ne _ ws fun w' hw' => h w' (List.mem_cons_of_mem _ hw'),
      readClusters_writeClusters_of_mod_ne d w.2 (h w (by simp))]

theorem readClusters_writeAll {c : Nat} (hc : c < 2 ^ 26) (d : Disk) (ws : List (Nat × Cluster))
    (h : ∀ w ∈ ws, w.1 < 2 ^ 26 ∧ c ≠ w.1) : readClusters (writeAll d ws) c = readClusters d c := by
  refine readClusters_writeAll_of_mod_ne d ws fun w hw => ?_
  obtain ⟨hlt, hne⟩ := h w hw
  rw [Nat.mod_eq_of_lt hlt, Nat.mod_eq_of_lt hc]
  exact hne.symm

namespace Volume

def table (v : Volume) (c : Nat) : Table := decodeTable (readClusters v.disk c)

/-- The cluster after `c` in its chain. -/
def next (v : Volume) (c : Nat) : Nat := (v.fat.get c).toNat

def apply (v : Volume) (fx : Effect) : Volume := ⟨writeAll v.disk fx.writes, fx.fat⟩

/-- A call that only returns a code. -/
def refuse (v : Volume) (code : Int) : Effect := ⟨code, [], v.fat⟩

@[simp] theorem apply_refuse (v : Volume) (code : Int) : v.apply (v.refuse code) = v := rfl

def chainFrom (v : Volume) : Nat → Nat → List Nat
  | 0, _ => []
  | fuel + 1, c => if v.fat.get c = fatEndOfFile then [c] else c :: v.chainFrom fuel (v.next c)

/-- The chain from `c`; on a volume in order no chain is longer than the table. -/
def chain (v : Volume) (c : Nat) : List Nat := v.chainFrom 512 c

/-! ## `write` -/

/-- The table after the loop that starts with `temp` as the last cluster and uses `l`. -/
def linkFrom : Fat → Nat → List Nat → Fat
  | f, _, [] => f
  | f, temp, c :: l => linkFrom ((f.set temp (UInt32.ofNat c)).set c fatEndOfFile) c l

/-- The clusters that loop writes, with `needed` clusters to go and from part `part` on. -/
def partsFrom (r : Request) : Nat → Nat → List Nat → List (Nat × Cluster)
  | _, _, [] => []
  | needed, part, c :: l =>
    (c, filePartCluster r.buf part (if needed = 1 then r.bufferSize.toNat % 2048 else 2048)) ::
      partsFrom r (needed - 1) (part + 1) l

/-- A new folder at cluster `c`, in row `row` of the parent. -/
def mkdir (v : Volume) (r : Request) (row : Fin 64) (c : Nat) : Effect :=
  let fat := v.fat.set c fatEndOfFile
  let newDir := newDirectory r.name r.parent c
  { code := 0
    writes := [(fatClusterNumber, encodeFat fat),
      (r.parent, encodeTable (Function.update (v.table r.parent) row (newDir 0))),
      (c, encodeTable newDir)]
    fat := fat }

/-- A new file in the clusters `c :: l`, in row `row` of the parent. -/
def mkfile (v : Volume) (r : Request) (row : Fin 64) (c : Nat) (l : List Nat) : Effect :=
  let fat := linkFrom (v.fat.set c fatEndOfFile) c l
  { code := 0
    writes := (c, filePartCluster r.buf 0 2048) ::
      partsFrom r (clustersOf r.bufferSize.toNat - 1) 1 l ++
      [(fatClusterNumber, encodeFat fat),
        (r.parent, encodeTable (Function.update (v.table r.parent) row (newFile r c)))]
    fat := fat }

/-- Clusters a request needs: one for a folder. -/
def needed (r : Request) : Nat := if r.bufferSize = 0 then 1 else clustersOf r.bufferSize.toNat

/-- The request needs no more clusters than the table has unused entries. -/
def Fits (v : Volume) (r : Request) : Prop := needed r ≤ v.fat.freeClusters.length

instance (v : Volume) (r : Request) : Decidable (v.Fits r) := inferInstanceAs (Decidable (_ ≤ _))

/-- One of the checks of `write` stops the request: no directory, no unused row, the name is taken. -/
def Refused (v : Volume) (r : Request) : Prop :=
  isDirectory (v.table r.parent) = false ∨ findFreeRow (v.table r.parent) = none ∨
    (findRow (v.table r.parent) r).isSome = true

/-- First-fit: a folder takes the first unused cluster, a file the first ones it needs. -/
def write (v : Volume) (r : Request) : Effect :=
  let t := v.table r.parent
  if !isDirectory t then v.refuse 2
  else match findFreeRow t with
    | none => v.refuse (-1)
    | some row =>
      if (findRow t r).isSome then v.refuse 1
      else if r.bufferSize = 0 then
        match v.fat.freeClusters with
        | [] => v.refuse (-1)
        | c :: _ => if c = 0 then v.refuse (-1) else v.mkdir r row c
      else match v.fat.freeClusters.take (clustersOf r.bufferSize.toNat) with
        | [] => v.refuse (-1)
        | c :: l => v.mkfile r row c l

/-! ## `delete` -/

/-- Remove the folder at cluster `c` from row `row` of the parent. -/
def rmdir (v : Volume) (r : Request) (row : Fin 64) (c : Nat) : Effect :=
  let parentDir := v.table r.parent
  let targetDir := v.table c
  let fat := v.fat.set c fatEmptyEntry
  { code := 0
    writes := [(r.parent, encodeTable (Function.update parentDir row (clearEntry (parentDir row)))),
      (c, encodeTable (Function.update (Function.update targetDir 0 (clearEntry (targetDir 0))) 1
        (clearEntry (targetDir 1)))),
      (fatClusterNumber, encodeFat fat)]
    fat := fat }

/-- The table with the entries of a chain emptied. -/
def eraseFat (f : Fat) (l : List Nat) : Fat := l.foldl (fun f c => f.set c fatEmptyEntry) f

/-- Remove the file with chain `l` from row `row` of the parent. -/
def unlink (v : Volume) (r : Request) (row : Fin 64) (l : List Nat) : Effect :=
  let fat := eraseFat v.fat l
  { code := 0
    writes := (r.parent, encodeTable (Function.update (v.table r.parent) row zeroEntry)) ::
      l.map (fun c => (c, zeroCluster)) ++
      [(fatClusterNumber, encodeFat fat), (l.getLastD 0, zeroCluster)]
    fat := fat }

def delete (v : Volume) (r : Request) : Effect :=
  let t := v.table r.parent
  if !isDirectory t then v.refuse (-1)
  else match findRow t r with
    | none => v.refuse 1
    | some row =>
      let e := t row
      if e.attr = attrSubdirectory then
        if occupied (v.table e.cluster) then v.refuse 2 else v.rmdir r row e.cluster
      else v.unlink r row (v.chain e.cluster)

/-! ## `read_directory` and `read` -/

/-- The memory at `buf` after the clusters `l` were delivered, from part `k` on. -/
def deliver (d : Disk) : (Nat → UInt8) → Nat → List Nat → (Nat → UInt8)
  | buf, _, [] => buf
  | buf, k, c :: l => deliver d (blit buf (2048 * k) (readClusters d c)) (k + 1) l

def readDirectory (v : Volume) (r : Request) : Reply :=
  let t := v.table r.parent
  if (t 0).userAttribute != uattrNotEmpty then ⟨-1, r.buf⟩
  else match Fin.find? fun i => memcmp (t i).name r.name == 0 with
    | none => ⟨2, r.buf⟩
    | some i =>
      if (t i).attr != attrSubdirectory then ⟨1, r.buf⟩
      else ⟨0, blit r.buf 0 (readClusters v.disk (t i).cluster)⟩

/-- The first row with the name, from row 0 (`fat32.c:177-179`). -/
def findAnyRow (t : Table) (r : Request) : Option (Fin 64) := Fin.find? fun i => sameName (t i) r

def read (v : Volume) (r : Request) : Reply :=
  let t := v.table r.parent
  if (t 0).userAttribute != uattrNotEmpty then ⟨-1, r.buf⟩
  else match findAnyRow t r with
    | none => ⟨2, r.buf⟩
    | some i =>
      if (t i).attr = attrSubdirectory then ⟨1, r.buf⟩
      else if r.bufferSize < (t i).filesize then ⟨-1, r.buf⟩
      else ⟨0, deliver v.disk r.buf 0 (v.chain (t i).cluster)⟩

end Volume

end MoggersOs
