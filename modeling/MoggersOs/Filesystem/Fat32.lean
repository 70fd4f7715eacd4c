import MoggersOs.Filesystem.Types
/-
# The FAT32 driver (`filesystem/fat32.c`)

| here | there |
| --- | --- |
| `State`                                | `driver_state` (`fat32.h:118-122`), the disk, the `write_clusters` calls made so far, and the kernel memory around `driver_state` |
| `State.clusterMap`, `State.setClusterMap` | a load and a store `driver_state.fat_table.cluster_map[n]`, in range or not |
| `initDirectoryTable`                   | `init_directory_table` (`fat32.c:29-72`) |
| `isEmptyStorage`, `createFat32`, `initializeFilesystemFat32` | `fat32.c:74-114` |
| `readDirectory`, `read`                | `read_directory`, `read` (`fat32.c:131-211`) |
| `write`, `writeFolder`, `writeFile`    | `write` (`fat32.c:213-369`), its checks and its two branches |
| `fillCluster`, `fillClusters`          | the loop `for(i=start_cluster+1; ...)` (`fat32.c:320-340`), its body and the scan |
| `delete`, `deleteFolder`, `deleteFile` | `delete` (`fat32.c:371-502`), its search and its two branches |
| `eraseChain`                           | the `while` loop of `delete` (`fat32.c:488-494`) |

The scans of the table run to `CLUSTER_SIZE = 2048`, the table has `CLUSTER_MAP_SIZE = 512` entries, and
a subscript taken out of the table can be any 32-bit value. `driver_state` is packed, so what such a
subscript reaches is known: words 512 to 1023 are `dir_table_buf`, words 1024 to 1535 are `cluster_buf`,
every other word (counted modulo `2 ^ 30`, as addresses wrap) is memory outside `driver_state`, kept in
`outside`.

The two loops that follow the table until they meet `FAT32_FAT_END_OF_FILE` need not end; they take
fuel, and `none` means that the fuel ran out. Return codes are integers, cluster numbers natural numbers.
-/

namespace MoggersOs

structure State where
  disk        : Disk
  /-- The `write_clusters` calls so far, oldest first: cluster and contents. -/
  writes      : List (Nat × Cluster)
  fatTable    : Fat
  dirTableBuf : Table
  clusterBuf  : Cluster
  /-- The words of memory outside `driver_state`, by their subscript in `cluster_map`. -/
  outside     : Nat → UInt32

namespace State

/-- `driver_state.fat_table.cluster_map[n]`. -/
def clusterMap (s : State) (n : Nat) : UInt32 :=
  let n := n % 2 ^ 30
  if n < 512 then s.fatTable.get n
  else if n < 1024 then (decodeFat (encodeTable s.dirTableBuf)).get (n - 512)
  else if n < 1536 then (decodeFat s.clusterBuf).get (n - 1024)
  else s.outside n

/-- `driver_state.fat_table.cluster_map[n] = v`. -/
def setClusterMap (s : State) (n : Nat) (v : UInt32) : State :=
  let n := n % 2 ^ 30
  if n < 512 then { s with fatTable := s.fatTable.set n v }
  else if n < 1024 then
    { s with dirTableBuf := decodeTable (encodeFat ((decodeFat (encodeTable s.dirTableBuf)).set (n - 512) v)) }
  else if n < 1536 then
    { s with clusterBuf := encodeFat ((decodeFat s.clusterBuf).set (n - 1024) v) }
  else { s with outside := Function.update s.outside n v }

/-- `write_clusters(ptr, cluster, 1)`. -/
def writeClusters (s : State) (ptr : Cluster) (cluster : Nat) : State :=
  { s with disk := MoggersOs.writeClusters s.disk ptr cluster, writes := s.writes ++ [(cluster, ptr)] }

/-- `read_clusters(driver_state.dir_table_buf.table, cluster, 1)`. -/
def loadDirTable (s : State) (cluster : Nat) : State :=
  { s with dirTableBuf := decodeTable (readClusters s.disk cluster) }

/-- `read_clusters(driver_state.fat_table.cluster_map, FAT_CLUSTER_NUMBER, 1)`. -/
def loadFat (s : State) : State :=
  { s with fatTable := decodeFat (readClusters s.disk fatClusterNumber) }

/-- `write_clusters(driver_state.fat_table.cluster_map, FAT_CLUSTER_NUMBER, 1)`. -/
def flushFat (s : State) : State := s.writeClusters (encodeFat s.fatTable) fatClusterNumber

/-- `driver_state.dir_table_buf.table[row] = e`, then the table goes back to its cluster. -/
def storeRow (s : State) (row : Fin 64) (e : DirEntry) (cluster : Nat) : State :=
  let s := { s with dirTableBuf := Function.update s.dirTableBuf row e }
  s.writeClusters (encodeTable s.dirTableBuf) cluster

end State

/-! ## Formatting and mounting -/

/-- The entry both rows of `init_directory_table` start from. -/
def directoryEntry (name : Fin 8 → UInt8) (cluster : Nat) : DirEntry :=
  { zeroEntry with name := name, attr := attrSubdirectory, userAttribute := uattrNotEmpty }.setCluster cluster

/-- `{'.', '.', '\0', ...}`. -/
def dotDot : Fin 8 → UInt8 := fun i => if i.val < 2 then '.'.toUInt8 else 0

/-- Both rows get the parent's cluster (`fat32.c:43-44`, `64-65`). -/
def initDirectoryTable (t : Table) (name : Fin 8 → UInt8) (parentDirCluster : Nat) : Table :=
  Function.update (Function.update t 0 (directoryEntry name parentDirCluster)) 1
    (directoryEntry dotDot parentDirCluster)

def isEmptyStorage (s : State) : Bool :=
  memcmp (firstBlock (readClusters s.disk 0)) fsSignature != 0

/-- The table `create_fat32` writes (`fat32.c:86-93`). -/
def formattedFat : Fat := fun i =>
  if i.val = 0 then cluster0Value else if i.val = 1 then cluster1Value
  else if i.val = 2 then fatEndOfFile else 0

/-- The root directory `create_fat32` writes (`fat32.c:97-101`). -/
def formattedRoot : Table :=
  initDirectoryTable (fun _ => zeroEntry)
    (fun i => ['r'.toUInt8, 'o'.toUInt8, 'o'.toUInt8, 't'.toUInt8].getD i 0) rootClusterNumber

def createFat32 (s : State) : State :=
  let s := { s with disk := writeBlocks (n := 1) s.disk fsSignature 0 }
  let s := s.writeClusters (encodeFat formattedFat) fatClusterNumber
  let s := s.writeClusters (encodeTable formattedRoot) rootClusterNumber
  { s with fatTable := formattedFat, dirTableBuf := formattedRoot }

def initializeFilesystemFat32 (s : State) : State :=
  if isEmptyStorage s then createFat32 s else s.loadFat

/-! ## Searches in a directory table -/

/-- Row 0 says that the cluster is a directory (`fat32.c:219-220`, `375-376`). -/
def isDirectory (t : Table) : Bool :=
  (t 0).userAttribute == uattrNotEmpty && (t 0).attr == attrSubdirectory

/-- The two `memcmp` tests of `read`, `write` and `delete`. -/
def sameName (e : DirEntry) (r : Request) : Bool := memcmp e.name r.name == 0 && memcmp e.ext r.ext == 0

/-- First unused row, from row 2 (`fat32.c:231-237`). -/
def findFreeRow (t : Table) : Option (Fin 64) :=
  Fin.find? fun i => decide (2 ≤ i.val) && (t i).userAttribute != uattrNotEmpty

/-- First row with the name, from row 2, used or not (`fat32.c:243-249`, `387-406`). -/
def findRow (t : Table) (r : Request) : Option (Fin 64) :=
  Fin.find? fun i => decide (2 ≤ i.val) && sameName (t i) r

/-! ## `read_directory` and `read` -/

/-- The memory at `request.buf` after `read_clusters(request.buf + offset, .., 1)`. -/
def blit (buf : Nat → UInt8) (offset : Nat) (c : Cluster) : Nat → UInt8 := fun a =>
  if h : offset ≤ a ∧ a - offset < 2048 then c ⟨a - offset, h.2⟩ else buf a

/-- What a call leaves behind besides the driver's state: the code and the memory at `buf`. -/
structure Reply where
  code : Int
  buf  : Nat → UInt8

def readDirectory (s : State) (r : Request) : Reply × State :=
  let s := s.loadDirTable r.parent
  if (s.dirTableBuf 0).userAttribute != uattrNotEmpty then (⟨-1, r.buf⟩, s)
  else match Fin.find? fun i => memcmp (s.dirTableBuf i).name r.name == 0 with
    | none => (⟨2, r.buf⟩, s)
    | some i =>
      if (s.dirTableBuf i).attr != attrSubdirectory then (⟨1, r.buf⟩, s)
      else (⟨0, blit r.buf 0 (readClusters s.disk (s.dirTableBuf i).cluster)⟩, s)

/-- The `do .. while` loop of `read` (`fat32.c:198-202`); `counter` is a `uint16_t`. -/
def readChain (s : State) : Nat → (Nat → UInt8) → Nat → Nat → Option (Nat → UInt8)
  | 0, _, _, _ => none
  | fuel + 1, buf, counter, clusterNum =>
    let buf := blit buf (2048 * counter) (readClusters s.disk clusterNum)
    let next := s.clusterMap clusterNum
    if next = fatEndOfFile then some buf
    else readChain s fuel buf ((counter + 1) % 2 ^ 16) next.toNat

def read (fuel : Nat) (s : State) (r : Request) : Option (Reply × State) :=
  let s := s.loadDirTable r.parent
  if (s.dirTableBuf 0).userAttribute != uattrNotEmpty then some (⟨-1, r.buf⟩, s)
  else
    let s := s.loadFat
    match Fin.find? fun i => sameName (s.dirTableBuf i) r with
    | none => some (⟨2, r.buf⟩, s)
    | some i =>
      let e := s.dirTableBuf i
      if e.attr = attrSubdirectory then some (⟨1, r.buf⟩, s)
      else if r.bufferSize < e.filesize then some (⟨-1, r.buf⟩, s)
      else (readChain s fuel r.buf 0 e.cluster).map fun buf => (⟨0, buf⟩, s)

/-! ## `write` -/

/-- The scan for an unused cluster, up to `CLUSTER_SIZE` (`fat32.c:258-263`, `297-304`). -/
def findEmptyCluster (s : State) : Option Nat :=
  (List.range 2048).find? fun i => s.clusterMap i == fatEmptyEntry

/-- The table of a new folder: row 0 then gets the folder's own cluster (`fat32.c:273-277`). -/
def newDirectory (name : Fin 8 → UInt8) (parent cluster : Nat) : Table :=
  let t := initDirectoryTable (fun _ => zeroEntry) name parent
  Function.update t 0 ((t 0).setCluster cluster)

/-- `fat32.c:255-288`. -/
def writeFolder (s : State) (r : Request) (entryRow : Fin 64) : Int × State :=
  let clusterNumber := (findEmptyCluster s).getD 0
  if clusterNumber = 0 then (-1, s)
  else
    let s := s.setClusterMap clusterNumber fatEndOfFile
    let s := s.flushFat
    let newDir := newDirectory r.name r.parent clusterNumber
    let s := s.storeRow entryRow (newDir 0) r.parent
    let s := s.writeClusters (encodeTable newDir) clusterNumber
    (0, s)

/-- `size` bytes of part `filePart` of the buffer in a cluster of zeros (`fat32.c:326-330`). -/
def filePartCluster (buf : Nat → UInt8) (filePart size : Nat) : Cluster := fun i =>
  if i.val < size then buf (2048 * filePart + i) else 0

/-- The variables of the second allocation loop. -/
structure Fill where
  state         : State
  tempCluster   : Nat
  clusterNeeded : Nat
  filePart      : Nat

/-- The body of the loop on an unused cluster `i` (`fat32.c:322-338`). -/
def fillCluster (r : Request) (i : Nat) (f : Fill) : Fill :=
  let size := if f.clusterNeeded = 1 then r.bufferSize.toNat % 2048 else 2048
  let s := f.state.setClusterMap f.tempCluster (UInt32.ofNat i)
  let s := s.writeClusters (filePartCluster r.buf f.filePart size) i
  let s := s.setClusterMap i fatEndOfFile
  ⟨s, i, f.clusterNeeded - 1, f.filePart + 1⟩

/-- The scan over the subscripts that are left, until enough clusters are found. -/
def fillClusters (r : Request) : List Nat → Fill → Fill
  | [], f => f
  | i :: is, f =>
    if 0 < f.clusterNeeded then
      if f.state.clusterMap i = fatEmptyEntry then fillClusters r is (fillCluster r i f)
      else fillClusters r is f
    else f

/-- The row of a new file (`fat32.c:346-363`). -/
def newFile (r : Request) (startCluster : Nat) : DirEntry :=
  { zeroEntry with
    name := r.name, ext := r.ext, userAttribute := uattrNotEmpty, filesize := r.bufferSize }.setCluster
    startCluster

/-- `request.buffer_size / CLUSTER_SIZE`, plus one for a remainder (`fat32.c:291-293`). -/
def clustersOf (size : Nat) : Nat := size / 2048 + if size % 2048 ≠ 0 then 1 else 0

/-- `fat32.c:290-369`. The first cluster is written from the buffer itself, whatever its size. -/
def writeFile (s : State) (r : Request) (entryRow : Fin 64) : Int × State :=
  let clusterNeeded := clustersOf r.bufferSize.toNat
  let found := findEmptyCluster s
  let startCluster := found.getD 0
  let clusterNeeded := if found.isSome then clusterNeeded - 1 else clusterNeeded
  let s := s.writeClusters (filePartCluster r.buf 0 2048) startCluster
  let s := s.setClusterMap startCluster fatEndOfFile
  let f := fillClusters r (List.range' (startCluster + 1) (2048 - (startCluster + 1)))
    ⟨s, startCluster, clusterNeeded, 1⟩
  let s := f.state.flushFat
  let s := s.storeRow entryRow (newFile r startCluster) r.parent
  if 0 < f.clusterNeeded then (-1, s) else (0, s)

def write (s : State) (r : Request) : Int × State :=
  let s := s.loadDirTable r.parent
  if !isDirectory s.dirTableBuf then (2, s)
  else match findFreeRow s.dirTableBuf with
    | none => (-1, s)
    | some entryRow =>
      if (findRow s.dirTableBuf r).isSome then (1, s)
      else if r.bufferSize = 0 then writeFolder s r entryRow
      else writeFile s r entryRow

/-! ## `delete` -/

/-- Name, attribute and user attribute of a removed folder's rows go, the rest stays
(`fat32.c:436-456`). -/
def clearEntry (e : DirEntry) : DirEntry :=
  { e with name := fun _ => 0, attr := 0, userAttribute := 0 }

/-- A folder that still holds an entry (`fat32.c:421-429`). -/
def occupied (t : Table) : Bool :=
  (Fin.find? fun i : Fin 64 => decide (2 ≤ i.val) && (t i).userAttribute == uattrNotEmpty).isSome

/-- `fat32.c:411-461`. -/
def deleteFolder (s : State) (r : Request) (entryRow : Fin 64) (clusterNumber : Nat) : Int × State :=
  let targetDir := decodeTable (readClusters s.disk clusterNumber)
  if occupied targetDir then (2, s)
  else
    let s := s.storeRow entryRow (clearEntry (s.dirTableBuf entryRow)) r.parent
    let targetDir := Function.update (Function.update targetDir 0 (clearEntry (targetDir 0))) 1
      (clearEntry (targetDir 1))
    let s := s.writeClusters (encodeTable targetDir) clusterNumber
    let s := s.setClusterMap clusterNumber fatEmptyEntry
    (0, s.flushFat)

def zeroCluster : Cluster := fun _ => 0

/-- One cluster of a deleted file: its table entry and its contents (`fat32.c:482-486`, `490-493`). -/
def eraseCluster (s : State) (c : Nat) : State :=
  (s.setClusterMap c fatEmptyEntry).writeClusters zeroCluster c

/-- The `while` loop: the next cluster is fetched before the current one is erased. Returns the
last cluster erased too. -/
def eraseChain : Nat → State → Nat → UInt32 → Option (State × Nat)
  | 0, _, _, _ => none
  | fuel + 1, s, clusterNumber, nextCluster =>
    if nextCluster = fatEndOfFile then some (s, clusterNumber)
    else
      eraseChain fuel (eraseCluster s nextCluster.toNat) nextCluster.toNat
        (s.clusterMap nextCluster.toNat)

/-- `fat32.c:478-502`. After the loop `next_cluster` is `FAT32_FAT_END_OF_FILE`, and so is the
subscript of the store that follows it. -/
def deleteFile (fuel : Nat) (s : State) (r : Request) (entryRow : Fin 64) (clusterNumber : Nat) :
    Option (Int × State) :=
  let s := s.storeRow entryRow zeroEntry r.parent
  let nextCluster := s.clusterMap clusterNumber
  let s := eraseCluster s clusterNumber
  match eraseChain fuel s clusterNumber nextCluster with
  | none => none
  | some (s, clusterNumber) =>
    let s := s.setClusterMap fatEndOfFile.toNat fatEmptyEntry
    let s := s.flushFat
    some (0, s.writeClusters zeroCluster clusterNumber)

def delete (fuel : Nat) (s : State) (r : Request) : Option (Int × State) :=
  let s := s.loadDirTable r.parent
  if !isDirectory s.dirTableBuf then some (-1, s)
  else match findRow s.dirTableBuf r with
    | none => some (1, s)
    | some entryRow =>
      let e := s.dirTableBuf entryRow
      if e.attr = attrSubdirectory then some (deleteFolder s r entryRow e.cluster)
      else deleteFile fuel s r entryRow e.cluster

end MoggersOs
