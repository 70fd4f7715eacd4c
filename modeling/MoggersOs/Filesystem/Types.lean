import Mathlib.Data.Fintype.Pi
import MoggersOs.Lib.FirstFit
import MoggersOs.Filesystem.Disk
/-
# On-disk structures of the FAT32 volume (`filesystem/fat32.h`)

| here | there |
| --- | --- |
| `DirEntry`, `Table`        | `struct FAT32DirectoryEntry` (32 packed bytes) and `struct FAT32DirectoryTable` (`fat32.h:82-103`) |
| `Fat`                      | `struct FAT32FileAllocationTable` (`fat32.h:58-60`), 512 little-endian words |
| `encodeTable`, `encodeFat` | the bytes `write_clusters` sends when it is handed one of these structures |
| `decodeTable`, `decodeFat` | what `read_clusters` into one of them leaves there |
| `Request`                  | `struct FAT32DriverRequest` (`fat32.h:133-139`); `buf` is the memory from the pointer on |

`attr` is the field `attribute`, a keyword here. `undelete` is a `bool` that nothing ever sets; its byte is kept as it is. Names are bytes, as `memcmp`
compares them.
-/

namespace MoggersOs

/-! ## Constants (`fat32.h:15-36`) -/

def cluster0Value : UInt32 := 0x0FFFFFF0
def cluster1Value : UInt32 := 0x0FFFFFFF
def fatEndOfFile : UInt32 := 0x0FFFFFFF
def fatEmptyEntry : UInt32 := 0x00000000
def fatClusterNumber : Nat := 1
def rootClusterNumber : Nat := 2
def attrSubdirectory : UInt8 := 0b00010000
def uattrNotEmpty : UInt8 := 0b10101010

/-- `fs_signature` (`fat32.c:9-17`). -/
def fsSignature : Fin 512 → UInt8 := fun i =>
  if i.val = 510 then 'O'.toUInt8 else if i.val = 511 then 'k'.toUInt8 else
  [ 'C', 'o', 'u', 'r', 's', 'e', ' ', ' ', ' ', ' ', ' ', ' ', ' ', ' ', ' ', ' ',
    'D', 'e', 's', 'i', 'g', 'n', 'e', 'd', ' ', 'b', 'y', ' ', ' ', ' ', ' ', ' ',
    'L', 'a', 'b', ' ', 'S', 'i', 's', 't', 'e', 'r', ' ', 'I', 'T', 'B', ' ', ' ',
    'M', 'a', 'd', 'e', ' ', 'w', 'i', 't', 'h', ' ', '<', '3', ' ', ' ', ' ', ' ',
    '-', '-', '-', '-', '-', '-', '-', '-', '-', '-', '-', '2', '0', '2', '3', '\n' ].map
    Char.toUInt8 |>.getD i 0

/-! ## Directory entries -/

structure DirEntry where
  name          : Fin 8 → UInt8
  ext           : Fin 3 → UInt8
  attr          : UInt8
  userAttribute : UInt8
  undelete      : UInt8
  createTime    : UInt16
  createDate    : UInt16
  accessDate    : UInt16
  clusterHigh   : UInt16
  modifiedTime  : UInt16
  modifiedDate  : UInt16
  clusterLow    : UInt16
  filesize      : UInt32
deriving DecidableEq

abbrev Table := Fin 64 → DirEntry

/-- Rows are written as numerals. -/
instance rows_neZero : @NeZero Nat Zero.ofOfNat0 64 := ⟨by decide⟩

/-- `memset(.., 0x00, sizeof(struct FAT32DirectoryEntry))`. -/
def zeroEntry : DirEntry :=
  ⟨fun _ => 0, fun _ => 0, 0, 0, 0, 0, 0, 0, 0, 0, 0, 0, 0⟩

namespace DirEntry

/-- `(cluster_high << 16) + cluster_low`. -/
def cluster (e : DirEntry) : Nat := e.clusterHigh.toNat * 2 ^ 16 + e.clusterLow.toNat

/-- `.cluster_high = c >> 16, .cluster_low = c`. -/
def setCluster (e : DirEntry) (c : Nat) : DirEntry :=
  { e with clusterHigh := UInt16.ofNat (c / 2 ^ 16), clusterLow := UInt16.ofNat c }

@[simp] theorem setCluster_cluster (e : DirEntry) {c : Nat} (hc : c < 2 ^ 32) :
    (e.setCluster c).cluster = c := by
  simp only [cluster, setCluster, UInt16.toNat_ofNat']
  omega

@[simp] theorem setCluster_name (e : DirEntry) (c : Nat) : (e.setCluster c).name = e.name := rfl
@[simp] theorem setCluster_ext (e : DirEntry) (c : Nat) : (e.setCluster c).ext = e.ext := rfl
@[simp] theorem setCluster_attr (e : DirEntry) (c : Nat) :
    (e.setCluster c).attr = e.attr := rfl
@[simp] theorem setCluster_userAttribute (e : DirEntry) (c : Nat) :
    (e.setCluster c).userAttribute = e.userAttribute := rfl

/-- The 32 packed bytes. -/
def encode (e : DirEntry) (i : Fin 32) : UInt8 :=
  if h : i.val < 8 then e.name ⟨i, h⟩
  else if h : i.val < 11 then e.ext ⟨i.val - 8, by omega⟩
  else [e.attr, e.userAttribute, e.undelete,
    Lib.leByte e.createTime.toNat 0, Lib.leByte e.createTime.toNat 1,
    Lib.leByte e.createDate.toNat 0, Lib.leByte e.createDate.toNat 1,
    Lib.leByte e.accessDate.toNat 0, Lib.leByte e.accessDate.toNat 1,
    Lib.leByte e.clusterHigh.toNat 0, Lib.leByte e.clusterHigh.toNat 1,
    Lib.leByte e.modifiedTime.toNat 0, Lib.leByte e.modifiedTime.toNat 1,
    Lib.leByte e.modifiedDate.toNat 0, Lib.leByte e.modifiedDate.toNat 1,
    Lib.leByte e.clusterLow.toNat 0, Lib.leByte e.clusterLow.toNat 1,
    Lib.leByte e.filesize.toNat 0, Lib.leByte e.filesize.toNat 1,
    Lib.leByte e.filesize.toNat 2, Lib.leByte e.filesize.toNat 3].getD (i.val - 11) 0

/-- Reading the packed bytes back. -/
def decode (b : Fin 32 → UInt8) : DirEntry where
  name := fun i => b ⟨i, by omega⟩
  ext := fun i => b ⟨8 + i, by omega⟩
  attr := b 11
  userAttribute := b 12
  undelete := b 13
  createTime := .ofNat (Lib.ofLe [b 14, b 15])
  createDate := .ofNat (Lib.ofLe [b 16, b 17])
  accessDate := .ofNat (Lib.ofLe [b 18, b 19])
  clusterHigh := .ofNat (Lib.ofLe [b 20, b 21])
  modifiedTime := .ofNat (Lib.ofLe [b 22, b 23])
  modifiedDate := .ofNat (Lib.ofLe [b 24, b 25])
  clusterLow := .ofNat (Lib.ofLe [b 26, b 27])
  filesize := .ofNat (Lib.ofLe [b 28, b 29, b 30, b 31])

@[simp] theorem decode_encode (e : DirEntry) : decode e.encode = e := by
  have hname : (fun i : Fin 8 => e.encode ⟨i, by omega⟩) = e.name := by
    funext i
    simp [encode]
  have hext : (fun i : Fin 3 => e.encode ⟨8 + i, by omega⟩) = e.ext := by
    funext i
    have hi := i.isLt
    simp only [encode]
    rw [dif_neg (by omega), dif_pos (by omega)]
    simp
  have hrest : decode e.encode = { e with
      name := fun i => e.encode ⟨i, by omega⟩
      ext := fun i => e.encode ⟨8 + i, by omega⟩
      createTime := .ofNat (Lib.ofLe [Lib.leByte e.createTime.toNat 0, Lib.leByte e.createTime.toNat 1])
      createDate := .ofNat (Lib.ofLe [Lib.leByte e.createDate.toNat 0, Lib.leByte e.createDate.toNat 1])
      accessDate := .ofNat (Lib.ofLe [Lib.leByte e.accessDate.toNat 0, Lib.leByte e.accessDate.toNat 1])
      clusterHigh := .ofNat (Lib.ofLe [Lib.leByte e.clusterHigh.toNat 0, Lib.leByte e.clusterHigh.toNat 1])
      modifiedTime := .ofNat (Lib.ofLe [Lib.leByte e.modifiedTime.toNat 0, Lib.leByte e.modifiedTime.toNat 1])
      modifiedDate := .ofNat (Lib.ofLe [Lib.leByte e.modifiedDate.toNat 0, Lib.leByte e.modifiedDate.toNat 1])
      clusterLow := .ofNat (Lib.ofLe [Lib.leByte e.clusterLow.toNat 0, Lib.leByte e.clusterLow.toNat 1])
      filesize := .ofNat (Lib.ofLe [Lib.leByte e.filesize.toNat 0, Lib.leByte e.filesize.toNat 1,
        Lib.leByte e.filesize.toNat 2, Lib.leByte e.filesize.toNat 3]) } := rfl
  rw [hrest, hname, hext]
  simp only [Lib.ofLe_leByte₂, Lib.ofLe_leByte₄]

end DirEntry

/-! ## Directory tables -/

def encodeTable (t : Table) : Cluster := Lib.pack fun r => (t r).encode

def decodeTable (c : Cluster) : Table := fun r => DirEntry.decode (Lib.unpack (n := 64) (m := 32) c r)

@[simp] theorem decodeTable_encodeTable (t : Table) : decodeTable (encodeTable t) = t := by
  funext r
  have h : Lib.unpack (n := 64) (m := 32) (encodeTable t) = fun r => (t r).encode :=
    Lib.unpack_pack _
  simp [decodeTable, h]

/-! ## The file allocation table -/

abbrev Fat := Fin 512 → UInt32

def encodeFat (f : Fat) : Cluster := Lib.pack fun w j => Lib.leByte (f w).toNat (j : Fin 4)

def decodeFat (c : Cluster) : Fat := fun w =>
  let b := Lib.unpack (n := 512) (m := 4) c w
  .ofNat (Lib.ofLe [b 0, b 1, b 2, b 3])

@[simp] theorem decodeFat_encodeFat (f : Fat) : decodeFat (encodeFat f) = f := by
  funext w
  have h : Lib.unpack (n := 512) (m := 4) (encodeFat f) = fun w j => Lib.leByte (f w).toNat (j : Fin 4) :=
    Lib.unpack_pack _
  simpa [decodeFat, h] using Lib.ofLe_leByte₄ (f w)

namespace Fat

/-- Entry `n`; the words past the table are the driver's business (`State.clusterMap`). -/
def get (f : Fat) (n : Nat) : UInt32 := if h : n < 512 then f ⟨n, h⟩ else 0

def set (f : Fat) (n : Nat) (v : UInt32) : Fat := fun i => if i.val = n then v else f i

@[simp] theorem get_set_self (f : Fat) {n : Nat} (hn : n < 512) (v : UInt32) :
    (f.set n v).get n = v := by simp [get, set, hn]

theorem get_set_of_ne (f : Fat) {m n : Nat} (h : m ≠ n) (v : UInt32) :
    (f.set n v).get m = f.get m := by simp [get, set, h]

/-- Entries `FAT32_FAT_EMPTY_ENTRY` of the table, in increasing order. -/
def freeClusters (f : Fat) : List Nat := Lib.free (fun i => f.get i == fatEmptyEntry) 512

theorem mem_freeClusters {f : Fat} {c : Nat} : c ∈ f.freeClusters ↔ c < 512 ∧ f.get c = 0 := by
  simp [freeClusters, fatEmptyEntry]

end Fat

/-! ## Requests -/

structure Request where
  buf                 : Nat → UInt8
  name                : Fin 8 → UInt8
  ext                 : Fin 3 → UInt8
  parentClusterNumber : UInt32
  bufferSize          : UInt32

/-- `request.parent_cluster_number` as a cluster number. -/
abbrev Request.parent (r : Request) : Nat := r.parentClusterNumber.toNat

end MoggersOs
