import Mathlib.Data.List.OfFn
import MoggersOs.Lib.Bytes
/-
# The disk: blocks and clusters (`filesystem/disk.c`, `fat32.c:116-122`)

| here | there |
| --- | --- |
| `Disk`                            | the storage image, byte by byte (`image_storage` of `inserter/external-inserter.c`) |
| `readBlocks`, `writeBlocks`       | `read_blocks`, `write_blocks` (`disk.c:12-46`): the transfer without the ATA handshake; the controller gets 28 bits of the block address (`disk.c:14-18`) |
| `clusterToLba`                    | `cluster_to_lba` (`fat32.c:25`), in 32 bits |
| `readClusters`, `writeClusters`   | `read_clusters`, `write_clusters` (`fat32.c:116-122`) for one cluster: every call in `fat32.c` passes `cluster_count = 1` |
| `memcmp`                          | `memcmp` (`std/string.c:20-31`) on two arrays of the same length |

The constants `BLOCK_SIZE = 512`, `CLUSTER_BLOCK_COUNT = 4` and `CLUSTER_SIZE = 2048` are written out.
-/

namespace MoggersOs

abbrev Disk := Nat → UInt8

/-- `struct ClusterBuffer` (`fat32.h:43-45`). -/
abbrev Cluster := Fin 2048 → UInt8

/-! ## `memcmp` -/

/-- The loop of `memcmp` over two byte lists. -/
def memcmpList : List UInt8 → List UInt8 → Int
  | a :: as, b :: bs => if a < b then -1 else if b < a then 1 else memcmpList as bs
  | _, _ => 0

def memcmp {n : Nat} (s1 s2 : Fin n → UInt8) : Int := memcmpList (List.ofFn s1) (List.ofFn s2)

theorem memcmpList_eq_zero : ∀ {as bs : List UInt8}, as.length = bs.length →
    (memcmpList as bs = 0 ↔ as = bs)
  | [], [], _ => by simp [memcmpList]
  | a :: as, b :: bs, h => by
    have ih := memcmpList_eq_zero (show as.length = bs.length by simpa using h)
    simp only [memcmpList, List.cons.injEq]
    split
    · rename_i hlt
      simp [UInt8.ne_of_lt hlt]
    · split
      · rename_i hlt
        simp [(UInt8.ne_of_lt hlt).symm]
      · rename_i h1 h2
        rw [ih, UInt8.le_antisymm (UInt8.not_lt.1 h2) (UInt8.not_lt.1 h1)]
        simp

@[simp] theorem memcmp_eq_zero {n : Nat} {s1 s2 : Fin n → UInt8} : memcmp s1 s2 = 0 ↔ s1 = s2 := by
  rw [memcmp, memcmpList_eq_zero (by simp), List.ofFn_injective.eq_iff]

/-! ## Blocks -/

/-- Byte address of a block: the controller sees the low 28 bits of the block address. -/
def blockAddr (lba : Nat) : Nat := 512 * (lba % 2 ^ 28)

def readBlocks (d : Disk) (lba n : Nat) : Fin (512 * n) → UInt8 := fun i => d (blockAddr lba + i)

def writeBlocks {n : Nat} (d : Disk) (ptr : Fin (512 * n) → UInt8) (lba : Nat) : Disk := fun a =>
  if h : blockAddr lba ≤ a ∧ a - blockAddr lba < 512 * n then ptr ⟨a - blockAddr lba, h.2⟩ else d a

theorem writeBlocks_in {n : Nat} (d : Disk) (ptr : Fin (512 * n) → UInt8) (lba : Nat)
    (i : Fin (512 * n)) : writeBlocks d ptr lba (blockAddr lba + i) = ptr i := by
  have hi := i.isLt
  unfold writeBlocks
  rw [dif_pos ⟨by omega, by omega⟩]
  congr 1
  exact Fin.ext (by simp)

theorem writeBlocks_out {n : Nat} (d : Disk) (ptr : Fin (512 * n) → UInt8) (lba : Nat) {a : Nat}
    (h : a < blockAddr lba ∨ blockAddr lba + 512 * n ≤ a) : writeBlocks d ptr lba a = d a := by
  unfold writeBlocks
  rw [dif_neg (by omega)]

/-! ## Clusters -/

def clusterToLba (cluster : Nat) : Nat := cluster * 4 % 2 ^ 32

def readClusters (d : Disk) (cluster : Nat) : Cluster := readBlocks d (clusterToLba cluster) 4

/-- The first block of a cluster. -/
def firstBlock (c : Cluster) : Fin 512 → UInt8 := fun i => c ⟨i, by omega⟩

def writeClusters (d : Disk) (ptr : Cluster) (cluster : Nat) : Disk :=
  writeBlocks (n := 4) d ptr (clusterToLba cluster)

/-- A cluster starts at `2048 * cluster`, up to the 26 bits that reach the controller. -/
theorem blockAddr_clusterToLba (c : Nat) : blockAddr (clusterToLba c) = 2048 * (c % 2 ^ 26) := by
  simp only [blockAddr, clusterToLba]
  omega

@[simp] theorem readClusters_writeClusters (d : Disk) (x : Cluster) (c : Nat) :
    readClusters (writeClusters d x c) c = x := by
  funext i
  exact writeBlocks_in (n := 4) d x (clusterToLba c) i

theorem readClusters_writeClusters_of_mod_ne (d : Disk) (x : Cluster) {c c' : Nat}
    (h : c % 2 ^ 26 ≠ c' % 2 ^ 26) : readClusters (writeClusters d x c) c' = readClusters d c' := by
  funext i
  have hi := i.isLt
  refine writeBlocks_out (n := 4) d x _ ?_
  rw [blockAddr_clusterToLba, blockAddr_clusterToLba]
  omega

/-- Writing one of the first `2 ^ 26` clusters leaves every other of them alone. -/
theorem readClusters_writeClusters_of_ne (d : Disk) (x : Cluster) {c c' : Nat} (hc : c < 2 ^ 26)
    (hc' : c' < 2 ^ 26) (h : c' ≠ c) : readClusters (writeClusters d x c) c' = readClusters d c' :=
  readClusters_writeClusters_of_mod_ne d x (by
    rw [Nat.mod_eq_of_lt hc, Nat.mod_eq_of_lt hc']
    exact Ne.symm h)

/-- A cluster's new contents do not depend on the old ones. -/
theorem writeClusters_congr {d d' : Disk} {c : Nat}
    (h : ∀ a, ¬ (2048 * (c % 2 ^ 26) ≤ a ∧ a < 2048 * (c % 2 ^ 26) + 2048) → d a = d' a) (x : Cluster) :
    writeClusters d x c = writeClusters d' x c := by
  funext a
  simp only [writeClusters, writeBlocks, blockAddr_clusterToLba]
  split
  · rfl
  · rename_i ha
    exact h a (by omega)

theorem writeClusters_of_not_mem (d : Disk) (x : Cluster) {c a : Nat}
    (h : ¬ (2048 * (c % 2 ^ 26) ≤ a ∧ a < 2048 * (c % 2 ^ 26) + 2048)) : writeClusters d x c a = d a := by
  refine writeBlocks_out (n := 4) d x _ ?_
  rw [blockAddr_clusterToLba]
  omega

/-- The boot block is the first quarter of cluster 0. -/
theorem readClusters_writeBlocks_boot (d : Disk) (sig : Fin (512 * 1) → UInt8) :
    firstBlock (readClusters (writeBlocks d sig 0) 0) = sig := funext (writeBlocks_in d sig 0)

end MoggersOs
