import MoggersOs.Filesystem.Free
/-
# The disk after a crash

A request is a list of `write_clusters` calls, and a crash cuts the list off somewhere. The orders are

| request | writes |
| --- | --- |
| folder by `write`  | table, parent, the new directory (`fat32.c:268-286`) |
| file by `write`    | data, table, parent (`fat32.c:313-363`) |
| folder by `delete` | parent, the removed directory, table (`fat32.c:434-458`) |
| file by `delete`   | parent, zeros over the data, table, zeros (`fat32.c:478-499`) |

so a row is written after the table entries it needs and cleared before they are given back. One prefix is
special: a new folder's row is on the disk before its table is, and the cluster still holds what it held
when it was free. `NoRows` says that this is no row in use: a cluster is zero on a fresh image, `delete` writes
zeros over a file and removes only folders without entries.
-/

namespace MoggersOs

/-! ## What the next mount finds -/

/-- The volume on a disk: `initialize_filesystem_fat32` loads the table from cluster 1. -/
def mounted (d : Disk) : Volume := ⟨d, decodeFat (readClusters d fatClusterNumber)⟩

/-- A directory that rows in use lead to from the root. -/
inductive Reached (v : Volume) : Nat → Prop
  | root : Reached v rootClusterNumber
  | folder {d : Nat} {i : Fin 64} : Reached v d → 2 ≤ i.val → (v.table d i).Used → (v.table d i).Folder →
      Reached v (v.table d i).cluster

/-- A row in use of a reached directory. -/
structure ReachedRow (v : Volume) (d : Nat) (i : Fin 64) : Prop where
  dir  : Reached v d
  row  : 2 ≤ i.val
  used : (v.table d i).Used

/-- The rows of the disk own chains of allocated clusters, and no two of them the same cluster. -/
structure CrashSafe (disk : Disk) : Prop where
  chain : ∀ d i, ReachedRow (mounted disk) d i → ∃ l,
    Lib.Chain (mounted disk).next endMark ((mounted disk).table d i).cluster l ∧
      ∀ x ∈ l, 3 ≤ x ∧ x ≤ 511 ∧ (mounted disk).fat.get x ≠ fatEmptyEntry
  disjoint : ∀ d i e j l l', ReachedRow (mounted disk) d i → ReachedRow (mounted disk) e j → (d, i) ≠ (e, j) →
    Lib.Chain (mounted disk).next endMark ((mounted disk).table d i).cluster l →
    Lib.Chain (mounted disk).next endMark ((mounted disk).table e j).cluster l' → List.Disjoint l l'

@[simp] theorem mounted_table (disk : Disk) (d : Nat) : (mounted disk).table d = decodeTable (readClusters disk d) := rfl

theorem Synced.mounted {v : Volume} (h : Synced v) : mounted v.disk = v := by
  simp [MoggersOs.mounted, show readClusters v.disk fatClusterNumber = encodeFat v.fat from h]

/-- **A disk that a volume in order vouches for is safe**: its rows in use are rows of the volume, and the
table on it agrees with the volume's on their chains. -/
theorem Inv.crashSafe_of {v : Volume} {live : Finset Nat} {disk : Disk} (h : Inv v live)
    (hrow : ∀ d ∈ live, ∀ i : Fin 64, 2 ≤ i.val → ((mounted disk).table d i).Used →
      (mounted disk).table d i = v.table d i)
    (hfat : ∀ d i l, v.LiveRow live d i → ((mounted disk).table d i).Used →
      Lib.Chain v.next endMark (v.table d i).cluster l → ∀ x ∈ l, (mounted disk).fat.get x = v.fat.get x) :
    CrashSafe disk := by
  have hlive : ∀ {d}, Reached (mounted disk) d → d ∈ live := by
    intro d hd
    induction hd with
    | root => exact h.root
    | @folder d i _ hi hu hf ih =>
      have he := hrow d ih i hi hu
      rw [he] at hu hf ⊢
      exact (h.folder d i ⟨ih, hi, hu⟩ hf).1
  have hreached : ∀ {d i}, ReachedRow (mounted disk) d i →
      v.LiveRow live d i ∧ (mounted disk).table d i = v.table d i := by
    intro d i hr
    have he := hrow d (hlive hr.dir) i hr.row hr.used
    exact ⟨⟨hlive hr.dir, hr.row, he ▸ hr.used⟩, he⟩
  have hchain : ∀ {d i}, ReachedRow (mounted disk) d i → ∃ l, Lib.Chain v.next endMark (v.table d i).cluster l ∧
      (∀ x ∈ l, 3 ≤ x ∧ x < 512) ∧ Lib.Chain (mounted disk).next endMark ((mounted disk).table d i).cluster l := by
    intro d i hr
    obtain ⟨hl, he⟩ := hreached hr
    obtain ⟨l, hch, -, hR⟩ := h.chain hl
    refine ⟨l, hch, hR, ?_⟩
    rw [he]
    exact hch.congr fun x hx => by rw [Volume.next, Volume.next, hfat d i l hl hr.used hch x hx]
  constructor
  · intro d i hr
    obtain ⟨l, -, hR, hl⟩ := hchain hr
    have hne : ∀ x ∈ l, (mounted disk).next x ≠ 0 :=
      hl.next_ne_empty (by decide) (R := fun c => 3 ≤ c ∧ c < 512) (by simp) hR
    refine ⟨l, hl, fun x hx => ⟨(hR x hx).1, Nat.lt_succ_iff.1 (hR x hx).2, fun h0 => hne x hx ?_⟩⟩
    rw [Volume.next, h0]
    rfl
  · intro d i e j l l' hr hr' hne hl hl' x hx hx'
    obtain ⟨m, hm, -, hml⟩ := hchain hr
    obtain ⟨m', hm', -, hml'⟩ := hchain hr'
    rw [hl.unique hml] at hx
    rw [hl'.unique hml'] at hx'
    obtain ⟨rfl, rfl⟩ := h.eq_of_mem (hreached hr).1 (hreached hr').1 hm hm' hx hx'
    exact hne rfl

/-- The disk of a volume in order. -/
theorem Inv.crashSafe {v : Volume} {live : Finset Nat} (h : Inv v live) : CrashSafe v.disk := by
  have hm := h.synced.mounted
  exact h.crashSafe_of (fun d _ i _ _ => by rw [hm]) fun d i l _ _ _ x _ => by rw [hm]

/-! ## A prefix of the writes -/

/-- A cluster is as before or holds what one of the writes put there. -/
theorem readClusters_writeAll_cases {x : Nat} (hx : x < 2 ^ 26) {ws : List (Nat × Cluster)} :
    ∀ (d : Disk), (∀ w ∈ ws, w.1 < 2 ^ 26) → readClusters (writeAll d ws) x = readClusters d x ∨
      ∃ w ∈ ws, w.1 = x ∧ readClusters (writeAll d ws) x = w.2 := by
  induction ws with
  | nil => exact fun d _ => .inl rfl
  | cons w ws ih =>
    intro d hw
    rcases ih (writeClusters d w.2 w.1) fun w' hw' => hw w' (List.mem_cons_of_mem _ hw') with he | ⟨w', hw', hx', he⟩
    · by_cases hwx : w.1 = x
      · refine .inr ⟨w, by simp, hwx, ?_⟩
        rw [writeAll, he, ← hwx, readClusters_writeClusters]
      · left
        rw [writeAll, he, readClusters_writeClusters_of_ne d w.2 (hw w (by simp)) hx (Ne.symm hwx)]
    · exact .inr ⟨w', List.mem_cons_of_mem _ hw', hx', he⟩

/-- A write that does no harm at any moment: the table stays the same off the clusters `l`, and a directory gets
no row in use that it did not have. -/
structure Harmless (v : Volume) (live : Finset Nat) (l : List Nat) (w : Nat × Cluster) : Prop where
  addr : w.1 < 2 ^ 26
  fat  : w.1 = fatClusterNumber → ∀ x ∉ l, (decodeFat w.2).get x = v.fat.get x
  rows : w.1 ∈ live → ∀ i : Fin 64, 2 ≤ i.val → (decodeTable w.2 i).Used → decodeTable w.2 i = v.table w.1 i

/-- **Harmless writes leave a safe disk**, if the rows that are still in use have no cluster among `l`. -/
theorem Inv.crashSafe_harmless {v : Volume} {live : Finset Nat} {l : List Nat} {ws : List (Nat × Cluster)}
    (h : Inv v live) (hw : ∀ w ∈ ws, Harmless v live l w)
    (hl : ∀ d i m, v.LiveRow live d i → ((mounted (writeAll v.disk ws)).table d i).Used →
      Lib.Chain v.next endMark (v.table d i).cluster m → ∀ x ∈ m, x ∉ l) : CrashSafe (writeAll v.disk ws) := by
  refine h.crashSafe_of (fun d hd i hi hu => ?_) fun d i m hr hu hm x hx => ?_
  · have hd512 := (h.live_cluster hd).2.1
    rw [mounted_table] at hu ⊢
    rcases readClusters_writeAll_cases (x := d) (by omega) v.disk fun w hws => (hw w hws).addr with
      he | ⟨w, hws, rfl, he⟩
    · rw [he]
      rfl
    · rw [he] at hu ⊢
      exact (hw w hws).rows hd i hi hu
  · have hxl := hl d i m hr hu hm x hx
    simp only [mounted]
    rcases readClusters_writeAll_cases (x := fatClusterNumber) (by decide) v.disk fun w hws => (hw w hws).addr with
      he | ⟨w, hws, h1, he⟩
    · rw [he, show readClusters v.disk fatClusterNumber = encodeFat v.fat from h.synced, decodeFat_encodeFat]
    · rw [he, (hw w hws).fat h1 x hxl]

/-- A write to a cluster that is neither the table nor a directory. -/
theorem Harmless.data {v : Volume} {live : Finset Nat} {l : List Nat} {c : Nat} (x : Cluster) (hc : c < 2 ^ 26)
    (h1 : c ≠ fatClusterNumber) (hlive : c ∉ live) : Harmless v live l (c, x) :=
  ⟨hc, fun he => absurd he h1, fun hd => absurd hd hlive⟩

/-- A write of a table. -/
theorem Inv.harmless_fat {v : Volume} {live : Finset Nat} {l : List Nat} {f : Fat} (h : Inv v live)
    (hf : ∀ x ∉ l, f.get x = v.fat.get x) : Harmless v live l (fatClusterNumber, encodeFat f) := by
  have h1 : fatClusterNumber < 2 := by decide
  refine ⟨show fatClusterNumber < 2 ^ 26 by omega, fun _ x hx => ?_, fun hd => ?_⟩
  · rw [decodeFat_encodeFat, hf x hx]
  · have h2 : 2 ≤ fatClusterNumber := (h.live_cluster hd).1
    omega

/-- A write of a directory in which a row was cleared. -/
theorem Inv.harmless_row {v : Volume} {live : Finset Nat} {l : List Nat} {p : Nat} {row : Fin 64} {e : DirEntry}
    (h : Inv v live) (hp : p ∈ live) (he : ¬ e.Used) :
    Harmless v live l (p, encodeTable (Function.update (v.table p) row e)) := by
  obtain ⟨h2, h512, -⟩ := h.live_cluster hp
  have h1 : fatClusterNumber = 1 := rfl
  refine ⟨show p < 2 ^ 26 by omega, fun hx => absurd (show p = fatClusterNumber from hx) (by omega), fun _ i _ hu => ?_⟩
  rw [decodeTable_encodeTable] at hu ⊢
  by_cases hi : i = row
  · rw [hi, Function.update_self] at hu
    exact absurd hu he
  · rw [Function.update_of_ne hi]

/-! ## The four requests -/

section requests
variable {v : Volume} {live : Finset Nat} {r : Request} {row : Fin 64} {c : Nat} {l : List Nat}
variable (h : Inv v live) (hp : r.parent ∈ live)
include h hp

/-- Up to the last write no row of a new file is on the disk. -/
theorem Inv.mkfile_crashSafe (hrow : 2 ≤ row.val) (hu : ¬ (v.table r.parent row).Used)
    (hfree : ∀ x ∈ c :: l, x ∈ v.fat.freeClusters) (hnd : (c :: l).Nodup)
    (hlen : (c :: l).length = clustersOf r.bufferSize.toNat) (k : Nat) :
    CrashSafe (writeAll v.disk ((v.mkfile r row c l).writes.take k)) := by
  by_cases hk : (v.mkfile r row c l).writes.length ≤ k
  · rw [List.take_of_length_le hk]
    exact (mkfile_inv h hp hrow hu hfree hnd hlen).crashSafe
  · have hfat : ∀ x ∉ c :: l, (Volume.linkFrom (v.fat.set c fatEndOfFile) c l).get x = v.fat.get x := by
      intro x hx
      obtain ⟨hxc, hxl⟩ := List.ne_and_not_mem_of_not_mem_cons hx
      exact (Volume.linkFrom_get hxc hxl).trans (Fat.get_set_of_ne _ hxc _)
    have hdata : ∀ y : Nat × Cluster, y.1 ∈ c :: l → Harmless v live (c :: l) y := by
      intro y hy
      obtain ⟨h3, h512, -, hlive⟩ := h.of_free (hfree _ hy)
      have h1 : fatClusterNumber = 1 := rfl
      exact .data y.2 (by omega) (by omega) hlive
    refine h.crashSafe_harmless (l := c :: l) (fun w hw => ?_) fun d i m hr _ hm x hx hxl =>
      h.chain_notMem_free hr hm x hx (hfree x hxl)
    -- what is left of the list does not reach its last element
    have hcut : (v.mkfile r row c l).writes = ((c, filePartCluster r.buf 0 2048) ::
        Volume.partsFrom r (clustersOf r.bufferSize.toNat - 1) 1 l ++
        [(fatClusterNumber, encodeFat (Volume.linkFrom (v.fat.set c fatEndOfFile) c l))]) ++
        [(r.parent, encodeTable (Function.update (v.table r.parent) row (newFile r c)))] := by
      simp [Volume.mkfile]
    rw [hcut] at hk hw
    rw [List.length_append, List.length_singleton] at hk
    rw [List.take_append_of_le_length (by omega)] at hw
    rcases List.mem_append.1 (List.mem_of_mem_take hw) with hw | hw
    · rcases List.mem_cons.1 hw with rfl | hw
      · exact hdata _ (by simp)
      · exact hdata w (List.mem_cons_of_mem _ (Volume.mem_partsFrom hw))
    · rw [List.mem_singleton.1 hw]
      exact h.harmless_fat hfat

/-- The row of a new folder comes before its table; the cluster has no row in use anyway. -/
theorem Inv.mkdir_crashSafe (hrow : 2 ≤ row.val) (hu : ¬ (v.table r.parent row).Used) (hfree : c ∈ v.fat.freeClusters)
    (hclean : ∀ i : Fin 64, 2 ≤ i.val → ¬ (v.table c i).Used) (k : Nat) :
    CrashSafe (writeAll v.disk ((v.mkdir r row c).writes.take k)) := by
  obtain ⟨hp2, hp512, -⟩ := h.live_cluster hp
  obtain ⟨hc3, hc512, -, hclive⟩ := h.of_free hfree
  have h1 : fatClusterNumber = 1 := rfl
  have hfat : ∀ x ∉ [c], (v.fat.set c fatEndOfFile).get x = v.fat.get x :=
    fun x hx => Fat.get_set_of_ne _ (by simpa using hx) _
  by_cases hk : k ≤ 1
  · refine h.crashSafe_harmless (l := [c]) (fun w hw => ?_) fun d i m hr _ hm x hx hxl =>
      h.chain_notMem_free hr hm x hx (List.mem_singleton.1 hxl ▸ hfree)
    have hw1 : w ∈ (v.mkdir r row c).writes.take 1 := List.take_subset_take_left _ hk hw
    rw [show w = (fatClusterNumber, encodeFat (v.fat.set c fatEndOfFile)) by simpa [Volume.mkdir] using hw1]
    exact h.harmless_fat hfat
  · obtain ⟨k, rfl⟩ : ∃ n, k = n + 2 := ⟨k - 2, by omega⟩
    have hinv := mkdir_inv h hp hrow hu hfree
    -- all clusters but the folder's are as at the end
    have hsame : ∀ x < 2 ^ 26, x ≠ c → readClusters (writeAll v.disk ((v.mkdir r row c).writes.take (k + 2))) x =
        readClusters (v.apply (v.mkdir r row c)).disk x := by
      intro x hx hxc
      have hlast : ∀ w ∈ [(c, encodeTable (newDirectory r.name r.parent c))], w.1 < 2 ^ 26 ∧ x ≠ w.1 := by
        simp only [List.mem_singleton, forall_eq]
        omega
      have htake := readClusters_writeAll hx (writeAll v.disk ((v.mkdir r row c).writes.take 2))
        ([(c, encodeTable (newDirectory r.name r.parent c))].take k) fun w hw => hlast w (List.mem_of_mem_take hw)
      have hall := readClusters_writeAll hx (writeAll v.disk ((v.mkdir r row c).writes.take 2))
        [(c, encodeTable (newDirectory r.name r.parent c))] hlast
      rw [← writeAll_append] at htake hall
      exact htake.trans hall.symm
    have hnew := mkdir_table v r row hc512
    -- the folder's own cluster holds the new table or what it held when it was free
    have hown : (mounted (writeAll v.disk ((v.mkdir r row c).writes.take (k + 2)))).table c = v.table c ∨
        (mounted (writeAll v.disk ((v.mkdir r row c).writes.take (k + 2)))).table c = newDirectory r.name r.parent c := by
      have hcases : ∀ w ∈ (v.mkdir r row c).writes.take (k + 2), w.1 < 2 ^ 26 ∧
          (w.1 = c → decodeTable w.2 = newDirectory r.name r.parent c) := by
        intro w hw
        have hmem := List.mem_of_mem_take hw
        simp only [Volume.mkdir, List.mem_cons, List.not_mem_nil, or_false] at hmem
        rcases hmem with rfl | rfl | rfl
        · exact ⟨show fatClusterNumber < 2 ^ 26 by omega, fun hx => absurd (show fatClusterNumber = c from hx) (by omega)⟩
        · exact ⟨show r.parent < 2 ^ 26 by omega, fun hx => absurd ((show r.parent = c from hx) ▸ hp) hclive⟩
        · exact ⟨show c < 2 ^ 26 by omega, fun _ => decodeTable_encodeTable _⟩
      rw [mounted_table]
      rcases readClusters_writeAll_cases (x := c) (by omega) v.disk fun w hw => (hcases w hw).1 with
        he | ⟨w, hw, hwc, he⟩
      · exact .inl (congrArg decodeTable he)
      · exact .inr ((congrArg decodeTable he).trans ((hcases w hw).2 hwc))
    refine hinv.crashSafe_of (fun d hd i hi hused => ?_) fun d i m _ _ _ x _ => ?_
    · by_cases hdc : d = c
      · rw [hdc] at hused ⊢
        rcases hown with he | he
        · rw [he] at hused
          exact absurd hused (hclean i hi)
        · rw [he, hnew]
      · have hd512 := (hinv.live_cluster hd).2.1
        rw [mounted_table, hsame d (by omega) hdc, Volume.table]
    · have hsync : readClusters (v.apply (v.mkdir r row c)).disk fatClusterNumber =
        encodeFat (v.apply (v.mkdir r row c)).fat := hinv.synced
      simp only [mounted, hsame fatClusterNumber (by decide) (by omega), hsync, decodeFat_encodeFat]

omit hp in
/-- Once the row is cleared nothing that follows matters to the other rows. -/
theorem Inv.removal_crashSafe {e : DirEntry} {rest : List (Nat × Cluster)} (hr : v.LiveRow live r.parent row)
    (he : ¬ e.Used) (hl : Lib.Chain v.next endMark (v.table r.parent row).cluster l)
    (hrest : ∀ w ∈ rest, Harmless v live l w ∧ w.1 ≠ r.parent) (k : Nat) :
    CrashSafe (writeAll v.disk
      (((r.parent, encodeTable (Function.update (v.table r.parent) row e)) :: rest).take k)) := by
  rcases k with _ | k
  · exact h.crashSafe
  · obtain ⟨-, hp512, -⟩ := h.live_cluster hr.1
    have htab := readClusters_writeAll_last v.disk (x := r.parent)
      (encodeTable (Function.update (v.table r.parent) row e)) [] (rest.take k) (by omega) fun w hw =>
        ⟨(hrest w (List.mem_of_mem_take hw)).1.addr, (hrest w (List.mem_of_mem_take hw)).2.symm⟩
    rw [List.nil_append] at htab
    rw [List.take_succ_cons]
    refine h.crashSafe_harmless (l := l) (fun w hw => ?_) fun d i m hd hu hm x hx hxl => ?_
    · rcases List.mem_cons.1 hw with rfl | hw
      · exact h.harmless_row hr.1 he
      · exact (hrest w (List.mem_of_mem_take hw)).1
    · obtain ⟨rfl, rfl⟩ := h.eq_of_mem hd hr hm hl hx hxl
      rw [mounted_table, htab, decodeTable_encodeTable, Function.update_self] at hu
      exact he hu

omit hp in
theorem Inv.unlink_crashSafe (hr : v.LiveRow live r.parent row) (hf : ¬ (v.table r.parent row).Folder)
    (hl : Lib.Chain v.next endMark (v.table r.parent row).cluster l) (k : Nat) :
    CrashSafe (writeAll v.disk ((v.unlink r row l).writes.take k)) := by
  obtain ⟨hp2, -, -⟩ := h.live_cluster hr.1
  have hR : ∀ x ∈ l, 3 ≤ x ∧ x < 512 := by
    obtain ⟨l', hl', -, hR⟩ := h.chain hr
    rwa [hl.unique hl']
  have hzero : ∀ x ∈ l, Harmless v live l (x, zeroCluster) ∧ x ≠ r.parent := by
    intro x hx
    have hx' := hR x hx
    have h1 : fatClusterNumber = 1 := rfl
    have hlive : x ∉ live := fun hd => h.live_notMem hr hf hl hd hx
    exact ⟨.data zeroCluster (by omega) (by omega) hlive, fun he => hlive (he ▸ hr.1)⟩
  have hlast : l.getLastD 0 ∈ l := by
    rw [List.getLastD_eq_getLast?, List.getLast?_eq_some_getLast hl.ne_nil]
    exact List.getLast_mem hl.ne_nil
  have hrest : ∀ w ∈ l.map (fun c => (c, zeroCluster)) ++
      [(fatClusterNumber, encodeFat (Volume.eraseFat v.fat l)), (l.getLastD 0, zeroCluster)],
      Harmless v live l w ∧ w.1 ≠ r.parent := by
    intro w hw
    simp only [List.mem_append, List.mem_map, List.mem_cons, List.not_mem_nil, or_false] at hw
    rcases hw with ⟨x, hx, rfl⟩ | rfl | rfl
    · exact hzero x hx
    · refine ⟨h.harmless_fat fun x hx => Volume.eraseFat_get_of_notMem hx, ?_⟩
      have h1 : fatClusterNumber = 1 := rfl
      simp only
      omega
    · exact hzero _ hlast
  exact h.removal_crashSafe hr not_used_zeroEntry hl hrest k

omit hp in
theorem Inv.rmdir_crashSafe (hr : v.LiveRow live r.parent row) (hf : (v.table r.parent row).Folder)
    (hc : (v.table r.parent row).cluster = c) (hempty : ∀ i, ¬ v.LiveRow live c i) (k : Nat) :
    CrashSafe (writeAll v.disk ((v.rmdir r row c).writes.take k)) := by
  obtain ⟨hp2, -, -⟩ := h.live_cluster hr.1
  obtain ⟨hl, hc3, hc512⟩ := h.folder_chain hr hf
  have h1 : fatClusterNumber = 1 := rfl
  have hcp : c ≠ r.parent := fun hcp => hempty row (hcp ▸ hr)
  refine h.removal_crashSafe hr (not_used_clearEntry _) hl (fun w hw => ?_) k
  rw [hc] at hc3 hc512 ⊢
  simp only [List.mem_cons, List.not_mem_nil, or_false] at hw
  rcases hw with rfl | rfl
  · refine ⟨⟨show c < 2 ^ 26 by omega, fun hx => absurd (show c = fatClusterNumber from hx) (by omega),
      fun _ i hi _ => ?_⟩, hcp⟩
    rw [decodeTable_encodeTable]
    exact clearHeads_of_ge (v.table c) hi
  · refine ⟨h.harmless_fat fun x hx => Fat.get_set_of_ne _ (by simpa using hx) _, ?_⟩
    simp only
    omega

end requests

/-! ## Runs -/

/-- The cluster has nothing that would count as a row in use. -/
def NoRows (_ : Nat) (x : Cluster) : Prop := ∀ i : Fin 64, 2 ≤ i.val → ¬ (decodeTable x i).Used

theorem noRows_zeroCluster (c : Nat) : NoRows c zeroCluster := fun _ _ => not_used_zeroEntry

theorem noRows_discarded : Discarded NoRows := by
  refine ⟨noRows_zeroCluster, fun c t ht i hi => ?_⟩
  rw [decodeTable_encodeTable, clearHeads_of_ge t hi]
  exact ht i hi

/-- **Cut off after any number of writes a request leaves a safe disk.** -/
theorem Outcome.crashSafe {v : Volume} {live live' : Finset Nat} {op : Op} {fx : Effect} (h : Inv v live)
    (hq : FreeHolds NoRows v live) (ho : Outcome v live op fx live') (k : Nat) :
    CrashSafe (writeAll v.disk (fx.writes.take k)) := by
  cases ho with
  | @refused _ code _ =>
    rw [show (v.refuse code).writes = [] from rfl, List.take_nil]
    exact h.crashSafe
  | @lookup _ code _ =>
    rw [show (v.refuse code).writes = [] from rfl, List.take_nil]
    exact h.crashSafe
  | @mkdir r row c hp _ _ hrow hfree =>
    obtain ⟨hrow2, hu⟩ := findFreeRow_eq_some hrow
    obtain ⟨h3, h512, -, hlive⟩ := h.of_free hfree
    have hclean : NoRows c (readClusters v.disk c) := hq c h3 (by omega) hlive (Fat.mem_freeClusters.1 hfree).2
    exact h.mkdir_crashSafe hp hrow2 hu hfree hclean k
  | mkfile hp _ _ hrow hfree hnd hlen =>
    obtain ⟨hrow2, hu⟩ := findFreeRow_eq_some hrow
    exact h.mkfile_crashSafe hp hrow2 hu hfree hnd hlen k
  | rmdir hr _ hf hc hempty => exact h.rmdir_crashSafe hr hf hc hempty k
  | unlink hr _ hf hl => exact h.unlink_crashSafe hr hf hl k

/-- **A crash loses no cluster to two rows.** On a disk image of zeros, after any ordinary requests, one more
ordinary request returns, and whatever prefix of its `write_clusters` calls has been made, every row in use that is
reached from the root has a chain of allocated clusters in the table on the disk, and no two rows share one. -/
theorem crash_safe {s₀ s : State} {live : Finset Nat} {tr : List (Op × Reply)} {op : Op}
    (hzero : ∀ a, s₀.disk a = 0)
    (h : Lib.Path (Step Ordinary) (createFat32 s₀, {rootClusterNumber}) tr (s, live))
    (ho : Ordinary s.volume live op) :
    ∃ rep s' ws, exec 512 s op = some (rep, s') ∧ s'.writes = s.writes ++ ws ∧ s'.disk = writeAll s.disk ws ∧
      ∀ k, CrashSafe (writeAll s.disk (ws.take k)) := by
  have hzero' : ∀ c, 3 ≤ c → c < 2 ^ 26 → NoRows c (readClusters s₀.disk c) := by
    intro c _ _
    rw [show readClusters s₀.disk c = zeroCluster from funext fun _ => hzero _]
    exact noRows_zeroCluster c
  obtain ⟨hinv, hq⟩ := FreeHolds.path Ordinary.safe noRows_discarded hzero' h
  obtain ⟨s', hx, -⟩ := exec_eq (Nat.le_refl 512) hinv ho
  obtain ⟨fx, hout, -, hv, hw⟩ := exec_outcome hinv (ho.safe hinv) hx
  exact ⟨_, s', fx.writes, hx, hw, congrArg Volume.disk hv, fun k => hout.crashSafe hinv hq k⟩

/-- `mkdir a`, `rm a`, and a file of five bytes, which gets the cluster that was the folder's. -/
theorem crash_safe_recycled : ∃ s tr rep s' ws, tr.map Prod.fst = [.write folderRequest, .delete folderRequest] ∧
    Lib.Path (Step Ordinary) (createFat32 blankState, {rootClusterNumber}) tr (s, {rootClusterNumber}) ∧
    exec 512 s (.write (fileRequest 5)) = some (rep, s') ∧ s'.disk = writeAll s.disk ws ∧
    ∀ k, CrashSafe (writeAll s.disk (ws.take k)) := by
  have hzero : ∀ a, blankState.disk a = 0 := fun _ => rfl
  obtain ⟨s, tr, hops, hpath, hfree⟩ := recycled
  have hmem : 3 ∈ s.volume.fat.freeClusters := Fat.mem_freeClusters.2 ⟨by decide, hfree⟩
  have hord : Ordinary s.volume {rootClusterNumber} (.write (fileRequest 5)) := by
    refine ⟨by decide, by decide, fun _ => rfl, ?_⟩
    rw [Volume.Fits, show Volume.needed (fileRequest 5) = 1 from rfl]
    exact List.length_pos_of_mem hmem
  obtain ⟨rep, s', ws, hexec, -, hdisk, hsafe⟩ := crash_safe hzero hpath hord
  exact ⟨s, tr, rep, s', ws, hops, hpath, hexec, hdisk, hsafe⟩

end MoggersOs
