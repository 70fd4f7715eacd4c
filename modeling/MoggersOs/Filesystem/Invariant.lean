import MoggersOs.Lib.Forest
import MoggersOs.Filesystem.Edits
/-
# The invariant of a volume

`Inv v live`: the volume `v` is in order and its directories are the clusters `live`. The set `live` is
not stored anywhere: it is the root, plus every directory created, less every directory removed
(`Runs.lean`). The invariant ties together the three places a volume keeps its structure in:

* the reserved clusters (`boot`, `synced`, `fat0`, `fat1`, `fat2`);
* the table, whose chains are owned by the rows in use (`owned`, see `Lib/Chain.lean`);
* the directory tables, which form a tree (`self`, `folder`, `parent`, `rooted`).

`mkdir_inv`, `mkfile_inv`, `rmdir_inv` and `unlink_inv` say that each of the four edits keeps it.
-/

namespace MoggersOs

namespace DirEntry

/-- `user_attribute == UATTR_NOT_EMPTY`. -/
def Used (e : DirEntry) : Prop := e.userAttribute = uattrNotEmpty

/-- `attribute == ATTR_SUBDIRECTORY`. -/
def Folder (e : DirEntry) : Prop := e.attr = attrSubdirectory

instance (e : DirEntry) : Decidable e.Used := inferInstanceAs (Decidable (_ = _))
instance (e : DirEntry) : Decidable e.Folder := inferInstanceAs (Decidable (_ = _))

/-- Name and extension are all zero bytes. -/
def Blank (e : DirEntry) : Prop := e.name = (fun _ => 0) ∧ e.ext = fun _ => 0

/-- The clusters a row in use accounts for. -/
def clusters (e : DirEntry) : Nat := if e.Folder then 1 else clustersOf e.filesize.toNat

end DirEntry

namespace Volume

/-- Row `i` of the live directory `d` is in use. -/
def LiveRow (v : Volume) (live : Finset Nat) (d : Nat) (i : Fin 64) : Prop :=
  d ∈ live ∧ 2 ≤ i.val ∧ (v.table d i).Used

instance (v : Volume) (live : Finset Nat) (d : Nat) (i : Fin 64) : Decidable (v.LiveRow live d i) :=
  inferInstanceAs (Decidable (_ ∧ _ ∧ _))

/-- The owners of chains: the rows in use, with their first cluster and the length of their chain. -/
def rows (v : Volume) (live : Finset Nat) (x : Nat × Fin 64) : Option (Nat × Nat) :=
  if v.LiveRow live x.1 x.2 then some ((v.table x.1 x.2).cluster, (v.table x.1 x.2).clusters) else none

variable {v v' : Volume} {live live' : Finset Nat} {d : Nat} {i : Fin 64}

theorem rows_of_liveRow (h : v.LiveRow live d i) :
    v.rows live (d, i) = some ((v.table d i).cluster, (v.table d i).clusters) := if_pos h

theorem rows_of_not_liveRow (h : ¬ v.LiveRow live d i) : v.rows live (d, i) = none := if_neg h

theorem rows_eq_some {c n : Nat} (h : v.rows live (d, i) = some (c, n)) :
    v.LiveRow live d i ∧ (v.table d i).cluster = c ∧ (v.table d i).clusters = n := by
  by_cases hl : v.LiveRow live d i
  · rw [rows_of_liveRow hl, Option.some.injEq, Prod.mk.injEq] at h
    exact ⟨hl, h⟩
  · simp [rows_of_not_liveRow hl] at h

theorem rows_congr (hd : d ∈ live' ↔ d ∈ live) (ht : d ∈ live → v'.table d i = v.table d i) :
    v'.rows live' (d, i) = v.rows live (d, i) := by
  have hiff : v'.LiveRow live' d i ↔ v.LiveRow live d i := by
    refine ⟨fun h => ?_, fun h => ?_⟩
    · have hm := hd.1 h.1
      exact ⟨hm, h.2.1, ht hm ▸ h.2.2⟩
    · exact ⟨hd.2 h.1, h.2.1, (ht h.1).symm ▸ h.2.2⟩
  by_cases hm : v.LiveRow live d i
  · rw [rows_of_liveRow hm, rows_of_liveRow (hiff.2 hm), ht hm.1]
  · rw [rows_of_not_liveRow hm, rows_of_not_liveRow fun h => hm (hiff.1 h)]

theorem rows_eq_update {p : Nat} {row : Fin 64} {x : Option (Nat × Nat)}
    (hoff : ∀ d i, ¬ (d = p ∧ i = row) → v'.rows live' (d, i) = v.rows live (d, i))
    (hon : v'.rows live' (p, row) = x) :
    v'.rows live' = Function.update (v.rows live) (p, row) x := by
  funext ⟨d, i⟩
  by_cases hdi : d = p ∧ i = row
  · obtain ⟨rfl, rfl⟩ := hdi
    rw [Function.update_self, hon]
  · rw [Function.update_of_ne (fun he => hdi (Prod.mk.inj he)), hoff d i hdi]

end Volume

/-- The volume is in order and its directories are `live`. -/
structure Inv (v : Volume) (live : Finset Nat) : Prop where
  /-- The boot block holds the signature. -/
  boot   : firstBlock (readClusters v.disk 0) = fsSignature
  /-- The table on the disk is the one in memory. -/
  synced : Synced v
  fat0   : v.fat.get 0 = cluster0Value
  fat1   : v.fat.get 1 = cluster1Value
  fat2   : v.fat.get 2 = fatEndOfFile
  /-- The rows in use own the chains of the table. -/
  owned  : Lib.Owned v.next endMark 0 (fun c => 3 ≤ c ∧ c < 512) (v.rows live)
  root   : rootClusterNumber ∈ live
  rootUp : (v.table rootClusterNumber 1).cluster = rootClusterNumber
  /-- Row 0 of a directory is its own entry, row 1 an entry of a directory. -/
  self   : ∀ d ∈ live, (v.table d 0).Used ∧ (v.table d 0).Folder ∧ (v.table d 0).cluster = d ∧
    (v.table d 1).Folder
  /-- Rows that are not in use carry no name. -/
  unused : ∀ d ∈ live, ∀ i : Fin 64, 2 ≤ i.val → ¬ (v.table d i).Used → (v.table d i).Blank
  /-- A folder's row is a copy of row 0 of the folder, whose row 1 leads back. -/
  folder : ∀ d i, v.LiveRow live d i → (v.table d i).Folder → (v.table d i).cluster ∈ live ∧
    v.table (v.table d i).cluster 0 = v.table d i ∧ (v.table (v.table d i).cluster 1).cluster = d ∧
    (v.table d i).ext = fun _ => 0
  /-- Every directory but the root has a row somewhere. -/
  parent : ∀ d ∈ live, d ≠ rootClusterNumber → ∃ p i, v.LiveRow live p i ∧ (v.table p i).Folder ∧
    (v.table p i).cluster = d
  /-- Following row 1 leads to the root. -/
  rooted : Lib.Rooted live rootClusterNumber fun d => (v.table d 1).cluster

namespace Inv

variable {v v' : Volume} {live : Finset Nat} {d p c : Nat} {i row : Fin 64} {l : List Nat}

/-! ## What the invariant says about a row -/

theorem chain (h : Inv v live) (hr : v.LiveRow live d i) :
    ∃ l, Lib.Chain v.next endMark (v.table d i).cluster l ∧ l.length = (v.table d i).clusters ∧
      ∀ x ∈ l, 3 ≤ x ∧ x < 512 :=
  h.owned.chain (Volume.rows_of_liveRow hr)

/-- Two rows in use whose chains meet are the same row. -/
theorem eq_of_mem (h : Inv v live) {e : Nat} {j : Fin 64} {l l' : List Nat} {x : Nat}
    (hd : v.LiveRow live d i) (he : v.LiveRow live e j) (hl : Lib.Chain v.next endMark (v.table d i).cluster l)
    (hl' : Lib.Chain v.next endMark (v.table e j).cluster l') (hx : x ∈ l) (hx' : x ∈ l') : d = e ∧ i = j :=
  Prod.mk.inj (h.owned.disjoint (Volume.rows_of_liveRow hd) (Volume.rows_of_liveRow he) hl hl' hx hx')

/-- A folder has one cluster. -/
theorem folder_chain (h : Inv v live) (hr : v.LiveRow live d i) (hf : (v.table d i).Folder) :
    Lib.Chain v.next endMark (v.table d i).cluster [(v.table d i).cluster] ∧
      3 ≤ (v.table d i).cluster ∧ (v.table d i).cluster < 512 := by
  obtain ⟨l, hl, hlen, hR⟩ := h.chain hr
  rw [DirEntry.clusters, if_pos hf] at hlen
  have hc := hR _ hl.head_mem
  cases hl with
  | last hs => exact ⟨.last hs, hc⟩
  | cons _ ht => exact absurd (List.length_eq_zero_iff.1 (by simpa using hlen)) ht.ne_nil

theorem eq_of_cluster (h : Inv v live) {e : Nat} {j : Fin 64} (hd : v.LiveRow live d i)
    (he : v.LiveRow live e j) (hc : (v.table d i).cluster = (v.table e j).cluster) : d = e ∧ i = j := by
  obtain ⟨l, hl, -, -⟩ := h.chain hd
  exact h.eq_of_mem hd he hl (hc ▸ hl) hl.head_mem hl.head_mem

/-- A live directory's cluster is in the table and ends its chain. -/
theorem live_cluster (h : Inv v live) (hd : d ∈ live) :
    2 ≤ d ∧ d < 512 ∧ v.fat.get d = fatEndOfFile := by
  by_cases h2 : d = rootClusterNumber
  · rw [h2]
    exact ⟨by decide, by decide, h.fat2⟩
  · obtain ⟨p, i, hr, hf, rfl⟩ := h.parent d hd h2
    obtain ⟨hc, h3, h512⟩ := h.folder_chain hr hf
    refine ⟨by omega, h512, ?_⟩
    cases hc with
    | last hs => exact next_eq_endMark.1 hs
    | cons _ ht => exact absurd rfl ht.ne_nil

/-- An unused entry of the table is past the reserved ones and is no directory. -/
theorem of_free (h : Inv v live) (hc : c ∈ v.fat.freeClusters) : 3 ≤ c ∧ c < 512 ∧ v.next c = 0 ∧ c ∉ live := by
  obtain ⟨h512, h0⟩ := Fat.mem_freeClusters.1 hc
  have hne : ∀ n, v.fat.get n ≠ 0 → c ≠ n := fun n hn he => hn (he ▸ h0)
  have hc0 := hne 0 (by rw [h.fat0]; decide)
  have hc1 := hne 1 (by rw [h.fat1]; decide)
  have hc2 := hne 2 (by rw [h.fat2]; decide)
  refine ⟨by omega, h512, by rw [Volume.next, h0]; rfl, fun hl => ?_⟩
  have he := (h.live_cluster hl).2.2
  rw [h0] at he
  exact absurd he (by decide)

/-- No directory is on the chain of a file. -/
theorem live_notMem (h : Inv v live) (hr : v.LiveRow live p row) (hf : ¬ (v.table p row).Folder)
    (hl : Lib.Chain v.next endMark (v.table p row).cluster l) (hd : d ∈ live) : d ∉ l := by
  intro hdl
  obtain ⟨l', hl', -, hR⟩ := h.chain hr
  by_cases h2 : d = rootClusterNumber
  · rw [hl.unique hl', h2] at hdl
    exact absurd (hR _ hdl).1 (by decide)
  · obtain ⟨q, j, hq, hqf, rfl⟩ := h.parent d hd h2
    obtain ⟨rfl, rfl⟩ := h.eq_of_mem hr hq hl (h.folder_chain hq hqf).1 hdl (by simp)
    exact hf hqf

/-- The unused row of a live directory is no owner. -/
theorem rows_unused (hu : ¬ (v.table p row).Used) : v.rows live (p, row) = none :=
  Volume.rows_of_not_liveRow fun hr => hu hr.2.2

/-! ## What every edit keeps -/

section Edit
variable {e : DirEntry} (h : Inv v live) (he : Edit v v' p row e l) (hp : p ∈ live)
variable (hl : ∀ x ∈ l, 3 ≤ x ∧ x < 512)
include h he

theorem edit_table (hd : d ∈ live) (hdl : d ∉ l) (hne : ¬ (d = p ∧ i = row)) : v'.table d i = v.table d i := by
  obtain ⟨h2, h512, -⟩ := h.live_cluster hd
  have h1 : fatClusterNumber = 1 := rfl
  exact he.table_row (by omega) (by omega) hdl hne

/-- Rows 0 and 1 stay where the directory does. -/
theorem edit_heads (hd : d ∈ live) (hdl : d ∉ l) (hrow : 2 ≤ row.val) :
    v'.table d 0 = v.table d 0 ∧ v'.table d 1 = v.table d 1 :=
  ⟨h.edit_table he hd hdl fun hx => by simp [← hx.2] at hrow,
    h.edit_table he hd hdl fun hx => by simp [← hx.2] at hrow⟩

include hp hl

theorem edit_boot : firstBlock (readClusters v'.disk 0) = fsSignature := by
  have h2 := (h.live_cluster hp).1
  have h0 : 0 ∉ l := fun hm => absurd (hl 0 hm).1 (by decide)
  rw [he.disk 0 (by decide) (by decide) (by omega) h0]
  exact h.boot

omit hp in
theorem edit_reserved :
    v'.fat.get 0 = cluster0Value ∧ v'.fat.get 1 = cluster1Value ∧ v'.fat.get 2 = fatEndOfFile := by
  have hfat : ∀ {c : Nat}, c < 3 → v'.fat.get c = v.fat.get c := fun hc =>
    he.fat _ fun hm => absurd (hl _ hm).1 (by omega)
  rw [hfat (by decide), hfat (by decide), hfat (by decide)]
  exact ⟨h.fat0, h.fat1, h.fat2⟩

/-- **An edit that is no business of the tree**: the row is no folder in use, neither before nor
after, and no directory is among the clusters that change. -/
theorem edit_file (hlive : ∀ d ∈ live, d ∉ l) (hrow : 2 ≤ row.val)
    (hold : v.LiveRow live p row → ¬ (v.table p row).Folder) (hnew : e.Used → ¬ e.Folder)
    (hblank : ¬ e.Used → e.Blank)
    (hown : Lib.Owned v'.next endMark 0 (fun c => 3 ≤ c ∧ c < 512) (v'.rows live)) : Inv v' live := by
  have htab : ∀ d ∈ live, ∀ i, ¬ (d = p ∧ i = row) → v'.table d i = v.table d i :=
    fun d hd i hne => h.edit_table he hd (hlive d hd) hne
  have h0 : ∀ d ∈ live, v'.table d 0 = v.table d 0 := fun d hd => (h.edit_heads he hd (hlive d hd) hrow).1
  have h1 : ∀ d ∈ live, v'.table d 1 = v.table d 1 := fun d hd => (h.edit_heads he hd (hlive d hd) hrow).2
  obtain ⟨hfat0, hfat1, hfat2⟩ := h.edit_reserved he hl
  refine ⟨h.edit_boot he hp hl, he.synced, hfat0, hfat1, hfat2, hown, h.root, ?_, ?_, ?_, ?_, ?_, ?_⟩
  · rw [h1 _ h.root, h.rootUp]
  · intro d hd
    rw [h0 d hd, h1 d hd]
    exact h.self d hd
  · intro d hd i hi hu
    by_cases hdi : d = p ∧ i = row
    · obtain ⟨rfl, rfl⟩ := hdi
      rw [he.table_self] at hu ⊢
      exact hblank hu
    · rw [htab d hd i hdi] at hu ⊢
      exact h.unused d hd i hi hu
  · intro d i hr hf
    have hdi : ¬ (d = p ∧ i = row) := by
      rintro ⟨rfl, rfl⟩
      have hu := hr.2.2
      rw [he.table_self] at hf hu
      exact hnew hu hf
    have hrow' := htab d hr.1 i hdi
    rw [hrow'] at hf
    obtain ⟨hc, hself, hup, hext⟩ := h.folder d i ⟨hr.1, hr.2.1, hrow' ▸ hr.2.2⟩ hf
    rw [hrow', h0 _ hc, h1 _ hc]
    exact ⟨hc, hself, hup, hext⟩
  · intro d hd h2
    obtain ⟨q, j, hr, hf, hc⟩ := h.parent d hd h2
    have hqj : ¬ (q = p ∧ j = row) := by
      rintro ⟨rfl, rfl⟩
      exact hold hr hf
    have hrow' := htab q hr.1 j hqj
    exact ⟨q, j, ⟨hr.1, hr.2.1, hrow'.symm ▸ hr.2.2⟩, by rw [hrow']; exact hf, by rw [hrow']; exact hc⟩
  · exact h.rooted.congr fun d hd => by rw [h1 d hd]

end Edit

end Inv

/-! ## The rows `write` creates -/

theorem newFile_used (r : Request) (c : Nat) : (newFile r c).Used := rfl

theorem newFile_not_folder (r : Request) (c : Nat) : ¬ (newFile r c).Folder := by
  intro h
  exact absurd (show (0 : UInt8) = attrSubdirectory from h) (by decide)

theorem newFile_cluster (r : Request) {c : Nat} (hc : c < 512) : (newFile r c).cluster = c :=
  DirEntry.setCluster_cluster _ (by omega)

theorem newFile_clusters (r : Request) (c : Nat) : (newFile r c).clusters = clustersOf r.bufferSize.toNat :=
  if_neg (newFile_not_folder r c)

section newDirectory
variable (name : Fin 8 → UInt8) (p c : Nat)

theorem newDirectory_zero :
    newDirectory name p c 0 = ((directoryEntry name p).setCluster c) := by
  simp [newDirectory, initDirectoryTable]

theorem newDirectory_one : newDirectory name p c 1 = directoryEntry dotDot p := by
  simp [newDirectory, initDirectoryTable]

theorem newDirectory_of_ge {i : Fin 64} (hi : 2 ≤ i.val) : newDirectory name p c i = zeroEntry := by
  have h0 : i ≠ 0 := by rintro rfl; simp at hi
  have h1 : i ≠ 1 := by rintro rfl; simp at hi
  simp [newDirectory, initDirectoryTable, h0, h1]

end newDirectory

theorem not_used_zeroEntry : ¬ zeroEntry.Used := by
  intro h
  exact absurd (show (0 : UInt8) = uattrNotEmpty from h) (by decide)

theorem blank_zeroEntry : zeroEntry.Blank := ⟨rfl, rfl⟩

theorem not_used_clearEntry (e : DirEntry) : ¬ (clearEntry e).Used := by
  intro h
  exact absurd (show (0 : UInt8) = uattrNotEmpty from h) (by decide)

/-! ## A folder comes -/

namespace Inv

section NewFolder
variable {v v' : Volume} {live : Finset Nat} {p c d : Nat} {row i : Fin 64} {name : Fin 8 → UInt8}
variable (h : Inv v live) (he : Edit v v' p row (newDirectory name p c 0) [c]) (hp : p ∈ live) (hrow : 2 ≤ row.val)
variable (hu : ¬ (v.table p row).Used) (hfree : c ∈ v.fat.freeClusters) (hnew : v'.table c = newDirectory name p c)
include h he hfree

omit he in
theorem newFolder_notMem (hd : d ∈ live) : d ∉ [c] := by
  intro hm
  rw [List.mem_singleton.1 hm] at hd
  exact (h.of_free hfree).2.2.2 hd

omit h hfree in
theorem newFolder_row : v'.table p row = (directoryEntry name p).setCluster c := by
  rw [he.table_self, newDirectory_zero]

include hp hrow hu hnew

/-- A row in use is the new row or was in use before. -/
theorem newFolder_liveRow : v'.LiveRow (insert c live) d i ↔ (d = p ∧ i = row) ∨ v.LiveRow live d i := by
  by_cases hdi : d = p ∧ i = row
  · obtain ⟨rfl, rfl⟩ := hdi
    refine ⟨fun _ => Or.inl ⟨rfl, rfl⟩, fun _ => ⟨Finset.mem_insert_of_mem hp, hrow, ?_⟩⟩
    rw [newFolder_row he]
    rfl
  · have htab : d ∈ live → v'.table d i = v.table d i := fun hd =>
      h.edit_table he hd (h.newFolder_notMem hfree hd) hdi
    refine ⟨fun hr => Or.inr ?_, fun hr => ?_⟩
    · rcases Finset.mem_insert.1 hr.1 with rfl | hd
      · have hu' := hr.2.2
        rw [hnew, newDirectory_of_ge _ _ _ hr.2.1] at hu'
        exact absurd hu' not_used_zeroEntry
      · exact ⟨hd, hr.2.1, htab hd ▸ hr.2.2⟩
    · have hr := hr.resolve_left hdi
      exact ⟨Finset.mem_insert_of_mem hr.1, hr.2.1, (htab hr.1).symm ▸ hr.2.2⟩

/-- The new row owns the folder's cluster. -/
theorem newFolder_rows : v'.rows (insert c live) = Function.update (v.rows live) (p, row) (some (c, [c].length)) := by
  have hc512 := (h.of_free hfree).2.1
  have hlive : ∀ {d i}, v'.LiveRow (insert c live) d i ↔ (d = p ∧ i = row) ∨ v.LiveRow live d i :=
    h.newFolder_liveRow he hp hrow hu hfree hnew
  refine Volume.rows_eq_update (fun d i hdi => ?_) ?_
  · by_cases hr : v.LiveRow live d i
    · rw [Volume.rows_of_liveRow hr, Volume.rows_of_liveRow (hlive.2 (.inr hr)),
        h.edit_table he hr.1 (h.newFolder_notMem hfree hr.1) hdi]
    · rw [Volume.rows_of_not_liveRow hr, Volume.rows_of_not_liveRow]
      exact fun hr' => hr ((hlive.1 hr').resolve_left hdi)
  · rw [Volume.rows_of_liveRow (hlive.2 (.inl ⟨rfl, rfl⟩)), newFolder_row he,
      DirEntry.setCluster_cluster _ (by omega)]
    rfl

theorem newFolder (hend : v'.next c = endMark) : Inv v' (insert c live) := by
  obtain ⟨hc3, hc512, hc0, -⟩ := h.of_free hfree
  obtain ⟨-, hp512, -⟩ := h.live_cluster hp
  have hR : ∀ x ∈ [c], 3 ≤ x ∧ x < 512 := by simpa using ⟨hc3, hc512⟩
  have hlive : ∀ {d i}, v'.LiveRow (insert c live) d i ↔ (d = p ∧ i = row) ∨ v.LiveRow live d i :=
    h.newFolder_liveRow he hp hrow hu hfree hnew
  have hdisj : ∀ d ∈ live, d ∉ [c] := fun d hd => h.newFolder_notMem hfree hd
  have h0 : ∀ d ∈ live, v'.table d 0 = v.table d 0 := fun d hd => (h.edit_heads he hd (hdisj d hd) hrow).1
  have h1 : ∀ d ∈ live, v'.table d 1 = v.table d 1 := fun d hd => (h.edit_heads he hd (hdisj d hd) hrow).2
  have hself : v'.table p row = v'.table c 0 := by rw [he.table_self, hnew]
  have hc : (v'.table p row).cluster = c := by rw [newFolder_row he, DirEntry.setCluster_cluster _ (by omega)]
  have hup : (v'.table c 1).cluster = p := by
    rw [hnew, newDirectory_one]
    exact DirEntry.setCluster_cluster _ (by omega)
  obtain ⟨hfat0, hfat1, hfat2⟩ := h.edit_reserved he hR
  refine ⟨h.edit_boot he hp hR, he.synced, hfat0, hfat1, hfat2, ?_, Finset.mem_insert_of_mem h.root, ?_, ?_, ?_, ?_,
    ?_, ?_⟩
  · rw [h.newFolder_rows he hp hrow hu hfree hnew]
    exact h.owned.insert (by decide) (by simp) (rows_unused hu) (fun x hx => he.next hx)
      (fun x hx => by rw [List.mem_singleton.1 hx, hc0]) hR (.last hend)
  · rw [h1 _ h.root, h.rootUp]
  · intro d hd
    rcases Finset.mem_insert.1 hd with rfl | hd
    · rw [← hself, hc, newFolder_row he, hnew, newDirectory_one]
      exact ⟨rfl, rfl, rfl, rfl⟩
    · rw [h0 d hd, h1 d hd]
      exact h.self d hd
  · intro d hd i hi hu'
    rcases Finset.mem_insert.1 hd with rfl | hd
    · rw [hnew, newDirectory_of_ge _ _ _ hi]
      exact blank_zeroEntry
    · by_cases hdi : d = p ∧ i = row
      · exact absurd (hlive.2 (.inl hdi)).2.2 hu'
      · rw [h.edit_table he hd (hdisj d hd) hdi] at hu' ⊢
        exact h.unused d hd i hi hu'
  · intro d i hr hf
    by_cases hdi : d = p ∧ i = row
    · obtain ⟨rfl, rfl⟩ := hdi
      rw [hc, ← hself]
      refine ⟨Finset.mem_insert_self c live, rfl, hup, ?_⟩
      rw [newFolder_row he]
      rfl
    · have hr' := (hlive.1 hr).resolve_left hdi
      have hrow' := h.edit_table he hr'.1 (hdisj d hr'.1) hdi
      rw [hrow'] at hf
      obtain ⟨hcl, hs, hup', hext⟩ := h.folder d i hr' hf
      rw [hrow', h0 _ hcl, h1 _ hcl]
      exact ⟨Finset.mem_insert_of_mem hcl, hs, hup', hext⟩
  · intro d hd h2
    rcases Finset.mem_insert.1 hd with rfl | hd
    · refine ⟨p, row, hlive.2 (.inl ⟨rfl, rfl⟩), ?_, hc⟩
      rw [newFolder_row he]
      rfl
    · obtain ⟨q, j, hr, hf, hcl⟩ := h.parent d hd h2
      have hqj : ¬ (q = p ∧ j = row) := by
        rintro ⟨rfl, rfl⟩
        exact hu hr.2.2
      have hrow' := h.edit_table he hr.1 (hdisj q hr.1) hqj
      exact ⟨q, j, hlive.2 (.inr hr), by rw [hrow']; exact hf, by rw [hrow']; exact hcl⟩
  · exact h.rooted.insert_leaf (p := p) (fun d hd => by rw [h1 d hd]) hp hup

end NewFolder

/-! ## A folder goes -/

section OldFolder
variable {v v' : Volume} {live : Finset Nat} {p c d : Nat} {row i : Fin 64}
variable (h : Inv v live) (he : Edit v v' p row (clearEntry (v.table p row)) [c]) (hr : v.LiveRow live p row)
variable (hf : (v.table p row).Folder) (hc : (v.table p row).cluster = c) (hempty : ∀ i, ¬ v.LiveRow live c i)
include h he

theorem oldFolder_table (hd : d ∈ live.erase c) (hdi : ¬ (d = p ∧ i = row)) : v'.table d i = v.table d i :=
  h.edit_table he (Finset.mem_of_mem_erase hd) (by simpa using Finset.ne_of_mem_erase hd) hdi

include hempty

/-- The rows in use are those before, less the removed one. -/
theorem oldFolder_liveRow : v'.LiveRow (live.erase c) d i ↔ ¬ (d = p ∧ i = row) ∧ v.LiveRow live d i := by
  constructor
  · intro hr'
    have hdi : ¬ (d = p ∧ i = row) := by
      rintro ⟨rfl, rfl⟩
      have hu := hr'.2.2
      rw [he.table_self] at hu
      exact not_used_clearEntry _ hu
    exact ⟨hdi, Finset.mem_of_mem_erase hr'.1, hr'.2.1, h.oldFolder_table he hr'.1 hdi ▸ hr'.2.2⟩
  · rintro ⟨hdi, hr'⟩
    have hd : d ∈ live.erase c := Finset.mem_erase.2 ⟨fun hdc => hempty i (hdc ▸ hr'), hr'.1⟩
    exact ⟨hd, hr'.2.1, (h.oldFolder_table he hd hdi).symm ▸ hr'.2.2⟩

theorem oldFolder_rows : v'.rows (live.erase c) = Function.update (v.rows live) (p, row) none := by
  have hlive : ∀ {d i}, v'.LiveRow (live.erase c) d i ↔ ¬ (d = p ∧ i = row) ∧ v.LiveRow live d i :=
    h.oldFolder_liveRow he hempty
  refine Volume.rows_eq_update (fun d i hdi => ?_) (Volume.rows_of_not_liveRow fun hx => (hlive.1 hx).1 ⟨rfl, rfl⟩)
  by_cases hr' : v.LiveRow live d i
  · have hr'' := hlive.2 ⟨hdi, hr'⟩
    rw [Volume.rows_of_liveRow hr', Volume.rows_of_liveRow hr'', h.oldFolder_table he hr''.1 hdi]
  · rw [Volume.rows_of_not_liveRow hr', Volume.rows_of_not_liveRow fun hx => hr' (hlive.1 hx).2]

include hr hf hc

theorem oldFolder (hend : v'.next c = 0) : Inv v' (live.erase c) := by
  obtain ⟨hchain, hc3, hc512⟩ := h.folder_chain hr hf
  rw [hc] at hc3 hc512
  have hext := (h.folder _ _ hr hf).2.2.2
  have hR : ∀ x ∈ [c], 3 ≤ x ∧ x < 512 := by simpa using ⟨hc3, hc512⟩
  have hmem : ∀ d ∈ live.erase c, d ∈ live := fun d hd => Finset.mem_of_mem_erase hd
  have hdisj : ∀ d ∈ live.erase c, d ∉ [c] := fun d hd => by simpa using Finset.ne_of_mem_erase hd
  have hlive : ∀ {d i}, v'.LiveRow (live.erase c) d i ↔ ¬ (d = p ∧ i = row) ∧ v.LiveRow live d i :=
    h.oldFolder_liveRow he hempty
  have h0 : ∀ d ∈ live.erase c, v'.table d 0 = v.table d 0 :=
    fun d hd => (h.edit_heads he (hmem d hd) (hdisj d hd) hr.2.1).1
  have h1 : ∀ d ∈ live.erase c, v'.table d 1 = v.table d 1 :=
    fun d hd => (h.edit_heads he (hmem d hd) (hdisj d hd) hr.2.1).2
  have hroot : rootClusterNumber ∈ live.erase c :=
    Finset.mem_erase.2 ⟨fun h2 => absurd (h2 ▸ hc3) (by decide), h.root⟩
  obtain ⟨hfat0, hfat1, hfat2⟩ := h.edit_reserved he hR
  refine ⟨h.edit_boot he hr.1 hR, he.synced, hfat0, hfat1, hfat2, ?_, hroot, ?_, ?_, ?_, ?_, ?_, ?_⟩
  · rw [h.oldFolder_rows he hempty]
    refine h.owned.erase (Volume.rows_of_liveRow hr) hchain (fun x hx => he.next ?_) fun x hx => ?_
    · rwa [hc] at hx
    · rw [hc] at hx
      rw [List.mem_singleton.1 hx, hend]
  · rw [h1 _ hroot, h.rootUp]
  · intro d hd
    rw [h0 d hd, h1 d hd]
    exact h.self d (hmem d hd)
  · intro d hd i hi hu
    by_cases hdi : d = p ∧ i = row
    · obtain ⟨rfl, rfl⟩ := hdi
      rw [he.table_self]
      exact ⟨rfl, hext⟩
    · rw [h.oldFolder_table he hd hdi] at hu ⊢
      exact h.unused d (hmem d hd) i hi hu
  · intro d i hr' hf'
    obtain ⟨hdi, hrv⟩ := hlive.1 hr'
    have hrow' := h.oldFolder_table he hr'.1 hdi
    rw [hrow'] at hf'
    obtain ⟨hcl, hs, hup, hx⟩ := h.folder d i hrv hf'
    have hne : (v.table d i).cluster ≠ c := fun hcc => hdi (h.eq_of_cluster hrv hr (hcc.trans hc.symm))
    have hcl' : (v.table d i).cluster ∈ live.erase c := Finset.mem_erase.2 ⟨hne, hcl⟩
    rw [hrow', h0 _ hcl', h1 _ hcl']
    exact ⟨hcl', hs, hup, hx⟩
  · intro d hd h2
    obtain ⟨q, j, hrv, hf', hcd⟩ := h.parent d (hmem d hd) h2
    have hqj : ¬ (q = p ∧ j = row) := by
      rintro ⟨rfl, rfl⟩
      exact Finset.ne_of_mem_erase hd (hcd.symm.trans hc)
    have hr' := hlive.2 ⟨hqj, hrv⟩
    have hrow' := h.oldFolder_table he hr'.1 hqj
    exact ⟨q, j, hr', by rw [hrow']; exact hf', by rw [hrow']; exact hcd⟩
  · refine h.rooted.erase_leaf (fun d hd hne => by rw [h1 d (Finset.mem_erase.2 ⟨hne, hd⟩)]) ?_
    intro d hd hne hup
    by_cases h2 : d = rootClusterNumber
    · rw [h2, h.rootUp] at hup
      rw [← hup] at hc3
      exact absurd hc3 (by decide)
    · obtain ⟨q, j, hrv, hf', hcd⟩ := h.parent d hd h2
      have hq := (h.folder q j hrv hf').2.2.1
      rw [hcd] at hq
      exact hempty j (hup.symm.trans hq ▸ hrv)

end OldFolder

end Inv

/-! ## The four edits keep the invariant -/

section steps
variable {v : Volume} {live : Finset Nat} {r : Request} {row : Fin 64} {c : Nat} {l : List Nat}
variable (h : Inv v live) (hp : r.parent ∈ live)
include h hp

theorem mkfile_inv (hrow : 2 ≤ row.val) (hu : ¬ (v.table r.parent row).Used)
    (hfree : ∀ x ∈ c :: l, x ∈ v.fat.freeClusters) (hnd : (c :: l).Nodup)
    (hlen : (c :: l).length = clustersOf r.bufferSize.toNat) :
    Inv (v.apply (v.mkfile r row c l)) live := by
  obtain ⟨hp2, hp512, -⟩ := h.live_cluster hp
  have hR : ∀ x ∈ c :: l, 3 ≤ x ∧ x < 512 := fun x hx =>
    ⟨(h.of_free (hfree x hx)).1, (h.of_free (hfree x hx)).2.1⟩
  have hlive : ∀ d ∈ live, d ∉ c :: l := fun d hd hm => (h.of_free (hfree d hm)).2.2.2 hd
  have he := mkfile_edit v r row hp2 hp512 (c := c) (l := l) fun x hx => ⟨by have := hR x hx; omega, (hR x hx).2⟩
  have hc512 := (hR c (by simp)).2
  refine h.edit_file he hp hR hlive hrow (fun hr => absurd hr.2.2 hu)
    (fun _ => newFile_not_folder r c) (fun hn => absurd (newFile_used r c) hn) ?_
  -- the new row is the owner of the new chain
  have hrows : (v.apply (v.mkfile r row c l)).rows live =
      Function.update (v.rows live) (r.parent, row) (some (c, (c :: l).length)) := by
    refine Volume.rows_eq_update (fun d i hdi => Volume.rows_congr Iff.rfl fun hd =>
      h.edit_table he hd (hlive d hd) hdi) ?_
    rw [Volume.rows_of_liveRow ⟨hp, hrow, by rw [he.table_self]; exact newFile_used r c⟩, he.table_self,
      newFile_cluster r hc512, newFile_clusters, hlen]
  rw [hrows]
  exact h.owned.insert (by decide) (by simp) (Inv.rows_unused hu) (fun x hx => he.next hx)
    (fun x hx => (h.of_free (hfree x hx)).2.2.1) hR
    (Volume.linkFrom_chain (Fat.get_set_self _ hc512 _) hnd fun x hx => (hR x hx).2)

theorem unlink_inv (hr : v.LiveRow live r.parent row) (hf : ¬ (v.table r.parent row).Folder)
    (hl : Lib.Chain v.next endMark (v.table r.parent row).cluster l) :
    Inv (v.apply (v.unlink r row l)) live := by
  obtain ⟨hp2, hp512, -⟩ := h.live_cluster hp
  have hR : ∀ x ∈ l, 3 ≤ x ∧ x < 512 := by
    obtain ⟨l', hl', -, hR⟩ := h.chain hr
    rwa [hl.unique hl']
  have hlive : ∀ d ∈ live, d ∉ l := fun d hd => h.live_notMem hr hf hl hd
  have he := unlink_edit v r row hp2 hp512 (fun x hx => ⟨by have := hR x hx; omega, (hR x hx).2⟩) hl.ne_nil
    (hlive _ hp)
  refine h.edit_file he hp hR hlive hr.2.1 (fun _ => hf) (fun hu => absurd hu not_used_zeroEntry)
    (fun _ => blank_zeroEntry) ?_
  have hrows : (v.apply (v.unlink r row l)).rows live =
      Function.update (v.rows live) (r.parent, row) none := by
    refine Volume.rows_eq_update (fun d i hdi => Volume.rows_congr Iff.rfl fun hd =>
      h.edit_table he hd (hlive d hd) hdi) ?_
    refine Inv.rows_unused ?_
    rw [he.table_self]
    exact not_used_zeroEntry
  rw [hrows]
  refine h.owned.erase (Volume.rows_of_liveRow hr) hl (fun x hx => he.next hx) fun x hx => ?_
  exact congrArg UInt32.toNat (Volume.eraseFat_get_of_mem (fun y hy => (hR y hy).2) hx)

theorem mkdir_inv (hrow : 2 ≤ row.val) (hu : ¬ (v.table r.parent row).Used)
    (hfree : c ∈ v.fat.freeClusters) : Inv (v.apply (v.mkdir r row c)) (insert c live) := by
  obtain ⟨hp2, hp512, -⟩ := h.live_cluster hp
  obtain ⟨hc3, hc512, -, hclive⟩ := h.of_free hfree
  have hcp : c ≠ r.parent := fun hcp => hclive (hcp ▸ hp)
  refine h.newFolder (mkdir_edit v r row hp2 hp512 (by omega) hc512 hcp) hp hrow hu hfree
    (mkdir_table v r row hc512) ?_
  rw [next_eq_endMark]
  exact Fat.get_set_self _ hc512 _

theorem rmdir_inv (hr : v.LiveRow live r.parent row) (hf : (v.table r.parent row).Folder)
    (hc : (v.table r.parent row).cluster = c) (hempty : ∀ i, ¬ v.LiveRow live c i) :
    Inv (v.apply (v.rmdir r row c)) (live.erase c) := by
  obtain ⟨hp2, hp512, -⟩ := h.live_cluster hp
  obtain ⟨-, hc3, hc512⟩ := h.folder_chain hr hf
  rw [hc] at hc3 hc512
  -- the parent has a row in use, the removed folder has none
  have hcp : c ≠ r.parent := fun hcp => hempty row (hcp ▸ hr)
  refine h.oldFolder (rmdir_edit v r row hp2 hp512 (by omega) hc512 hcp) hr hf hc hempty ?_
  exact congrArg UInt32.toNat (Fat.get_set_self _ hc512 _)

end steps

end MoggersOs
