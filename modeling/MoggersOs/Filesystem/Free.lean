import MoggersOs.Filesystem.Frame
/-
# What free clusters hold

No operation ever writes a cluster and leaves it free, except for the two kinds of `delete`: a removed file's
clusters are zeros, and a removed folder's table has no row in use and its first two rows cleared. So
whatever is true of these two and of a cluster before `create_fat32` stays true of every free cluster
(`FreeHolds.path`). `Crash.lean` uses it for the rows past 1, `Parents.lean` for row 0.
-/

namespace MoggersOs

/-- The table `delete` leaves of a folder (`fat32.c:436-456`). -/
def clearHeads (t : Table) : Table := Function.update (Function.update t 0 (clearEntry (t 0))) 1 (clearEntry (t 1))

theorem clearHeads_of_ge (t : Table) {i : Fin 64} (hi : 2 ≤ i.val) : clearHeads t i = t i := by
  have h0 : i ≠ 0 := by rintro rfl; simp at hi
  have h1 : i ≠ 1 := by rintro rfl; simp at hi
  rw [clearHeads, Function.update_of_ne h1, Function.update_of_ne h0]

/-- Every free cluster satisfies `Q`. -/
def FreeHolds (Q : Nat → Cluster → Prop) (v : Volume) (live : Finset Nat) : Prop :=
  ∀ c, 3 ≤ c → c < 2 ^ 26 → c ∉ live → v.fat.get c = fatEmptyEntry → Q c (readClusters v.disk c)

/-- `Q` is true of what a `delete` leaves in a cluster. -/
structure Discarded (Q : Nat → Cluster → Prop) : Prop where
  file   : ∀ c, Q c zeroCluster
  folder : ∀ c t, (∀ i : Fin 64, 2 ≤ i.val → ¬ (t i).Used) → Q c (encodeTable (clearHeads t))

variable {Q : Nat → Cluster → Prop}

theorem createFat32_freeHolds {s : State} (hQ : ∀ c, 3 ≤ c → c < 2 ^ 26 → Q c (readClusters s.disk c)) :
    FreeHolds Q (createFat32 s).volume {rootClusterNumber} := by
  intro c h3 hc _ _
  rw [State.volume_disk, createFat32_rest s h3 hc]
  exact hQ c h3 hc

/-- A cluster that is written, with the same contents each time, holds them. -/
theorem readClusters_writeAll_const {x : Nat} {y : Cluster} (hx : x < 2 ^ 26) : ∀ (d : Disk) (ws : List (Nat × Cluster)),
    (∀ w ∈ ws, w.1 < 2 ^ 26 ∧ (w.1 = x → w.2 = y)) → readClusters d x = y → readClusters (writeAll d ws) x = y
  | _, [], _, h => h
  | d, w :: ws, hw, h => by
    rw [writeAll]
    refine readClusters_writeAll_const hx _ ws (fun w' hw' => hw w' (List.mem_cons_of_mem _ hw')) ?_
    obtain ⟨hw26, hy⟩ := hw w (by simp)
    by_cases hwx : w.1 = x
    · rw [← hwx, readClusters_writeClusters, hy hwx]
    · rw [readClusters_writeClusters_of_ne d w.2 hw26 hx (Ne.symm hwx), h]

/-- **The clusters of a deleted file are zeroed.** -/
theorem unlink_zero (v : Volume) (r : Request) (row : Fin 64) {l : List Nat} {x : Nat} (hl : ∀ y ∈ l, 2 ≤ y ∧ y < 512)
    (hx : x ∈ l) : readClusters (v.apply (v.unlink r row l)).disk x = zeroCluster := by
  have h1 : fatClusterNumber = 1 := rfl
  have hx' := hl x hx
  have hlast : l.getLastD 0 ∈ l := by
    have hne := List.ne_nil_of_mem hx
    rw [List.getLastD_eq_getLast?, List.getLast?_eq_some_getLast hne]
    exact List.getLast_mem hne
  -- `x` is zeroed once, and the writes after that put zeros there too
  obtain ⟨us, vs, huv⟩ := List.append_of_mem (List.mem_map_of_mem (f := fun c => (c, zeroCluster)) hx)
  have hwrites : (v.unlink r row l).writes = ((r.parent, encodeTable (Function.update (v.table r.parent) row zeroEntry)) ::
      us) ++ (x, zeroCluster) :: (vs ++ [(fatClusterNumber, encodeFat (Volume.eraseFat v.fat l)),
        (l.getLastD 0, zeroCluster)]) := by
    simp [Volume.unlink, huv]
  have hrest : ∀ w ∈ vs ++ [(fatClusterNumber, encodeFat (Volume.eraseFat v.fat l)), (l.getLastD 0, zeroCluster)],
      w.1 < 2 ^ 26 ∧ (w.1 = x → w.2 = zeroCluster) := by
    intro w hw
    simp only [List.mem_append, List.mem_cons, List.not_mem_nil, or_false] at hw
    rcases hw with hw | rfl | rfl
    · have hw' : w ∈ l.map fun c => (c, zeroCluster) := by simp [huv, hw]
      obtain ⟨y, hy, rfl⟩ := List.mem_map.1 hw'
      have hy' := hl y hy
      exact ⟨show y < 2 ^ 26 by omega, fun _ => rfl⟩
    · exact ⟨show fatClusterNumber < 2 ^ 26 by omega, fun he => absurd (show fatClusterNumber = x from he) (by omega)⟩
    · have hlast' := hl _ hlast
      exact ⟨show l.getLastD 0 < 2 ^ 26 by omega, fun _ => rfl⟩
  rw [Volume.apply, hwrites, writeAll_append, writeAll]
  exact readClusters_writeAll_const (by omega) _ _ hrest (readClusters_writeClusters _ _ _)

namespace FreeHolds

section edits
variable {v v' : Volume} {live live' : Finset Nat} {r : Request} {row : Fin 64} {c : Nat} {l : List Nat}
variable (hq : FreeHolds Q v live) (h : Inv v live)
include hq

/-- An edit matters only for its own clusters. -/
theorem edit {p : Nat} {e : DirEntry} (he : Edit v v' p row e l) (hp : p ∈ live')
    (hlive : ∀ d ∈ live, d ∉ l → d ∈ live')
    (hl : ∀ x ∈ l, x ∉ live' → v'.fat.get x = fatEmptyEntry → Q x (readClusters v'.disk x)) : FreeHolds Q v' live' := by
  intro x h3 hx hxlive h0
  by_cases hxl : x ∈ l
  · exact hl x hxl hxlive h0
  · have h1 : fatClusterNumber = 1 := rfl
    rw [he.disk x hx (by omega) (fun hxp => hxlive (hxp ▸ hp)) hxl]
    exact hq x h3 hx (fun hd => hxlive (hlive x hd hxl)) (he.fat x hxl ▸ h0)

include h

theorem mkdir (hp : r.parent ∈ live) (hfree : c ∈ v.fat.freeClusters) :
    FreeHolds Q (v.apply (v.mkdir r row c)) (insert c live) := by
  obtain ⟨hp2, hp512, -⟩ := h.live_cluster hp
  obtain ⟨hc3, hc512, -, hclive⟩ := h.of_free hfree
  refine hq.edit (mkdir_edit v r row hp2 hp512 (by omega) hc512 fun hcp => hclive (hcp ▸ hp))
    (Finset.mem_insert_of_mem hp) (fun d hd _ => Finset.mem_insert_of_mem hd) fun x hx hxlive => ?_
  exact absurd (List.mem_singleton.1 hx ▸ Finset.mem_insert_self x live) (List.mem_singleton.1 hx ▸ hxlive)

theorem mkfile (hp : r.parent ∈ live) (hfree : ∀ x ∈ c :: l, x ∈ v.fat.freeClusters) (hnd : (c :: l).Nodup) :
    FreeHolds Q (v.apply (v.mkfile r row c l)) live := by
  obtain ⟨hp2, hp512, -⟩ := h.live_cluster hp
  have hR : ∀ x ∈ c :: l, 3 ≤ x ∧ x < 512 := fun x hx =>
    ⟨(h.of_free (hfree x hx)).1, (h.of_free (hfree x hx)).2.1⟩
  have hc512 := (hR c (by simp)).2
  have hchain := Volume.linkFrom_chain (Fat.get_set_self v.fat hc512 fatEndOfFile) hnd fun x hx => (hR x hx).2
  refine hq.edit (mkfile_edit v r row hp2 hp512 (c := c) (l := l) fun x hx => ⟨by have := hR x hx; omega, (hR x hx).2⟩)
    hp (fun d hd _ => hd) fun x hx _ h0 => ?_
  have hne : ((Volume.linkFrom (v.fat.set c fatEndOfFile) c l).get x).toNat ≠ 0 :=
    hchain.next_ne_empty (by decide) (R := fun x => 3 ≤ x ∧ x < 512) (by simp) hR x hx
  exact absurd (congrArg UInt32.toNat h0) hne

theorem rmdir (hQ : Discarded Q) (hr : v.LiveRow live r.parent row) (hf : (v.table r.parent row).Folder)
    (hc : (v.table r.parent row).cluster = c) (hempty : ∀ i, ¬ v.LiveRow live c i) :
    FreeHolds Q (v.apply (v.rmdir r row c)) (live.erase c) := by
  obtain ⟨hp2, hp512, -⟩ := h.live_cluster hr.1
  obtain ⟨-, hc3, hc512⟩ := h.folder_chain hr hf
  rw [hc] at hc3 hc512
  have hclive : c ∈ live := hc ▸ (h.folder _ _ hr hf).1
  have hcp : c ≠ r.parent := fun hcp => hempty row (hcp ▸ hr)
  refine hq.edit (rmdir_edit v r row hp2 hp512 (by omega) hc512 hcp) (Finset.mem_erase.2 ⟨hcp.symm, hr.1⟩)
    (fun d hd hdc => Finset.mem_erase.2 ⟨by simpa using hdc, hd⟩) fun x hx _ _ => ?_
  have hread : readClusters (v.apply (v.rmdir r row c)).disk c = encodeTable (clearHeads (v.table c)) :=
    readClusters_writeAll_last v.disk (x := c) (encodeTable (clearHeads (v.table c)))
      [(r.parent, encodeTable (Function.update (v.table r.parent) row (clearEntry (v.table r.parent row))))]
      [(fatClusterNumber, encodeFat (v.fat.set c fatEmptyEntry))] (by omega) (by
        have h1 : fatClusterNumber = 1 := rfl
        simp only [List.mem_singleton, forall_eq]
        omega)
  rw [List.mem_singleton.1 hx, hread]
  exact hQ.folder c _ fun i hi hu => hempty i ⟨hclive, hi, hu⟩

theorem unlink (hQ : Discarded Q) (hr : v.LiveRow live r.parent row) (hf : ¬ (v.table r.parent row).Folder)
    (hl : Lib.Chain v.next endMark (v.table r.parent row).cluster l) :
    FreeHolds Q (v.apply (v.unlink r row l)) live := by
  obtain ⟨hp2, hp512, -⟩ := h.live_cluster hr.1
  have hR : ∀ x ∈ l, 3 ≤ x ∧ x < 512 := by
    obtain ⟨l', hl', -, hR⟩ := h.chain hr
    rwa [hl.unique hl']
  have hpl := h.live_notMem hr hf hl hr.1
  have h1 : fatClusterNumber = 1 := rfl
  refine hq.edit (unlink_edit v r row hp2 hp512 (fun x hx => ⟨by have := hR x hx; omega, (hR x hx).2⟩) hl.ne_nil hpl)
    hr.1 (fun d hd _ => hd) fun x hx _ _ => ?_
  rw [unlink_zero v r row (fun y hy => ⟨by have := hR y hy; omega, (hR y hy).2⟩) hx]
  exact hQ.file x

end edits

theorem outcome {v : Volume} {live live' : Finset Nat} {op : Op} {fx : Effect} (hQ : Discarded Q)
    (hq : FreeHolds Q v live) (h : Inv v live) (ho : Outcome v live op fx live') : FreeHolds Q (v.apply fx) live' := by
  cases ho with
  | refused _ => exact hq
  | lookup _ => exact hq
  | mkdir hp _ _ _ hfree => exact hq.mkdir h hp hfree
  | mkfile hp _ _ _ hfree hnd _ => exact hq.mkfile h hp hfree hnd
  | rmdir hr _ hf hc hempty => exact hq.rmdir h hQ hr hf hc hempty
  | unlink hr _ hf hl => exact hq.unlink h hQ hr hf hl

/-- **In a run of safe requests the free clusters keep what the disk before the format and the deletions
have in common.** -/
theorem path {kind : Volume → Finset Nat → Op → Prop} {s₀ s : State} {live : Finset Nat} {tr : List (Op × Reply)}
    (hkind : ∀ {v live op}, Inv v live → kind v live op → Safe v live op) (hQ : Discarded Q)
    (hQ₀ : ∀ c, 3 ≤ c → c < 2 ^ 26 → Q c (readClusters s₀.disk c))
    (hpath : Lib.Path (Step kind) (createFat32 s₀, {rootClusterNumber}) tr (s, live)) :
    Inv s.volume live ∧ FreeHolds Q s.volume live :=
  Step.path_invariant hkind (fun hinv hq _ ho => FreeHolds.outcome hQ hq hinv ho) (createFat32_freeHolds hQ₀) hpath

end FreeHolds

end MoggersOs
