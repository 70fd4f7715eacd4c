import MoggersOs.Filesystem.Remove
/-
# `delete` undoes `write`

What `write` allocates, link by link, `delete` walks and frees again. `Added` is the counterpart of `Removed`
(`Remove.lean`): a row that was unused is in use, and its chain is made of entries that were free. So a `delete` of
the same name right after the `write` leads back to the table and to the rows that were there
(`delete_undoes_write`), which is what `kernel_setup` once tried out (`kernel.c:142-182`).
-/

namespace MoggersOs

/-- Row `row` of the request's directory, unused before, holds the new entry `e`, with chain `l`. -/
structure Added (v v' : Volume) (live live' : Finset Nat) (r : Request) (row : Fin 64) (e : DirEntry) (l : List Nat) :
    Prop where
  change : Change v v' live live' r row e l
  unused : ¬ (v.table r.parent row).Used
  used   : e.Used
  free   : ∀ x ∈ l, v.fat.get x = fatEmptyEntry
  chain  : Lib.Chain v'.next endMark e.cluster l
  /-- A folder is a new directory. -/
  dirs   : e.Folder ∧ e.cluster ∉ live ∧ live' = insert e.cluster live ∨ ¬ e.Folder ∧ live' = live

/-- The table and the rows in use of every directory are the same. -/
structure Restored (v v' : Volume) (live live' : Finset Nat) : Prop where
  fat   : v'.fat = v.fat
  disk  : readClusters v'.disk fatClusterNumber = readClusters v.disk fatClusterNumber
  dirs  : live' = live
  used  : ∀ d ∈ live, ∀ i, (v'.table d i).Used ↔ (v.table d i).Used
  rows  : ∀ d ∈ live, ∀ i, (v.table d i).Used → v'.table d i = v.table d i

/-- A table is its entries. -/
theorem Fat.eq_of_get {f g : Fat} (h : ∀ x, f.get x = g.get x) : f = g := by
  funext i
  have hi := h i
  simpa [Fat.get] using hi

section
variable {v v₁ v₂ : Volume} {live live₁ live₂ : Finset Nat} {r : Request} {row : Fin 64} {e : DirEntry} {c : Nat}
variable {l m : List Nat}

theorem Inv.mkdir_added (h : Inv v live) (hp : r.parent ∈ live) (hz : r.bufferSize = 0) (he : r.ext = fun _ => 0)
    (hrow : findFreeRow (v.table r.parent) = some row) (hfree : c ∈ v.fat.freeClusters) :
    Added v (v.apply (v.mkdir r row c)) live (insert c live) r row (newDirectory r.name r.parent c 0) [c] := by
  obtain ⟨-, hc512, -, hclive⟩ := h.of_free hfree
  have hch := h.mkdir_change hp hz hrow hfree
  rw [r.stored_eq fun _ => he] at hch
  have hc : (newDirectory r.name r.parent c 0).cluster = c := by
    rw [newDirectory_zero, DirEntry.setCluster_cluster _ (by omega)]
  refine ⟨hch, (findFreeRow_eq_some hrow).2, ?_, ?_, ?_, .inl ⟨?_, ?_, ?_⟩⟩
  · rw [newDirectory_zero]
    rfl
  · intro x hx
    rw [List.mem_singleton.1 hx]
    exact (Fat.mem_freeClusters.1 hfree).2
  · rw [hc]
    exact .last (next_eq_endMark.2 (Fat.get_set_self _ hc512 _))
  · rw [newDirectory_zero]
    rfl
  · rwa [hc]
  · rw [hc]

theorem Inv.mkfile_added (h : Inv v live) (hp : r.parent ∈ live)
    (hrow : findFreeRow (v.table r.parent) = some row) (hfree : ∀ x ∈ c :: l, x ∈ v.fat.freeClusters)
    (hnd : (c :: l).Nodup) : Added v (v.apply (v.mkfile r row c l)) live live r row (newFile r c) (c :: l) := by
  have hlt : ∀ x ∈ c :: l, x < 512 := fun x hx => (Fat.mem_freeClusters.1 (hfree x hx)).1
  have hc512 := hlt c (by simp)
  refine ⟨h.mkfile_change hp hrow hfree, (findFreeRow_eq_some hrow).2, newFile_used r c,
    fun x hx => (Fat.mem_freeClusters.1 (hfree x hx)).2, ?_, .inr ⟨newFile_not_folder r c, rfl⟩⟩
  rw [newFile_cluster r hc512]
  exact Volume.linkFrom_chain (Fat.get_set_self _ hc512 _) hnd hlt

/-- The new row is the one with the name. -/
theorem Added.holds (ha : Added v v₁ live live₁ r row e l) (hp : r.parent ∈ live₁) : v₁.Holds live₁ r row := by
  have hself := ha.change.edit.table_self
  refine ⟨⟨hp, ha.change.row2, ?_⟩, ?_⟩
  · rw [hself]
    exact ha.used
  · rw [hself]
    exact ha.change.named ha.used

/-- A new folder is empty. -/
theorem Added.empty (ha : Added v v₁ live live₁ r row e l) (hf : e.Folder) (j : Fin 64) :
    ¬ v₁.LiveRow live₁ e.cluster j := by
  intro hj
  rcases ha.dirs with ⟨-, hnew, -⟩ | ⟨hno, -⟩
  · rcases ha.change.dirs _ hj.1 with ⟨hd, -⟩ | ⟨-, hempty⟩
    · exact hnew hd
    · exact hempty j hj.2.1 hj.2.2
  · exact hno hf

/-- **Adding an entry and removing it again** restores the volume. -/
theorem Added.restored (ha : Added v v₁ live live₁ r row e l) (h : Inv v live)
    (hr : Removed v₁ v₂ live₁ live₂ r row m) : Restored v v₂ live live₂ := by
  have hself : v₁.table r.parent row = e := ha.change.edit.table_self
  obtain rfl : m = l := by
    have hm := hr.chain
    rw [hself] at hm
    exact hm.unique ha.chain
  have hlive : live₂ = live := by
    rw [hr.dirs, hself]
    rcases ha.dirs with ⟨hf, hnew, he⟩ | ⟨hf, he⟩
    · rw [if_pos hf, he, Finset.erase_insert hnew]
    · rw [if_neg hf, he]
  have hsub : live ⊆ live₁ := by
    rcases ha.dirs with ⟨-, -, he⟩ | ⟨-, he⟩
    · rw [he]
      exact Finset.subset_insert _ _
    · rw [he]
  have hfat : v₂.fat = v.fat := by
    refine Fat.eq_of_get fun x => ?_
    rw [hr.fat]
    by_cases hx : x ∈ m
    · rw [if_pos hx, ha.free x hx]
    · rw [if_neg hx, ha.change.edit.fat x hx]
  have hrows : ∀ d ∈ live, ∀ i, ¬ (d = r.parent ∧ i = row) → v₂.table d i = v.table d i := by
    intro d hd i hne
    rw [hr.rows d (hlive ▸ hd) i hne]
    rcases ha.change.dirs d (hsub hd) with ⟨-, hdl⟩ | ⟨hno, -⟩
    · exact h.edit_table ha.change.edit hd hdl hne
    · exact absurd hd hno
  refine ⟨hfat, ?_, hlive, fun d hd i => ?_, fun d hd i hu => ?_⟩
  · have h₂ : readClusters v₂.disk fatClusterNumber = encodeFat v₂.fat := hr.synced
    rw [h₂, hfat]
    exact h.synced.symm
  · by_cases hdi : d = r.parent ∧ i = row
    · obtain ⟨rfl, rfl⟩ := hdi
      exact iff_of_false hr.unused ha.unused
    · rw [hrows d hd i hdi]
  · refine hrows d hd i ?_
    rintro ⟨rfl, rfl⟩
    exact ha.unused hu

end

/-- An ordinary `write` that is accepted adds an entry. -/
theorem write_adds {s : State} {live : Finset Nat} {r : Request} (h : Inv s.volume live)
    (ho : Ordinary s.volume live (.write r)) (hw : (write s r).1 = 0) : ∃ row e l,
      Added s.volume (write s r).2.volume live (liveAfter s live (.write r) 0) r row e l := by
  obtain ⟨hdoes, hout⟩ := write_outcome ho.1 (Or.inl ho.2.2.2)
  have hcode := hdoes.code
  rw [hw] at hcode
  rw [hdoes.volume]
  rw [← hcode] at hout
  generalize s.volume.write r = fx at hcode hout
  generalize liveAfter s live (.write r) 0 = live' at hout
  cases hout with
  | refused hne => exact absurd hcode.symm hne
  | lookup hop => rcases hop with ⟨_, he | he⟩ <;> cases he
  | mkdir hp _ hz hrow hfree => exact ⟨_, _, _, h.mkdir_added hp hz (ho.2.2.1 hz) hrow hfree⟩
  | mkfile hp _ _ hrow hfree hnd _ => exact ⟨_, _, _, h.mkfile_added hp hrow hfree hnd⟩

/-- **`delete` undoes `write`.** After any ordinary requests and a `write` that is accepted, a `delete` with the same
parent, name and extension returns 0, and then the table, in memory and on the disk, and the rows in use of every
directory are those from before the `write`. -/
theorem delete_undoes_write {s : State} {live : Finset Nat} {r : Request} (h : Run Ordinary s live)
    (ho : Ordinary s.volume live (.write r)) (hw : (write s r).1 = 0) :
    ∀ q : Request, q.parent = r.parent → q.name = r.name → q.ext = r.ext →
      ∃ t, (∀ fuel ≥ 512, delete fuel (write s r).2 q = some (0, t)) ∧ Restored s.volume t.volume live
        (liveAfter (write s r).2 (liveAfter s live (.write r) 0) (.delete q) 0) := by
  intro q hqp hqn hqe
  obtain ⟨row, e, l, ha⟩ := write_adds h.inv ho hw
  have h₁ := h.write ho
  rw [hw] at h₁
  have hp : r.parent ∈ liveAfter s live (.write r) 0 := by
    rcases ha.dirs with ⟨-, -, he⟩ | ⟨-, he⟩
    · rw [he]
      exact Finset.mem_insert_of_mem ho.1
    · rw [he]
      exact ho.1
  have hq : q.Named := by
    rw [Request.Named, hqn, hqe]
    exact ho.2.1
  obtain ⟨⟨code, t⟩, hret, hex⟩ := h₁.inv.delete_spec h₁.namesUnique (hqp ▸ hp) hq
  generalize liveAfter s live (.write r) 0 = live₁ at *
  have hholds : (write s r).2.volume.Holds live₁ q row := by
    have hh := ha.holds hp
    rw [Volume.Holds, hqp, hqn, hqe]
    exact hh
  -- the row is there, and it is no folder that holds something
  have hcode : code = 0 := by
    rcases hex.codes with h0 | h1 | h2
    · exact h0
    · exact absurd hholds (hex.absent.1 h1 row)
    · obtain ⟨i, hi, hf, j, hj⟩ := hex.full.1 h2
      obtain rfl := h₁.namesUnique.holds_unique hholds hi
      rw [hqp, ha.change.edit.table_self] at hf hj
      exact absurd hj (ha.empty hf j)
  subst hcode
  obtain ⟨i, m, hrem⟩ := hex.done rfl
  obtain rfl := h₁.namesUnique.holds_unique hholds hrem.holds
  exact ⟨t, hret, ha.restored h.inv (hrem.congr_request hqp hqn hqe)⟩

/-- A folder on a fresh volume. -/
theorem delete_undoes_mkdir : ∃ t, (∀ fuel ≥ 512,
      delete fuel (write (createFat32 blankState) folderRequest).2 folderRequest = some (0, t)) ∧
    Restored (createFat32 blankState).volume t.volume {rootClusterNumber}
      (liveAfter (write (createFat32 blankState) folderRequest).2
        (liveAfter (createFat32 blankState) {rootClusterNumber} (.write folderRequest) 0) (.delete folderRequest) 0) := by
  have hord := folderRequest_ordinary blankState
  refine delete_undoes_write (Run.format Ordinary blankState) hord ?_ folderRequest rfl rfl rfl
  rw [(write_does hord.2.2.2).code, createFat32_mkdir blankState rfl hord.2.1 rfl]
  rfl

end MoggersOs
