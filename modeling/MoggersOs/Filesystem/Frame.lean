import MoggersOs.Filesystem.Runs
/-
# What a request leaves alone

An ordinary `write` or `delete` either changes nothing or makes one `Change`: a row of the parent that
was unused or had the requested name, and clusters that were free or belonged to that row. Everything
that the other rows own stays (`Change.file`), and so does what `read` makes of it
(`other_files_undisturbed`).
-/

namespace MoggersOs

/-- One request turns `v` with directories `live` into `v'` with directories `live'`: row `row` of its
parent becomes `e`, and the clusters `l` go to it or are taken from it. -/
structure Change (v v' : Volume) (live live' : Finset Nat) (r : Request) (row : Fin 64) (e : DirEntry)
    (l : List Nat) : Prop where
  edit  : Edit v v' r.parent row e l
  row2  : 2 ≤ row.val
  /-- The row was unused or had the requested name. -/
  old   : (v.table r.parent row).Used → (v.table r.parent row).name = r.name ∧ (v.table r.parent row).ext = r.ext
  /-- The row is now unused and blank, or has the requested name. -/
  blank : ¬ e.Used → e.Blank
  named : e.Used → e.name = r.name ∧ e.ext = r.ext
  /-- A directory is an old one, untouched but for the row, or a new one without rows in use. -/
  dirs  : ∀ d ∈ live', d ∈ live ∧ d ∉ l ∨ d ∉ live ∧ ∀ i : Fin 64, 2 ≤ i.val → ¬ (v'.table d i).Used
  /-- A directory with a row in use stays. -/
  keep  : ∀ d i, v.LiveRow live d i → d ∈ live' ∧ d ∉ l
  /-- The other rows in use keep their chains. -/
  chain : ∀ d i m, v.LiveRow live d i → ¬ (d = r.parent ∧ i = row) →
    Lib.Chain v.next endMark (v.table d i).cluster m → ∀ x ∈ m, x ∉ l

/-- The name that `write` stores: a folder's row has no extension, whatever the request says. -/
def Request.stored (r : Request) : Request := if r.bufferSize = 0 then { r with ext := fun _ => 0 } else r

namespace Request

variable (r : Request)

@[simp] theorem stored_parent : r.stored.parent = r.parent := by unfold stored; split <;> rfl
@[simp] theorem stored_name : r.stored.name = r.name := by unfold stored; split <;> rfl
theorem stored_folder (hz : r.bufferSize = 0) : r.stored.ext = fun _ => 0 := by simp [stored, hz]
theorem stored_file (hz : r.bufferSize ≠ 0) : r.stored = r := by simp [stored, hz]

theorem stored_eq (he : r.bufferSize = 0 → r.ext = fun _ => 0) : r.stored = r := by
  unfold stored
  split
  · rename_i hz
    rw [← he hz]
  · rfl

end Request

/-- A free cluster is on nobody's chain. -/
theorem Inv.chain_notMem_free {v : Volume} {live : Finset Nat} {d : Nat} {i : Fin 64} {m : List Nat}
    (h : Inv v live) (hr : v.LiveRow live d i) (hm : Lib.Chain v.next endMark (v.table d i).cluster m) :
    ∀ x ∈ m, x ∉ v.fat.freeClusters := by
  intro x hx hfree
  obtain ⟨m', hm', -, hR⟩ := h.chain hr
  rw [hm.unique hm'] at hx
  exact hm'.next_ne_empty (by decide) (R := fun c => 3 ≤ c ∧ c < 512) (by simp) hR x hx (h.of_free hfree).2.2.1

/-- Of a directory that stays, only the row that changes is another one. -/
theorem Change.table_of_ne {v v' : Volume} {live : Finset Nat} {q : Request} {row : Fin 64} {x : DirEntry} {l : List Nat}
    {d : Nat} (h : Inv v live) (hch : Change v v' live live q row x l) (hd : d ∈ live) {j : Fin 64}
    (hne : ¬ (d = q.parent ∧ j = row)) : v'.table d j = v.table d j := by
  have hdl : d ∉ l := by
    rcases hch.dirs d hd with hd' | hd'
    · exact hd'.2
    · exact absurd hd hd'.1
  exact h.edit_table hch.edit hd hdl hne

/-- The other rows in use stay. -/
theorem Change.row_eq {v v' : Volume} {live live' : Finset Nat} {q : Request} {row : Fin 64} {x : DirEntry}
    {l : List Nat} {d : Nat} {j : Fin 64} (hch : Change v v' live live' q row x l) (h : Inv v live)
    (hr : v.LiveRow live d j) (hne : ¬ (d = q.parent ∧ j = row)) : v'.table d j = v.table d j :=
  h.edit_table hch.edit hr.1 (hch.keep d j hr).2 hne

/-- Another row is in use afterwards exactly if it was before. -/
theorem Change.liveRow_iff {v v' : Volume} {live live' : Finset Nat} {q : Request} {row : Fin 64} {x : DirEntry}
    {l : List Nat} {d : Nat} {j : Fin 64} (hch : Change v v' live live' q row x l) (h : Inv v live)
    (hne : ¬ (d = q.parent ∧ j = row)) : v'.LiveRow live' d j ↔ v.LiveRow live d j := by
  constructor
  · intro hr
    rcases hch.dirs d hr.1 with ⟨hd, hdl⟩ | ⟨-, hempty⟩
    · exact ⟨hd, hr.2.1, h.edit_table hch.edit hd hdl hne ▸ hr.2.2⟩
    · exact absurd hr.2.2 (hempty j hr.2.1)
  · intro hr
    exact ⟨(hch.keep d j hr).1, hr.2.1, (hch.row_eq h hr hne).symm ▸ hr.2.2⟩

/-- A request that fits and that no check stops is carried out. -/
theorem Inv.write_code {v : Volume} {live : Finset Nat} {r : Request} (h : Inv v live) (hfit : v.Fits r)
    (href : ¬ v.Refused r) : (v.write r).code = 0 := by
  obtain ⟨hd, ⟨row, hrow⟩, hf⟩ := Volume.not_refused href
  unfold Volume.Fits Volume.needed at hfit
  by_cases hz : r.bufferSize = 0
  · rw [if_pos hz] at hfit
    obtain ⟨c, l, hfree⟩ := List.exists_cons_of_length_pos (Nat.lt_of_lt_of_le Nat.one_pos hfit)
    have hc : c ≠ 0 := by
      have hc3 := (h.of_free (c := c) (by rw [hfree]; simp)).1
      omega
    simp [Volume.write, hd, hrow, hf, hz, hfree, hc, Volume.mkdir]
  · rw [if_neg hz] at hfit
    have hpos := clustersOf_pos hz
    obtain ⟨c, l, htake⟩ := List.exists_cons_of_length_pos
      (l := v.fat.freeClusters.take (clustersOf r.bufferSize.toNat)) (by rw [List.length_take]; omega)
    simp [Volume.write, hd, hrow, hf, hz, htake, Volume.mkfile]

/-- The request that a change is about: `write` fills an unused row, `delete` empties one. -/
def Fills (v : Volume) (op : Op) (q : Request) (row : Fin 64) (e : DirEntry) : Prop :=
  (∃ r, op = .write r ∧ ¬ v.Refused r ∧ q = r.stored) ∧ ¬ (v.table q.parent row).Used ∧ e.Used ∨
    op = .delete q ∧ ¬ e.Used

section change
variable {v : Volume} {live : Finset Nat} {r : Request} {row : Fin 64} {c : Nat} {l : List Nat} (h : Inv v live)
include h

theorem Inv.mkdir_change (hp : r.parent ∈ live) (hz : r.bufferSize = 0) (hrow : findFreeRow (v.table r.parent) = some row)
    (hfree : c ∈ v.fat.freeClusters) : Change v (v.apply (v.mkdir r row c)) live (insert c live) r.stored row
      (newDirectory r.name r.parent c 0) [c] := by
  obtain ⟨hp2, hp512, -⟩ := h.live_cluster hp
  obtain ⟨hrow2, hu⟩ := findFreeRow_eq_some hrow
  obtain ⟨hc3, hc512, -, hclive⟩ := h.of_free hfree
  have hne : ∀ d ∈ live, d ∉ [c] := fun d hd hm => hclive (List.mem_singleton.1 hm ▸ hd)
  have hnew : newDirectory r.name r.parent c 0 = (directoryEntry r.name r.parent).setCluster c :=
    newDirectory_zero r.name r.parent c
  refine ⟨?_, hrow2, ?_, ?_, ?_, ?_, ?_, ?_⟩
  · rw [r.stored_parent]
    exact mkdir_edit v r row hp2 hp512 (by omega) hc512 fun hcp => hclive (hcp ▸ hp)
  · rw [r.stored_parent]
    exact fun hx => absurd hx hu
  · rw [hnew]
    exact fun hx => absurd rfl hx
  · rw [hnew, r.stored_name, r.stored_folder hz]
    exact fun _ => ⟨rfl, rfl⟩
  · intro d hd
    rcases Finset.mem_insert.1 hd with rfl | hd
    · refine Or.inr ⟨hclive, fun i hi => ?_⟩
      rw [mkdir_table v r row hc512, newDirectory_of_ge _ _ _ hi]
      exact not_used_zeroEntry
    · exact Or.inl ⟨hd, hne d hd⟩
  · exact fun d i hr => ⟨Finset.mem_insert_of_mem hr.1, hne d hr.1⟩
  · intro d i m hr _ hm x hx hxc
    exact h.chain_notMem_free hr hm x hx (List.mem_singleton.1 hxc ▸ hfree)

theorem Inv.mkfile_change (hp : r.parent ∈ live) (hrow : findFreeRow (v.table r.parent) = some row)
    (hfree : ∀ x ∈ c :: l, x ∈ v.fat.freeClusters) :
    Change v (v.apply (v.mkfile r row c l)) live live r row (newFile r c) (c :: l) := by
  obtain ⟨hp2, hp512, -⟩ := h.live_cluster hp
  obtain ⟨hrow2, hu⟩ := findFreeRow_eq_some hrow
  have hne : ∀ d ∈ live, d ∉ c :: l := fun d hd hm => (h.of_free (hfree d hm)).2.2.2 hd
  refine ⟨mkfile_edit v r row hp2 hp512 fun x hx => ?_, hrow2,
    fun hx => absurd hx hu, fun hx => absurd (newFile_used r c) hx, fun _ => ⟨rfl, rfl⟩,
    fun d hd => Or.inl ⟨hd, hne d hd⟩, fun d i hr => ⟨hr.1, hne d hr.1⟩, ?_⟩
  · have hx' := h.of_free (hfree x hx)
    exact ⟨by omega, hx'.2.1⟩
  · exact fun d i m hr _ hm x hx hxl => h.chain_notMem_free hr hm x hx (hfree x hxl)

theorem Inv.rmdir_change (hr : v.LiveRow live r.parent row) (hf : findRow (v.table r.parent) r = some row)
    (hfo : (v.table r.parent row).Folder) (hc : (v.table r.parent row).cluster = c) (hempty : ∀ i, ¬ v.LiveRow live c i) :
    Change v (v.apply (v.rmdir r row c)) live (live.erase c) r row (clearEntry (v.table r.parent row)) [c] := by
  obtain ⟨hp2, hp512, -⟩ := h.live_cluster hr.1
  obtain ⟨hchain, hc3, hc512⟩ := h.folder_chain hr hfo
  rw [hc] at hc3 hc512
  refine ⟨rmdir_edit v r row hp2 hp512 (by omega) hc512 fun hcp => hempty row (hcp.symm ▸ hr), hr.2.1,
    fun _ => (findRow_eq_some hf).2, fun _ => ⟨rfl, (h.folder _ _ hr hfo).2.2.2⟩,
    fun hx => absurd hx (not_used_clearEntry _), ?_, ?_, ?_⟩
  · exact fun d hd => Or.inl ⟨Finset.mem_of_mem_erase hd, by simpa using Finset.ne_of_mem_erase hd⟩
  · intro d i hi
    have hne : d ≠ c := fun he => hempty i (he ▸ hi)
    exact ⟨Finset.mem_erase.2 ⟨hne, hi.1⟩, by simpa using hne⟩
  · intro d i m hi hdi hm x hx hxl
    rw [← hc] at hxl
    exact hdi (h.eq_of_mem hi hr hm hchain hx hxl)

theorem Inv.unlink_change (hr : v.LiveRow live r.parent row) (hf : findRow (v.table r.parent) r = some row)
    (hfo : ¬ (v.table r.parent row).Folder) (hl : Lib.Chain v.next endMark (v.table r.parent row).cluster l) :
    Change v (v.apply (v.unlink r row l)) live live r row zeroEntry l := by
  obtain ⟨hp2, hp512, -⟩ := h.live_cluster hr.1
  have hR : ∀ x ∈ l, 3 ≤ x ∧ x < 512 := by
    obtain ⟨l', hl', -, hR⟩ := h.chain hr
    rwa [hl.unique hl']
  have hne : ∀ d ∈ live, d ∉ l := fun d hd => h.live_notMem hr hfo hl hd
  refine ⟨unlink_edit v r row hp2 hp512 (fun x hx => ?_) hl.ne_nil (hne _ hr.1), hr.2.1,
    fun _ => (findRow_eq_some hf).2, fun _ => blank_zeroEntry, fun hx => absurd hx not_used_zeroEntry,
    fun d hd => Or.inl ⟨hd, hne d hd⟩, fun d i hi => ⟨hi.1, hne d hi.1⟩, ?_⟩
  · have hx' := hR x hx
    exact ⟨by omega, hx'.2⟩
  · exact fun d i m hi hdi hm x hx hxl => hdi (h.eq_of_mem hi hr hm hl hx hxl)

/-- The four edits are changes. -/
theorem Outcome.change {op : Op} {fx : Effect} {live' : Finset Nat} (ho : Outcome v live op fx live') :
    v.apply fx = v ∧ live' = live ∨ ∃ q row e l, Fills v op q row e ∧ q.parent ∈ live ∧
      Change v (v.apply fx) live live' q row e l := by
  cases ho with
  | refused _ => exact Or.inl ⟨rfl, rfl⟩
  | lookup _ => exact Or.inl ⟨rfl, rfl⟩
  | @mkdir r row c hp href hz hrow hfree =>
    refine Or.inr ⟨r.stored, row, _, _, Or.inl ⟨⟨r, rfl, href, rfl⟩, ?_, ?_⟩, ?_, h.mkdir_change hp hz hrow hfree⟩
    · exact r.stored_parent ▸ (findFreeRow_eq_some hrow).2
    · rw [newDirectory_zero]
      rfl
    · exact r.stored_parent ▸ hp
  | @mkfile r row c l hp href hz hrow hfree _ _ =>
    exact Or.inr ⟨r, row, _, _, Or.inl ⟨⟨r, rfl, href, (r.stored_file hz).symm⟩, (findFreeRow_eq_some hrow).2,
      newFile_used r c⟩, hp, h.mkfile_change hp hrow hfree⟩
  | @rmdir r row c hr hf hfo hc hempty =>
    exact Or.inr ⟨r, row, _, _, Or.inr ⟨rfl, not_used_clearEntry _⟩, hr.1, h.rmdir_change hr hf hfo hc hempty⟩
  | @unlink r row l hr hf hfo hl =>
    exact Or.inr ⟨r, row, _, _, Or.inr ⟨rfl, not_used_zeroEntry⟩, hr.1, h.unlink_change hr hf hfo hl⟩

end change

/-- **A safe request changes nothing or makes one change.** -/
theorem safe_change {s s' : State} {live : Finset Nat} {op : Op} {fuel : Nat} {rep : Reply}
    (h : Inv s.volume live) (hs : Safe s.volume live op) (hx : exec fuel s op = some (rep, s')) :
    s'.volume = s.volume ∧ liveAfter s live op rep.code = live ∨
    ∃ q row e l, Fills s.volume op q row e ∧ q.parent ∈ live ∧
      Change s.volume s'.volume live (liveAfter s live op rep.code) q row e l := by
  obtain ⟨fx, ho, -, hv, -⟩ := exec_outcome h hs hx
  rw [hv]
  exact ho.change h

/-- **A request changes nothing or makes one change.** -/
theorem exec_change {s s' : State} {live : Finset Nat} {op : Op} {fuel : Nat} {rep : Reply}
    (h : Inv s.volume live) (ho : Ordinary s.volume live op) (hx : exec fuel s op = some (rep, s')) :
    s'.volume = s.volume ∧ liveAfter s live op rep.code = live ∨
    ∃ r row e l, (op = .write r ∨ op = .delete r) ∧ r.parent ∈ live ∧ r.Named ∧
      Change s.volume s'.volume live (liveAfter s live op rep.code) r row e l := by
  rcases safe_change h (ho.safe h) hx with hno | ⟨q, row, e, l, hfills, hp, hch⟩
  · exact Or.inl hno
  · rcases hfills with ⟨⟨r, rfl, -, rfl⟩, -⟩ | ⟨rfl, -⟩
    · rw [r.stored_eq ho.2.2.1] at hch
      exact Or.inr ⟨r, row, e, l, Or.inl rfl, ho.1, ho.2.1, hch⟩
    · exact Or.inr ⟨q, row, e, l, Or.inr rfl, hp, ho.2, hch⟩

/-! ## Rows in use have names -/

/-- No row in use is blank. -/
def RowsNamed (v : Volume) (live : Finset Nat) : Prop := ∀ d i, v.LiveRow live d i → ¬ (v.table d i).Blank

theorem Change.rowsNamed {v v' : Volume} {live live' : Finset Nat} {r : Request} {row : Fin 64} {e : DirEntry}
    {l : List Nat} (hch : Change v v' live live' r row e l) (h : Inv v live) (hr : r.Named)
    (hn : RowsNamed v live) : RowsNamed v' live' := by
  intro d i hd hb
  rcases hch.dirs d hd.1 with ⟨hdl, hdn⟩ | ⟨-, hempty⟩
  · by_cases hdi : d = r.parent ∧ i = row
    · obtain ⟨rfl, rfl⟩ := hdi
      obtain ⟨-, -, hu⟩ := hd
      rw [hch.edit.table_self] at hu hb
      obtain ⟨hname, hext⟩ := hch.named hu
      exact hr ⟨hname.symm.trans hb.1, hext.symm.trans hb.2⟩
    · have hrow := h.edit_table hch.edit hdl hdn hdi
      rw [hrow] at hb
      exact hn d i ⟨hdl, hd.2.1, hrow ▸ hd.2.2⟩ hb
  · exact hempty i hd.2.1 hd.2.2

theorem Outcome.rowsNamed {v : Volume} {live live' : Finset Nat} {op : Op} {fx : Effect} (h : Inv v live)
    (hn : RowsNamed v live) (ho : Ordinary v live op) (hout : Outcome v live op fx live') :
    RowsNamed (v.apply fx) live' := by
  rcases hout.change h with ⟨hv, hl⟩ | ⟨q, row, e, l, hfills, -, hch⟩
  · rw [hv, hl]
    exact hn
  · have hq : q.Named := by
      rcases hfills with ⟨⟨r, rfl, -, rfl⟩, -⟩ | ⟨rfl, -⟩
      · rw [r.stored_eq ho.2.2.1]
        exact ho.2.1
      · exact ho.2
    exact hch.rowsNamed h hq hn

/-- **In a run of ordinary requests every row in use has a name.** -/
theorem Run.rowsNamed {s : State} {live : Finset Nat} (h : Run Ordinary s live) : RowsNamed s.volume live := by
  obtain ⟨s₀, tr, hpath⟩ := h
  have h₀ : RowsNamed (createFat32 s₀).volume {rootClusterNumber} := by
    rintro d i ⟨hd, hi, hu⟩
    rw [Finset.mem_singleton.1 hd, createFat32_table s₀, formattedRoot_of_ge hi] at hu
    exact absurd hu not_used_zeroEntry
  exact (Step.path_invariant Ordinary.safe (fun hinv hn hk ho => ho.rowsNamed hinv hn hk) h₀ hpath).2

/-! ## Other files -/

theorem deliver_congr {d d' : Disk} : ∀ {l : List Nat} {b : Nat → UInt8} {k : Nat},
    (∀ x ∈ l, readClusters d' x = readClusters d x) → Volume.deliver d' b k l = Volume.deliver d b k l
  | [], _, _, _ => rfl
  | c :: l, b, k, h => by
    rw [Volume.deliver, Volume.deliver, h c (by simp)]
    exact deliver_congr fun x hx => h x (List.mem_cons_of_mem _ hx)

/-- Where the memory was alike, what is delivered is alike. -/
theorem deliver_apply_congr {d : Disk} {a : Nat} : ∀ {l : List Nat} {b b' : Nat → UInt8} {k : Nat}, b a = b' a →
    Volume.deliver d b k l a = Volume.deliver d b' k l a
  | [], _, _, _, h => h
  | c :: l, b, b', k, h => by
    rw [Volume.deliver, Volume.deliver]
    refine deliver_apply_congr ?_
    unfold blit
    split
    · rfl
    · exact h

section file
variable {v v' : Volume} {live live' : Finset Nat} {r : Request} {row : Fin 64} {e : DirEntry} {l : List Nat}
variable {d : Nat} {i : Fin 64} (hch : Change v v' live live' r row e l) (h : Inv v live) (hp : r.parent ∈ live)
include hch

/-- The row that changes is no row in use that the request does not name. -/
theorem Change.ne_row (hF : v.LiveRow live d i)
    (hname : ¬ (r.parent = d ∧ r.name = (v.table d i).name ∧ r.ext = (v.table d i).ext)) :
    ¬ (d = r.parent ∧ i = row) := by
  rintro ⟨rfl, rfl⟩
  obtain ⟨hn, he⟩ := hch.old hF.2.2
  exact hname ⟨rfl, hn.symm, he.symm⟩

/-- After the change the row does not match another name. -/
theorem Change.new_differs {q : Request} (hq : q.Named) (hname : ¬ (r.name = q.name ∧ r.ext = q.ext)) :
    sameName e q = false := by
  rw [Bool.eq_false_iff, ne_eq, sameName_iff]
  rintro ⟨hn, he⟩
  by_cases hu : e.Used
  · obtain ⟨hn', he'⟩ := hch.named hu
    exact hname ⟨hn'.symm.trans hn, he'.symm.trans he⟩
  · obtain ⟨hn', he'⟩ := hch.blank hu
    exact hq ⟨hn.symm.trans hn', he.symm.trans he'⟩

include h hp

/-- Nor did it before. -/
theorem Change.old_differs {q : Request} (hq : q.Named) (hname : ¬ (r.name = q.name ∧ r.ext = q.ext)) :
    sameName (v.table r.parent row) q = false := by
  rw [Bool.eq_false_iff, ne_eq, sameName_iff]
  rintro ⟨hn, he⟩
  by_cases hu : (v.table r.parent row).Used
  · obtain ⟨hn', he'⟩ := hch.old hu
    exact hname ⟨hn'.symm.trans hn, he'.symm.trans he⟩
  · obtain ⟨hn', he'⟩ := h.unused _ hp row hch.row2 hu
    exact hq ⟨hn.symm.trans hn', he.symm.trans he'⟩

/-- **The row of another file stays**, with its chain and its contents. -/
theorem Change.file_of_ne (hF : v.LiveRow live d i) (hfile : ¬ (v.table d i).Folder) (hdi : ¬ (d = r.parent ∧ i = row)) :
    v'.table d i = v.table d i ∧ ∃ m, Lib.Chain v.next endMark (v.table d i).cluster m ∧
      Lib.Chain v'.next endMark (v.table d i).cluster m ∧ (∀ x ∈ m, x < 512) ∧
      ∀ x ∈ m, v'.fat.get x = v.fat.get x ∧ readClusters v'.disk x = readClusters v.disk x := by
  obtain ⟨m, hm, -, hR⟩ := h.chain hF
  have hoff := hch.chain d i m hF hdi hm
  have hpm : r.parent ∉ m := h.live_notMem hF hfile hm hp
  have h1 : fatClusterNumber = 1 := rfl
  refine ⟨h.edit_table hch.edit hF.1 (hch.keep d i hF).2 hdi, m, hm,
    hm.congr fun x hx => hch.edit.next (hoff x hx), fun x hx => (hR x hx).2, fun x hx => ?_⟩
  have hx' := hR x hx
  exact ⟨hch.edit.fat x (hoff x hx),
    hch.edit.disk x (by omega) (by omega) (fun he => hpm (he ▸ hx)) (hoff x hx)⟩

/-- **The row of a file that the request does not name stays**, with its chain and its contents. -/
theorem Change.file (hF : v.LiveRow live d i) (hfile : ¬ (v.table d i).Folder)
    (hname : ¬ (r.parent = d ∧ r.name = (v.table d i).name ∧ r.ext = (v.table d i).ext)) :
    v'.table d i = v.table d i ∧ ∃ m, Lib.Chain v.next endMark (v.table d i).cluster m ∧
      Lib.Chain v'.next endMark (v.table d i).cluster m ∧ (∀ x ∈ m, x < 512) ∧
      ∀ x ∈ m, v'.fat.get x = v.fat.get x ∧ readClusters v'.disk x = readClusters v.disk x :=
  hch.file_of_ne h hp hF hfile (hch.ne_row hF hname)

/-- The search of `read` for another name finds the same row before and after. -/
theorem Change.findAnyRow {q : Request} (hd : d ∈ live) (hdl : d ∉ l) (hq : q.Named)
    (hname : ¬ (r.parent = d ∧ r.name = q.name ∧ r.ext = q.ext)) :
    Volume.findAnyRow (v'.table d) q = Volume.findAnyRow (v.table d) q := by
  have hrow : ∀ j, sameName (v'.table d j) q = sameName (v.table d j) q := by
    intro j
    by_cases hdj : d = r.parent ∧ j = row
    · obtain ⟨rfl, rfl⟩ := hdj
      have hne : ¬ (r.name = q.name ∧ r.ext = q.ext) := fun hx => hname ⟨rfl, hx⟩
      rw [hch.edit.table_self, hch.new_differs hq hne, hch.old_differs h hp hq hne]
    · rw [h.edit_table hch.edit hd hdl hdj]
  simp only [Volume.findAnyRow, hrow]

/-- **`read` under another name replies alike before and after.** -/
theorem Change.read {q : Request} (hqd : q.parent ∈ live) (hdl : q.parent ∉ l) (hq : q.Named)
    (hname : ¬ (r.parent = q.parent ∧ r.name = q.name ∧ r.ext = q.ext)) : v'.read q = v.read q := by
  have hfind := hch.findAnyRow h hp hqd hdl hq hname
  have h0 : v'.table q.parent 0 = v.table q.parent 0 := by
    refine h.edit_table hch.edit hqd hdl ?_
    rintro ⟨-, h0⟩
    have hrow := hch.row2
    rw [← h0] at hrow
    exact absurd hrow (by decide)
  unfold Volume.read
  dsimp only
  rw [h0, hfind]
  cases hf : Volume.findAnyRow (v.table q.parent) q with
  | none => rfl
  | some j =>
    have hsame := Fin.eq_true_of_find?_eq_some hf
    obtain ⟨hn, he⟩ := sameName_iff.1 hsame
    have hdj : ¬ (q.parent = r.parent ∧ j = row) := by
      rintro ⟨hpp, rfl⟩
      have hne : ¬ (r.name = q.name ∧ r.ext = q.ext) := fun hx => hname ⟨hpp.symm, hx⟩
      rw [hpp] at hsame
      exact absurd hsame (by rw [hch.old_differs h hp hq hne]; decide)
    have hj := h.edit_table hch.edit hqd hdl hdj
    by_cases hfo : (v.table q.parent j).Folder
    · have hfo' : (v.table q.parent j).attr = attrSubdirectory := hfo
      simp only [hj, hfo', if_true]
    · -- the row that is found is a file in use, and the request does not name it
      have hj2 : 2 ≤ j.val := h.row_of_not_folder hqd hfo
      have hF : v.LiveRow live q.parent j := ⟨hqd, hj2, h.used_of_named hqd hq hj2 hn he⟩
      obtain ⟨-, m, hm, hm', hlt, hsame'⟩ := hch.file h hp hF hfo (by rw [hn, he]; exact hname)
      simp only [hj, chain_eq hm hlt, chain_eq hm' hlt, deliver_congr fun x hx => (hsame' x hx).2]

end file

/-- **Requests do not disturb other files.** After any ordinary requests, a `write` or `delete` that
does not name the file in row `i` of directory `d` leaves that row, the chain of the file and the
contents of every cluster on it as they were, and `read` of the file replies alike before and after. -/
theorem other_files_undisturbed {s s' : State} {live : Finset Nat} {d : Nat} {i : Fin 64} {op : Op} {r : Request}
    {fuel : Nat} {rep : Reply} (h : Run Ordinary s live) (hF : s.volume.LiveRow live d i)
    (hfile : (s.volume.table d i).attr ≠ attrSubdirectory) (hop : op = .write r ∨ op = .delete r)
    (ho : Ordinary s.volume live op)
    (hname : ¬ (r.parent = d ∧ r.name = (s.volume.table d i).name ∧ r.ext = (s.volume.table d i).ext))
    (hx : exec fuel s op = some (rep, s')) :
    s'.volume.LiveRow (liveAfter s live op rep.code) d i ∧ s'.volume.table d i = s.volume.table d i ∧
    (∃ m, Lib.Chain s.volume.next endMark (s.volume.table d i).cluster m ∧
      Lib.Chain s'.volume.next endMark (s'.volume.table d i).cluster m ∧
      ∀ x ∈ m, s'.fatTable.get x = s.fatTable.get x ∧ readClusters s'.disk x = readClusters s.disk x) ∧
    ∀ q : Request, q.parent = d → q.name = (s.volume.table d i).name → q.ext = (s.volume.table d i).ext →
      ∀ n ≥ 512, ∃ reply t t', read n s q = some (reply, t) ∧ read n s' q = some (reply, t') := by
  have hinv := h.inv
  have hinv' := exec_inv hinv (ho.safe hinv) hx
  have hnamed := h.rowsNamed d i hF
  -- `read` of the file is an ordinary request in both states
  have hread : ∀ {t : State} {live' : Finset Nat}, Inv t.volume live' → d ∈ live' → ∀ q : Request, q.parent = d →
      q.name = (s.volume.table d i).name → q.ext = (s.volume.table d i).ext → ∀ n ≥ 512,
      ∃ t', read n t q = some (t.volume.read q, t') := by
    intro t live' ht hd q hq hn he n hfuel
    have hq' : q.Named := fun hb => hnamed ⟨hn.symm.trans hb.1, he.symm.trans hb.2⟩
    have hord : Ordinary t.volume live' (.read q) := ⟨hq.symm ▸ hd, hq'⟩
    obtain ⟨t', ht', -⟩ := exec_eq hfuel ht hord
    exact ⟨t', ht'⟩
  rcases exec_change hinv ho hx with ⟨hv, hl⟩ | ⟨r', row, e, l, hop', hp, -, hch⟩
  · obtain ⟨m, hm, -, -⟩ := hinv.chain hF
    have hfat : s'.fatTable = s.fatTable := congrArg Volume.fat hv
    have hdisk : s'.disk = s.disk := congrArg Volume.disk hv
    refine ⟨by rw [hv, hl]; exact hF, by rw [hv], ⟨m, hm, by rw [hv]; exact hm, fun x _ => ?_⟩, ?_⟩
    · rw [hfat, hdisk]
      exact ⟨rfl, rfl⟩
    · intro q hq hn he n hfuel
      obtain ⟨t, ht⟩ := hread hinv hF.1 q hq hn he n hfuel
      obtain ⟨t', ht'⟩ := hread hinv' (hl.symm ▸ hF.1) q hq hn he n hfuel
      rw [hv] at ht'
      exact ⟨_, t, t', ht, ht'⟩
  · obtain rfl : r' = r := by
      rcases hop with rfl | rfl <;> rcases hop' with he | he <;> cases he <;> rfl
    obtain ⟨hrow, m, hm, hm', -, hsame⟩ := hch.file hinv hp hF hfile hname
    obtain ⟨hd', hdl⟩ := hch.keep d i hF
    refine ⟨⟨hd', hF.2.1, by rw [hrow]; exact hF.2.2⟩, hrow, ⟨m, hm, by rw [hrow]; exact hm', hsame⟩, ?_⟩
    intro q hq hn he n hfuel
    obtain ⟨t, ht⟩ := hread hinv hF.1 q hq hn he n hfuel
    obtain ⟨t', ht'⟩ := hread hinv' hd' q hq hn he n hfuel
    have hq' : q.Named := fun hb => hnamed ⟨hn.symm.trans hb.1, he.symm.trans hb.2⟩
    rw [hch.read hinv hp (hq.symm ▸ hF.1) (hq.symm ▸ hdl) hq' (by rw [hq, hn, he]; exact hname)] at ht'
    exact ⟨_, t, t', ht, ht'⟩

/-- A fresh volume with a file of five bytes in row 2 of the root. -/
def withFile : State := (write (createFat32 blankState) (fileRequest 5)).2

theorem fileRequest_ordinary (s : State) :
    Ordinary (createFat32 s).volume {rootClusterNumber} (.write (fileRequest 5)) := by
  refine ⟨by decide, by decide, fun _ => rfl, ?_⟩
  rw [createFat32_fits]
  decide

theorem withFile_run : Run Ordinary withFile {rootClusterNumber} := by
  have hrun := (Run.format Ordinary blankState).write (fileRequest_ordinary blankState)
  rwa [liveAfter_mkfile (by decide)] at hrun

theorem withFile_volume : withFile.volume =
    (createFat32 blankState).volume.apply ((createFat32 blankState).volume.mkfile (fileRequest 5) 2 3 []) := by
  have hvol := (write_does (fileRequest_ordinary blankState).2.2.2).volume
  rwa [createFat32_mkfile blankState (k := 0) rfl (by decide) rfl (by decide)] at hvol

theorem withFile_row : withFile.volume.table rootClusterNumber 2 = newFile (fileRequest 5) 3 := by
  rw [withFile_volume]
  exact (mkfile_edit _ (fileRequest 5) 2 (c := 3) (l := []) (by decide) (by decide) (by decide)).table_self

theorem folderRequest_ordinary_withFile :
    Ordinary withFile.volume {rootClusterNumber} (.write folderRequest) := by
  refine ⟨by decide, by decide, fun _ => rfl, ?_⟩
  have hfree : 4 ∈ withFile.volume.fat.freeClusters := by
    rw [Fat.mem_freeClusters, withFile_volume]
    exact ⟨by decide, by decide⟩
  exact List.length_pos_of_mem hfree

/-- `mkdir a` beside the file. -/
theorem folder_beside_file : withFile.volume.LiveRow {rootClusterNumber} rootClusterNumber 2 ∧
    (write withFile folderRequest).2.volume.table rootClusterNumber 2 = withFile.volume.table rootClusterNumber 2 := by
  have hrow : withFile.volume.LiveRow {rootClusterNumber} rootClusterNumber 2 :=
    ⟨by decide, by decide, by rw [withFile_row]; exact newFile_used _ _⟩
  refine ⟨hrow, (other_files_undisturbed withFile_run hrow ?_ (Or.inl rfl) folderRequest_ordinary_withFile ?_
    (show exec 0 withFile (.write folderRequest) = _ from rfl)).2.1⟩
  · rw [withFile_row]
    exact newFile_not_folder _ _
  · rw [withFile_row]
    exact fun hx => absurd (congrFun hx.2.1 0) (by decide)

end MoggersOs
