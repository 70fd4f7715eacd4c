import MoggersOs.Filesystem.Frame
/-
# Looking a name up

The four operations each have their own search: `read` starts at row 0 and compares name and extension,
`read_directory` starts at row 0 and compares the name only, `write` and `delete` start at row 2 and compare both
(`fat32.c:140-147`, `177-181`, `243-249`, `387-406`). All of them stop at the first match. `ResolvesAlike` says
that for one entry they nevertheless all find that entry; `resolvesAlike_iff` says when: no earlier row, the
directory's own two included, has the name (and, for a file, the extension).

| here | there |
| --- | --- |
| `Names`         | the fields of a request that name a row |
| `ResolvesAlike` | what each operation should make of a request that names the row (`fat32.h:217-248`) |
| `Shadows`       | an earlier row that one of the searches stops at |
-/

namespace MoggersOs

/-- The request names the row: its directory, its name and its extension. -/
structure Names (q : Request) (v : Volume) (d : Nat) (i : Fin 64) : Prop where
  parent : q.parent = d
  name   : q.name = (v.table d i).name
  ext    : q.ext = (v.table d i).ext

/-- All four operations resolve the row's name to row `i` of directory `d`. -/
structure ResolvesAlike (s : State) (d : Nat) (i : Fin 64) : Prop where
  read : ¬ (s.volume.table d i).Folder → ∀ q : Request, Names q s.volume d i →
    (s.volume.table d i).filesize ≤ q.bufferSize →
    ∃ l s', Lib.Chain s.volume.next endMark (s.volume.table d i).cluster l ∧
      read 512 s q = some (⟨0, Volume.deliver s.disk q.buf 0 l⟩, s')
  readDirectory : (s.volume.table d i).Folder → ∀ q : Request, q.parent = d → q.name = (s.volume.table d i).name →
    (readDirectory s q).1 = ⟨0, blit q.buf 0 (readClusters s.disk (s.volume.table d i).cluster)⟩
  write : ∀ q : Request, Names q s.volume d i → (write s q).1 ≠ 0 ∧ (write s q).2.volume = s.volume
  delete : ∀ q : Request, Names q s.volume d i → ∃ code s', delete 512 s q = some (code, s') ∧
    if (s.volume.table d i).Folder ∧ occupied (s.volume.table (s.volume.table d i).cluster) = true then
      code = 2 ∧ s'.volume = s.volume
    else code = 0 ∧ s'.volume.table d = Function.update (s.volume.table d) i (s'.volume.table d i) ∧
      ¬ (s'.volume.table d i).Used

/-- Row `j` comes before row `i` and has its name, and its extension unless row `i` is a folder. -/
def Shadows (t : Table) (i j : Fin 64) : Prop :=
  j < i ∧ (t j).name = (t i).name ∧ ((t i).Folder ∨ (t j).ext = (t i).ext)

/-! ## Rows that are not in use, and files without a name -/

/-- An unused row does not look like a folder, and a file has a name. -/
def RowsPlain (v : Volume) (live : Finset Nat) : Prop := ∀ d ∈ live, ∀ i : Fin 64, 2 ≤ i.val →
  (¬ (v.table d i).Used → ¬ (v.table d i).Folder) ∧ ((v.table d i).Used → (v.table d i).Blank → (v.table d i).Folder)

theorem not_folder_zeroEntry : ¬ zeroEntry.Folder := by
  intro h
  exact absurd (show (0 : UInt8) = attrSubdirectory from h) (by decide)

theorem not_folder_clearEntry (e : DirEntry) : ¬ (clearEntry e).Folder := by
  intro h
  exact absurd (show (0 : UInt8) = attrSubdirectory from h) (by decide)

/-- A change that puts a plain row in place and starts new directories empty. -/
theorem RowsPlain.change {v v' : Volume} {live live' : Finset Nat} {q : Request} {row : Fin 64} {e : DirEntry}
    {l : List Nat} (hpl : RowsPlain v live) (h : Inv v live) (hch : Change v v' live live' q row e l)
    (he : (¬ e.Used → ¬ e.Folder) ∧ (e.Used → e.Blank → e.Folder))
    (hnew : ∀ d ∈ live', d ∉ live → ∀ i : Fin 64, 2 ≤ i.val → v'.table d i = zeroEntry) : RowsPlain v' live' := by
  intro d hd i hi
  rcases hch.dirs d hd with ⟨hdl, hdn⟩ | ⟨hdl, -⟩
  · by_cases hdi : d = q.parent ∧ i = row
    · obtain ⟨rfl, rfl⟩ := hdi
      rw [hch.edit.table_self]
      exact he
    · rw [h.edit_table hch.edit hdl hdn hdi]
      exact hpl d hdl i hi
  · rw [hnew d hd hdl i hi]
    exact ⟨fun _ => not_folder_zeroEntry, fun hu => absurd hu not_used_zeroEntry⟩

theorem Outcome.rowsPlain {v : Volume} {live live' : Finset Nat} {op : Op} {fx : Effect} (h : Inv v live)
    (hpl : RowsPlain v live) (ho : Outcome v live op fx live') : RowsPlain (v.apply fx) live' := by
  cases ho with
  | refused _ => exact hpl
  | lookup _ => exact hpl
  | @mkdir r row c hp href hz hrow hfree =>
    obtain ⟨-, hc512, -, -⟩ := h.of_free hfree
    refine hpl.change h (h.mkdir_change hp hz hrow hfree) ?_ fun d hd hdl i hi => ?_
    · rw [newDirectory_zero]
      exact ⟨fun hu => absurd rfl hu, fun _ _ => rfl⟩
    · obtain rfl : d = c := (Finset.mem_insert.1 hd).resolve_right hdl
      rw [mkdir_table v r row hc512, newDirectory_of_ge _ _ _ hi]
  | @mkfile r row c l hp href hz hrow hfree _ _ =>
    refine hpl.change h (h.mkfile_change hp hrow hfree) ⟨fun hu => absurd (newFile_used r c) hu, fun _ hb => ?_⟩
      fun d hd hdl => absurd hd hdl
    -- a request without a name is refused, since the unused row has none either
    obtain ⟨hrow2, hu⟩ := findFreeRow_eq_some hrow
    obtain ⟨hname, hext⟩ := h.unused _ hp row hrow2 hu
    exact absurd ⟨hname.trans hb.1.symm, hext.trans hb.2.symm⟩ (findRow_eq_none (Volume.not_refused href).2.2 hrow2)
  | @rmdir r row c hr hf hfo hc hempty =>
    exact hpl.change h (h.rmdir_change hr hf hfo hc hempty) ⟨fun _ => not_folder_clearEntry _,
      fun hu => absurd hu (not_used_clearEntry _)⟩ fun d hd hdl => absurd (Finset.mem_of_mem_erase hd) hdl
  | @unlink r row l hr hf hfo hl =>
    exact hpl.change h (h.unlink_change hr hf hfo hl) ⟨fun _ => not_folder_zeroEntry,
      fun hu => absurd hu not_used_zeroEntry⟩ fun d hd hdl => absurd hd hdl

theorem Run.rowsPlain {s : State} {live : Finset Nat} (h : Run Safe s live) :
    Inv s.volume live ∧ RowsPlain s.volume live := by
  obtain ⟨s₀, tr, hpath⟩ := h
  have h₀ : RowsPlain (createFat32 s₀).volume {rootClusterNumber} := by
    intro d hd i hi
    rw [Finset.mem_singleton.1 hd, createFat32_table s₀, formattedRoot_of_ge hi]
    exact ⟨fun _ => not_folder_zeroEntry, fun hu => absurd hu not_used_zeroEntry⟩
  exact Step.path_invariant (fun _ hk => hk) (fun hinv hpl _ ho => ho.rowsPlain hinv hpl) h₀ hpath

/-! ## The tree has no short circuits -/

/-- A folder is neither its own directory nor that directory's parent. -/
theorem Inv.folder_ne {v : Volume} {live : Finset Nat} {d : Nat} {i : Fin 64} (h : Inv v live)
    (hr : v.LiveRow live d i) (hf : (v.table d i).Folder) :
    (v.table d i).cluster ≠ d ∧ (v.table d i).cluster ≠ (v.table d 1).cluster := by
  obtain ⟨hc, -, hup, -⟩ := h.folder d i hr hf
  have h3 := (h.folder_chain hr hf).2.1
  have h2 : rootClusterNumber = 2 := rfl
  have hd2 : d ≠ rootClusterNumber ∨ (v.table d 1).cluster = rootClusterNumber := by
    by_cases hd : d = rootClusterNumber
    · right
      rw [hd]
      exact h.rootUp
    · exact .inl hd
  -- from the folder the way up would stay in the folder and its directory
  have hstay : (v.table d i).cluster = d ∨ (v.table d i).cluster = (v.table d 1).cluster → ∀ k,
      (fun e => (v.table e 1).cluster)^[k] (v.table d i).cluster = (v.table d i).cluster ∨
      (fun e => (v.table e 1).cluster)^[k] (v.table d i).cluster = d := by
    intro hcyc k
    induction k with
    | zero => exact .inl rfl
    | succ k ih =>
      rw [Function.iterate_succ_apply']
      rcases ih with he | he
      · rw [he]
        exact .inr hup
      · rw [he]
        rcases hcyc with hcd | hcd
        · refine .inr ?_
          rw [hcd] at hup
          exact hup
        · exact .inl hcd.symm
  obtain ⟨k, hk⟩ := h.rooted.reach _ hc
  have hno : ¬ ((v.table d i).cluster = d ∨ (v.table d i).cluster = (v.table d 1).cluster) := by
    intro hcyc
    rcases hstay hcyc k with he | he
    · rw [hk] at he
      omega
    · rw [hk] at he
      have hup' : (v.table d 1).cluster = rootClusterNumber := hd2.resolve_left (not_not_intro he.symm)
      rcases hcyc with hcd | hcd
      · omega
      · omega
  exact ⟨fun he => hno (.inl he), fun he => hno (.inr he)⟩

/-- A folder among the rows of a directory, its own two included, leads to a directory of that cluster. -/
theorem Inv.self_cluster {v : Volume} {live : Finset Nat} {d : Nat} {j : Fin 64} (h : Inv v live)
    (hpl : RowsPlain v live) (hd : d ∈ live) (hf : (v.table d j).Folder) :
    (v.table (v.table d j).cluster 0).cluster = (v.table d j).cluster := by
  by_cases hj : 2 ≤ j.val
  · have hu : (v.table d j).Used := by
      by_contra hu
      exact (hpl d hd j hj).1 hu hf
    rw [(h.folder d j ⟨hd, hj, hu⟩ hf).2.1]
  · have hcases : j = 0 ∨ j = 1 := by omega
    rcases hcases with rfl | rfl
    · rw [(h.self d hd).2.2.1, (h.self d hd).2.2.1]
    · exact (h.self _ (h.rooted.closed d hd)).2.2.1

theorem blit_injective {b : Nat → UInt8} {x y : Cluster} (h : blit b 0 x = blit b 0 y) : x = y := by
  funext i
  have hi := congrFun h i.val
  simpa [blit] using hi

/-! ## The four searches -/

/-- What a reply with code 0 says. -/
theorem read_code_zero {v : Volume} {q : Request} (hc : (v.read q).code = 0) :
    ∃ k, Volume.findAnyRow (v.table q.parent) q = some k ∧ ¬ (v.table q.parent k).Folder := by
  unfold Volume.read at hc
  dsimp only at hc
  split at hc
  · simp at hc
  · split at hc
    · simp at hc
    · rename_i k hk
      split at hc
      · simp at hc
      · rename_i hattr
        exact ⟨k, hk, hattr⟩

section searches
variable {s : State} {live : Finset Nat} {d : Nat} {i : Fin 64} {q : Request}

theorem sameName_of_names (hq : Names q s.volume d i) : sameName (s.volume.table d i) q = true :=
  sameName_iff.2 ⟨hq.name.symm, hq.ext.symm⟩

theorem write_names (hi : 2 ≤ i.val) (hq : Names q s.volume d i) :
    (write s q).1 ≠ 0 ∧ (write s q).2.volume = s.volume := by
  have href : s.volume.Refused q := by
    refine .inr (.inr ?_)
    rw [hq.parent, findRow, Fin.isSome_find?_iff]
    exact ⟨i, by simp [hi, sameName_of_names hq]⟩
  obtain ⟨code, hcode, hw, -⟩ := write_refused href
  rw [hw]
  exact ⟨hcode, rfl⟩

variable (h : Inv s.volume live) (hr : s.volume.LiveRow live d i)
include h hr

/-- `delete` of a name that no earlier row from row 2 on has. -/
theorem delete_names (hq : Names q s.volume d i)
    (hno : ∀ j < i, 2 ≤ j.val → ¬ ((s.volume.table d j).name = q.name ∧ (s.volume.table d j).ext = q.ext)) :
    ∃ code s', delete 512 s q = some (code, s') ∧
      if (s.volume.table d i).Folder ∧ occupied (s.volume.table (s.volume.table d i).cluster) = true then
        code = 2 ∧ s'.volume = s.volume
      else code = 0 ∧ s'.volume.table d = Function.update (s.volume.table d) i (s'.volume.table d i) ∧
        ¬ (s'.volume.table d i).Used := by
  obtain ⟨rfl, hname, hext⟩ := hq
  obtain ⟨hp2, hp512, -⟩ := h.live_cluster hr.1
  have hfind : findRow (s.volume.table q.parent) q = some i := by
    refine Fin.find?_eq_some_iff.2 ⟨?_, fun j hj => ?_⟩
    · rw [Bool.and_eq_true, decide_eq_true_eq, sameName_iff]
      exact ⟨hr.2.1, hname.symm, hext.symm⟩
    · rw [Bool.and_eq_false_imp, decide_eq_true_eq]
      intro h2
      rw [Bool.eq_false_iff, ne_eq, sameName_iff]
      exact hno j hj h2
  have hd : isDirectory (s.volume.table q.parent) = true :=
    isDirectory_iff.2 ⟨(h.self _ hr.1).1, (h.self _ hr.1).2.1⟩
  obtain ⟨out, hout, hdoes, -⟩ := delete_outcome h hr.1 (Nat.le_refl 512) fun row hf => by
    rw [hfind] at hf
    exact Option.some.inj hf ▸ hr.2.2
  refine ⟨out.1, out.2, hout, ?_⟩
  rw [hdoes.code, hdoes.volume]
  by_cases hf : (s.volume.table q.parent i).Folder
  · by_cases hocc : occupied (s.volume.table (s.volume.table q.parent i).cluster) = true
    · have heff : s.volume.delete q = s.volume.refuse 2 := by
        have ha : (s.volume.table q.parent i).attr = attrSubdirectory := hf
        simp [Volume.delete, hd, hfind, ha, hocc]
      rw [if_pos ⟨hf, hocc⟩, heff]
      exact ⟨rfl, rfl⟩
    · have heff : s.volume.delete q = s.volume.rmdir q i (s.volume.table q.parent i).cluster := by
        have ha : (s.volume.table q.parent i).attr = attrSubdirectory := hf
        simp [Volume.delete, hd, hfind, ha, hocc]
      obtain ⟨-, hc3, hc512⟩ := h.folder_chain hr hf
      have hedit := rmdir_edit s.volume q i hp2 hp512 (by omega) hc512 (h.folder_ne hr hf).1
      rw [if_neg fun hx => hocc hx.2, heff, hedit.table_self]
      exact ⟨rfl, hedit.parent, not_used_clearEntry _⟩
  · obtain ⟨l, hl, -, hR⟩ := h.chain hr
    have heff : s.volume.delete q = s.volume.unlink q i l := by
      have ha : ¬ (s.volume.table q.parent i).attr = attrSubdirectory := hf
      simp [Volume.delete, hd, hfind, ha, chain_eq hl fun x hx => (hR x hx).2]
    have hedit := unlink_edit s.volume q i hp2 hp512 (fun x hx => ⟨by have := hR x hx; omega, (hR x hx).2⟩) hl.ne_nil
      (h.live_notMem hr hf hl hr.1)
    rw [if_neg fun hx => hf hx.1, heff, hedit.table_self]
    exact ⟨rfl, hedit.parent, not_used_zeroEntry⟩

/-- `read` of a file that no earlier row hides. -/
theorem read_names (hf : ¬ (s.volume.table d i).Folder) (hq : Names q s.volume d i)
    (hsize : (s.volume.table d i).filesize ≤ q.bufferSize)
    (hno : ∀ j < i, ¬ ((s.volume.table d j).name = q.name ∧ (s.volume.table d j).ext = q.ext)) :
    ∃ l s', Lib.Chain s.volume.next endMark (s.volume.table d i).cluster l ∧
      read 512 s q = some (⟨0, Volume.deliver s.disk q.buf 0 l⟩, s') := by
  have hfind : Volume.findAnyRow (s.volume.table q.parent) q = some i := by
    rw [hq.parent]
    refine Fin.find?_eq_some_iff.2 ⟨sameName_of_names hq, fun j hj => ?_⟩
    rw [Bool.eq_false_iff, ne_eq, sameName_iff]
    exact hno j hj
  obtain ⟨l, hl, -, hR⟩ := h.chain hr
  obtain ⟨s', hs'⟩ := read_eq (r := q) (Nat.le_refl 512) h.synced fun row hrow _ => by
    rw [hfind] at hrow
    obtain rfl := Option.some.inj hrow
    rw [hq.parent]
    exact ⟨l, hl, fun x hx => (hR x hx).2⟩
  have hu : (s.volume.table d 0).userAttribute = uattrNotEmpty := (h.self d hr.1).1
  have hattr : ¬ (s.volume.table d i).attr = attrSubdirectory := hf
  rw [hq.parent] at hfind
  have hreply : s.volume.read q = ⟨0, Volume.deliver s.disk q.buf 0 l⟩ := by
    simp [Volume.read, hq.parent, hu, hfind, hattr, UInt32.not_lt.2 hsize, chain_eq hl fun x hx => (hR x hx).2]
  exact ⟨l, s', hl, hreply ▸ hs'⟩

omit hr in
/-- `read_directory` stops at the first row with the name. -/
theorem readDirectory_names {j : Fin 64} (hd : d ∈ live) (hp : q.parent = d) (hname : (s.volume.table d j).name = q.name)
    (hno : ∀ j' < j, (s.volume.table d j').name ≠ q.name) : (readDirectory s q).1 =
      if (s.volume.table d j).Folder then ⟨0, blit q.buf 0 (readClusters s.disk (s.volume.table d j).cluster)⟩
      else ⟨1, q.buf⟩ := by
  have hfind : (Fin.find? fun k => memcmp (s.volume.table d k).name q.name == 0) = some j := by
    refine Fin.find?_eq_some_iff.2 ⟨by simp [hname], fun j' hj' => ?_⟩
    simp [hno j' hj']
  have hu : (s.volume.table d 0).userAttribute = uattrNotEmpty := (h.self d hd).1
  rw [readDirectory_eq]
  by_cases hf : (s.volume.table d j).Folder
  · have hattr : (s.volume.table d j).attr = attrSubdirectory := hf
    rw [if_pos hf]
    simp [Volume.readDirectory, hp, hu, hfind, hattr]
  · have hattr : ¬ (s.volume.table d j).attr = attrSubdirectory := hf
    rw [if_neg hf]
    simp [Volume.readDirectory, hp, hu, hfind, hattr]

end searches

/-! ## When all four agree -/

theorem exists_first_row {p : Fin 64 → Prop} {j : Fin 64} (hj : p j) : ∃ k ≤ j, p k ∧ ∀ k' < k, ¬ p k' := by
  classical
  rcases hf : Fin.find? fun k => decide (p k) with _ | k
  · exact absurd hj (by simpa using Fin.find?_eq_none_iff.1 hf j)
  · obtain ⟨hk, hmin⟩ := Fin.find?_eq_some_iff.1 hf
    refine ⟨k, ?_, by simpa using hk, fun k' hk' => by simpa using hmin k' hk'⟩
    by_contra hlt
    exact absurd hj (by simpa using hmin j (lt_of_not_ge hlt))

theorem first_row_unique {p : Fin 64 → Prop} {j k : Fin 64} (hj : p j) (hmin : ∀ i < j, ¬ p i) (hk : p k)
    (hmin' : ∀ i < k, ¬ p i) : j = k :=
  le_antisymm (not_lt.1 fun hlt => hmin k hlt hk) (not_lt.1 fun hlt => hmin' j hlt hj)

/-- There are requests that name a row, with room for its contents. -/
theorem exists_request {v : Volume} {live : Finset Nat} {d : Nat} (h : Inv v live) (hd : d ∈ live) (i : Fin 64) :
    ∃ q : Request, Names q v d i ∧ (v.table d i).filesize ≤ q.bufferSize := by
  obtain ⟨-, h512, -⟩ := h.live_cluster hd
  refine ⟨⟨fun _ => 0, (v.table d i).name, (v.table d i).ext, UInt32.ofNat d, (v.table d i).filesize⟩, ⟨?_, rfl, rfl⟩,
    UInt32.le_refl _⟩
  exact UInt32.toNat_ofNat_of_lt' (by simp [UInt32.size]; omega)

section agree
variable {s : State} {live : Finset Nat} {d : Nat} {i : Fin 64}
variable (h : Inv s.volume live) (hr : s.volume.LiveRow live d i)
include h hr

/-- A row that nothing shadows is found by every search. -/
theorem resolvesAlike_of_not_shadowed (hno : ∀ j, ¬ Shadows (s.volume.table d) i j) : ResolvesAlike s d i := by
  have hboth : ∀ {q : Request}, Names q s.volume d i → ∀ j < i,
      ¬ ((s.volume.table d j).name = q.name ∧ (s.volume.table d j).ext = q.ext) := by
    intro q hq j hj hx
    exact hno j ⟨hj, hx.1.trans hq.name, .inr (hx.2.trans hq.ext)⟩
  constructor
  · intro hf q hq hsize
    exact read_names h hr hf hq hsize (hboth hq)
  · intro hf q hp hname
    rw [readDirectory_names h hr.1 hp hname.symm fun j hj hx => hno j ⟨hj, hx.trans hname, .inl hf⟩, if_pos hf]
  · intro q hq
    exact write_names hr.2.1 hq
  · intro q hq
    exact delete_names h hr hq fun j hj _ => hboth hq j hj

/-- A folder is hidden from `read_directory` by any earlier row of its name: another table is delivered, or
none. -/
theorem not_shadowed_folder (hpl : RowsPlain s.volume live) (hres : ResolvesAlike s d i)
    (hf : (s.volume.table d i).Folder) (j : Fin 64) : ¬ Shadows (s.volume.table d) i j := by
  rintro ⟨hj, hname, -⟩
  obtain ⟨q, hq, -⟩ := exists_request h hr.1 i
  obtain ⟨k, hk, hkname, hmin⟩ := exists_first_row (p := fun k => (s.volume.table d k).name = q.name)
    (hname.trans hq.name.symm)
  have hki : k < i := lt_of_le_of_lt hk hj
  have hread := hres.readDirectory hf q hq.parent hq.name
  rw [readDirectory_names h hr.1 hq.parent hkname hmin] at hread
  by_cases hkf : (s.volume.table d k).Folder
  · -- both tables name their own cluster in row 0, so the folder's is delivered for another one
    rw [if_pos hkf, Reply.mk.injEq] at hread
    have htab : s.volume.table (s.volume.table d k).cluster = s.volume.table (s.volume.table d i).cluster :=
      congrArg decodeTable (blit_injective hread.2)
    have hc : (s.volume.table d k).cluster = (s.volume.table d i).cluster := by
      rw [← h.self_cluster hpl hr.1 hkf, htab, h.self_cluster hpl hr.1 hf]
    obtain ⟨hne, hneup⟩ := h.folder_ne hr hf
    by_cases hk2 : 2 ≤ k.val
    · have hku : (s.volume.table d k).Used := by
        by_contra hu
        exact (hpl d hr.1 k hk2).1 hu hkf
      exact absurd (h.eq_of_cluster ⟨hr.1, hk2, hku⟩ hr hc).2 hki.ne
    · have hcases : k = 0 ∨ k = 1 := by omega
      rcases hcases with rfl | rfl
      · exact hne (hc.symm.trans (h.self d hr.1).2.2.1)
      · exact hneup hc.symm
  · rw [if_neg hkf, Reply.mk.injEq] at hread
    exact absurd hread.1 (by decide)

/-- A file is hidden from `read` by a directory's own rows, and from `delete` by an earlier file. -/
theorem not_shadowed_file (hpl : RowsPlain s.volume live) (hres : ResolvesAlike s d i)
    (hf : ¬ (s.volume.table d i).Folder) (j : Fin 64) : ¬ Shadows (s.volume.table d) i j := by
  rintro ⟨hj, hname, hext⟩
  obtain ⟨q, hq, hsize⟩ := exists_request h hr.1 i
  obtain ⟨k, hk, ⟨hkname, hkext⟩, hmin⟩ := exists_first_row
    (p := fun k => (s.volume.table d k).name = q.name ∧ (s.volume.table d k).ext = q.ext)
    ⟨hname.trans hq.name.symm, (hext.resolve_left hf).trans hq.ext.symm⟩
  have hki : k < i := lt_of_le_of_lt hk hj
  by_cases hkf : (s.volume.table d k).Folder
  · obtain ⟨l, s', -, hread⟩ := hres.read hf q hq hsize
    have hfind : Volume.findAnyRow (s.volume.table q.parent) q = some k := by
      rw [hq.parent]
      refine Fin.find?_eq_some_iff.2 ⟨sameName_iff.2 ⟨hkname, hkext⟩, fun k' hk' => ?_⟩
      rw [Bool.eq_false_iff, ne_eq, sameName_iff]
      exact hmin k' hk'
    obtain ⟨t, ht⟩ := read_eq (r := q) (Nat.le_refl 512) h.synced fun row hrow hattr => by
      rw [hfind] at hrow
      rw [← Option.some.inj hrow, hq.parent] at hattr
      exact absurd hkf hattr
    have hu : (s.volume.table d 0).userAttribute = uattrNotEmpty := (h.self d hr.1).1
    have hattr : (s.volume.table d k).attr = attrSubdirectory := hkf
    rw [hq.parent] at hfind
    have hreply : s.volume.read q = ⟨1, q.buf⟩ := by simp [Volume.read, hq.parent, hu, hfind, hattr]
    rw [hread, hreply] at ht
    have hcode := congrArg Reply.code (Prod.mk.inj (Option.some.inj ht)).1
    exact absurd (show (0 : Int) = 1 from hcode) (by decide)
  · -- the earlier row is a file in use, and `delete` takes that one
    have hk2 := h.row_of_not_folder hr.1 hkf
    have hku : (s.volume.table d k).Used := by
      by_contra hu
      obtain ⟨hb, hb'⟩ := h.unused d hr.1 k hk2 hu
      refine hf ((hpl d hr.1 i hr.2.1).2 hr.2.2 ⟨?_, ?_⟩)
      · rw [← hq.name, ← hkname, hb]
      · rw [← hq.ext, ← hkext, hb']
    obtain ⟨code, t, ht, hdel⟩ := delete_names h ⟨hr.1, hk2, hku⟩ ⟨hq.parent, hkname.symm, hkext.symm⟩
      fun k' hk' _ => hmin k' hk'
    obtain ⟨code', t', ht', hdel'⟩ := hres.delete q hq
    obtain ⟨rfl, rfl⟩ := Prod.mk.inj (Option.some.inj (ht'.symm.trans ht))
    rw [if_neg fun hx => hkf hx.1] at hdel
    rw [if_neg fun hx => hf hx.1] at hdel'
    refine hdel'.2.2 ?_
    rw [hdel.2.1, Function.update_of_ne hki.ne']
    exact hr.2.2

end agree

/-- **When all operations agree on a name.** After safe requests, for a row in use: `read` or `read_directory`
delivers it, `write` refuses its name and `delete` acts on it exactly if no earlier row of the directory, its own entry
and its parent's included, has its name (and extension, for a file). -/
theorem resolvesAlike_iff {s : State} {live : Finset Nat} {d : Nat} {i : Fin 64} (h : Run Safe s live)
    (hr : s.volume.LiveRow live d i) : ResolvesAlike s d i ↔ ∀ j, ¬ Shadows (s.volume.table d) i j := by
  obtain ⟨hinv, hpl⟩ := h.rowsPlain
  constructor
  · intro hres
    by_cases hf : (s.volume.table d i).Folder
    · exact not_shadowed_folder hinv hr hpl hres hf
    · exact not_shadowed_file hinv hr hpl hres hf
  · exact resolvesAlike_of_not_shadowed hinv hr

/-- The folder `a` beside the root's own two rows. -/
theorem resolvesAlike_folder :
    ResolvesAlike (write (createFat32 blankState) folderRequest).2 rootClusterNumber 2 := by
  have hord := folderRequest_ordinary blankState
  have hrun := Run.folder (hord.safe (createFat32_inv blankState))
  have htab := withFolder_table
  refine (resolvesAlike_iff hrun withFolder_live).2 fun j => ?_
  rw [htab]
  rintro ⟨hj, hname, -⟩
  have hcases : j = 0 ∨ j = 1 := by omega
  rcases hcases with rfl | rfl
  · exact absurd (congrFun hname 0) (by decide)
  · exact absurd (congrFun hname 0) (by decide)

/-- A file `root` of five bytes in the root directory. -/
def rootFileRequest : Request := { fileRequest 5 with name := (formattedRoot 0).name }

/-- `write` accepts the name, `read` finds the directory's own entry under it. -/
theorem not_resolvesAlike_root : ¬ ∀ s live d i, Run LiveParent s live → s.volume.LiveRow live d i →
    ResolvesAlike s d i := by
  intro hall
  have hord : Ordinary (createFat32 blankState).volume {rootClusterNumber} (.write rootFileRequest) := by
    refine ⟨by decide, by decide, fun _ => rfl, ?_⟩
    rw [createFat32_fits]
    decide
  have hrun := (Run.format LiveParent blankState).write (show LiveParent _ _ (.write rootFileRequest) from hord.1)
  have hsafe := (Run.format Safe blankState).write (hord.safe (createFat32_inv blankState))
  rw [liveAfter_mkfile (by decide)] at hrun hsafe
  obtain ⟨hinv, hpl⟩ := hsafe.rowsPlain
  have htab := firstFile_table blankState (r := rootFileRequest) rfl (by decide) (by decide)
  generalize (write (createFat32 blankState) rootFileRequest).2 = s at hrun hinv hpl htab
  have hr : s.volume.LiveRow {rootClusterNumber} rootClusterNumber 2 := by
    refine ⟨by decide, by decide, ?_⟩
    rw [htab]
    decide
  refine not_shadowed_file hinv hr hpl (hall s _ _ 2 hrun hr) ?_ 0 ?_
  · rw [htab]
    decide
  · rw [htab]
    exact ⟨by decide, by decide, .inr (by decide)⟩

end MoggersOs
