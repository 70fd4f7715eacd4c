import MoggersOs.Devices.Lines
import MoggersOs.Shell.Find
import MoggersOs.Shell.Session
/-
# What the shell prints of a directory (`user_mode/command_list/ls.c`)

| here | there |
| --- | --- |
| `lsLine`   | one call of `puts` (`ls.c:7-16`): folders are light blue, the rest is white |
| `ls`       | `ls` (`ls.c:3-22`) |
| `nameLine` | the same line, of a name in the store |
-/

namespace MoggersOs

def nameLine (n : FileName) (folder : Bool) : Line where
  text := fun k => if h : k < 8 then n.1 ⟨k, h⟩ else 0
  p := ⟨8, if folder then 0x9 else 0xF⟩

/-- Of the memory from `table[i].name` on `puts` reads the eight bytes of the name. -/
def lsLine (e : DirEntry) : Line := nameLine e.fileName (e.attr == attrSubdirectory)

def ls (t : Table) (s : Screen) : Screen :=
  (List.finRange 64).foldl (fun s i => if (t i).userAttribute = uattrNotEmpty then putsLine s (lsLine (t i)) else s) s

/-- The rows in use from row 2 on. -/
def usedRows (t : Table) : List (Fin 64) := entryRows.filter fun i => (t i).userAttribute == uattrNotEmpty

theorem mem_usedRows {t : Table} {i : Fin 64} : i ∈ usedRows t ↔ 2 ≤ i.val ∧ (t i).Used := by
  simp [usedRows, mem_entryRows, DirEntry.Used]

theorem usedRows_nodup (t : Table) : (usedRows t).Nodup :=
  List.Nodup.filter _ (entryRows_pairwise.imp fun h => Fin.ne_of_lt h)

/-- Another row is at most one more. -/
theorem usedRows_update_le (t : Table) (i : Fin 64) (e : DirEntry) :
    (usedRows (Function.update t i e)).length ≤ (usedRows t).length + 1 := by
  have hsub : usedRows (Function.update t i e) ⊆ i :: usedRows t := fun j hj => by
    obtain ⟨hj2, hju⟩ := mem_usedRows.1 hj
    by_cases hji : j = i
    · exact hji ▸ List.mem_cons_self
    · rw [Function.update_of_ne hji] at hju
      exact List.mem_cons_of_mem _ (mem_usedRows.2 ⟨hj2, hju⟩)
  exact (List.subperm_of_subset (usedRows_nodup _) hsub).length_le

theorem ls_eq {t : Table} (h0 : (t 0).Used) (h1 : (t 1).Used) (s : Screen) :
    ls t s = putsLines (lsLine (t 0) :: lsLine (t 1) :: (usedRows t).map fun i => lsLine (t i)) s := by
  have hrows : List.finRange 64 = 0 :: 1 :: entryRows := by
    unfold entryRows
    decide
  unfold DirEntry.Used at h0 h1
  unfold ls putsLines
  rw [hrows, List.foldl_cons, if_pos h0, List.foldl_cons, if_pos h1, List.foldl_cons, List.foldl_cons, List.foldl_map,
    usedRows, List.foldl_filter]
  simp only [beq_iff_eq]

/-! ## The entries of a directory -/

/-- What the rows from row 2 on say. -/
noncomputable def entriesOf (x : Files) (d : ℕ) (t : Table) : List (FileName × Lib.Node ℕ (List UInt8)) :=
  (usedRows t).filterMap fun i => (x.entry d (t i).fileName).map fun k => ((t i).fileName, k)

def isFolder : Lib.Node ℕ (List UInt8) → Bool
  | .dir _ => true
  | .file _ => false

section entries
variable {x : Files} {d : ℕ} {t : Table} (hx : x.Describes d t)
include hx

/-- Each entry is there. -/
theorem mem_entriesOf {n : FileName} {k : Lib.Node ℕ (List UInt8)} : (n, k) ∈ entriesOf x d t ↔ x.entry d n = some k := by
  unfold entriesOf
  simp only [List.mem_filterMap, mem_usedRows, Option.map_eq_some_iff, Prod.mk.injEq]
  constructor
  · rintro ⟨i, -, k', hk, rfl, rfl⟩
    exact hk
  · intro hk
    obtain ⟨i, ⟨hi, hu, hname⟩, -⟩ := hx.listed n (by rw [hk]; simp)
    exact ⟨i, ⟨hi, hu⟩, k, by rw [hname, hk], hname, rfl⟩

/-- The line of a row in use is the line of its entry. -/
theorem lsLine_eq {i : Fin 64} (hi : i ∈ usedRows t) : ∃ k, x.entry d (t i).fileName = some k ∧
    lsLine (t i) = nameLine (t i).fileName (isFolder k) := by
  obtain ⟨hi2, hu⟩ := mem_usedRows.1 hi
  obtain ⟨k, hk, hshows⟩ := hx.rows i hi2 hu
  refine ⟨k, hk, ?_⟩
  unfold lsLine
  congr 1
  cases k with
  | dir c => exact beq_iff_eq.2 hshows.1
  | file b => exact beq_eq_false_iff_ne.2 hshows.1

theorem map_lsLine : (usedRows t).map (fun i => lsLine (t i)) =
    (entriesOf x d t).map fun a => nameLine a.1 (isFolder a.2) := by
  have hall : ∀ i ∈ usedRows t, ∃ k, x.entry d (t i).fileName = some k ∧
      lsLine (t i) = nameLine (t i).fileName (isFolder k) := fun i hi => lsLine_eq hx hi
  unfold entriesOf
  generalize usedRows t = l at hall
  induction l with
  | nil => rfl
  | cons i l ih =>
    obtain ⟨⟨k, hk, hline⟩, hl⟩ := List.forall_mem_cons.1 hall
    rw [List.map_cons, ih hl, List.filterMap_cons, hk, hline]
    rfl

/-- No name comes twice. -/
theorem entriesOf_nodup : ((entriesOf x d t).map Prod.fst).Nodup := by
  have hnames : (entriesOf x d t).map Prod.fst = (usedRows t).map fun i => (t i).fileName := by
    have hall : ∀ i ∈ usedRows t, ∃ k, x.entry d (t i).fileName = some k := fun i hi => by
      obtain ⟨k, hk, -⟩ := lsLine_eq hx hi
      exact ⟨k, hk⟩
    unfold entriesOf
    generalize usedRows t = l at hall
    induction l with
    | nil => rfl
    | cons i l ih =>
      obtain ⟨⟨k, hk⟩, hl⟩ := List.forall_mem_cons.1 hall
      rw [List.map_cons, ← ih hl, List.filterMap_cons, hk]
      rfl
  rw [hnames]
  refine (usedRows_nodup t).map_on fun i hi j hj he => ?_
  obtain ⟨hi2, hiu⟩ := mem_usedRows.1 hi
  obtain ⟨hj2, hju⟩ := mem_usedRows.1 hj
  obtain ⟨k, hk, -⟩ := hx.rows i hi2 hiu
  exact (hx.listed _ (by rw [hk]; simp)).unique ⟨hi2, hiu, rfl⟩ ⟨hj2, hju, he.symm⟩

end entries

/-- **What `ls` prints.** After a session that has not just copied something, `ls` at the beginning of a row, with rows
enough below, prints the name of the directory that the path leads to, `..`, and every entry of it once. -/
theorem session_ls {s : State} {live : Finset Nat} (hrun : Run Ordinary s live) {garbage : Fin 3 → UInt8}
    {cmds : List (FileCommand × ℕ)} {y : Shell × State} (h : Lib.Path FileCommand.Given (cdRoot garbage s) cmds y)
    (hup : upToDate cmds = true) {scr : Screen} (hc : scr.cursor.AtStart)
    (hfit : scr.cursor.row.toInt + 2 + (usedRows y.1.dirTable).length ≤ 25) :
    ∃ live' x d ns, ∃ entries : List (FileName × Lib.Node ℕ (List UInt8)),
      Represents y.2.volume live' x ∧ x.Leads rootClusterNumber ns d ∧
      y.1.path.map Arg.name = rootName :: ns.map Prod.fst ∧ (∀ n k, (n, k) ∈ entries ↔ x.entry d n = some k) ∧
      (entries.map Prod.fst).Nodup ∧
      Listed (nameLine (x.own d) true :: nameLine dotDotName true :: entries.map fun a => nameLine a.1 (isFolder a.2))
        scr (ls y.1.dirTable scr) := by
  obtain ⟨live', x, d, ns, hy, hx, hleads, hnames, hexact⟩ := session_refined hrun h
  have hlist := describes hx.inv hx.unique hx.represents hy.alive
  obtain ⟨hu0, hf0, -, hf1⟩ := hx.inv.self d hy.alive
  obtain ⟨hu1, -⟩ := hy.run.safe.headsNamed.2 d hy.alive
  rw [hexact hup] at hfit ⊢
  generalize y.2.volume.table d = t at hlist hu0 hf0 hf1 hu1 hfit
  have h0 : lsLine (t 0) = nameLine (x.own d) true := by
    rw [← hlist.self.1]
    exact congrArg (nameLine (t 0).fileName) (beq_iff_eq.2 hf0)
  have h1 : lsLine (t 1) = nameLine dotDotName true := by
    rw [← hlist.up.1]
    exact congrArg (nameLine (t 1).fileName) (beq_iff_eq.2 hf1)
  refine ⟨live', x, d, ns, entriesOf x d t, hx.represents, hleads, hnames, fun n k => mem_entriesOf hlist,
    entriesOf_nodup hlist, ?_⟩
  rw [ls_eq hu0 hu1, h0, h1, map_lsLine hlist]
  refine putsLines_listed (fun l hl => ?_) hc ?_
  · have hshort : ∀ n folder, (nameLine n folder).length < 80 := fun n folder => (by decide : 8 < 80)
    simp only [List.mem_cons, List.mem_map] at hl
    rcases hl with rfl | rfl | ⟨a, -, rfl⟩
    · exact hshort _ _
    · exact hshort _ _
    · exact hshort _ _
  · rw [List.length_cons, List.length_cons, ← map_lsLine hlist, List.length_map]
    push_cast
    omega

/-- The screen after `clear`. -/
def blankScreen : Screen := ⟨fun _ => 0, ⟨0, 0⟩⟩

theorem blankScreen_start : blankScreen.cursor.AtStart := ⟨by decide, rfl⟩

theorem besideFile_rows : (usedRows besideFile.1.dirTable).length = 1 := by
  have hrows : besideFile.1.dirTable = Function.update formattedRoot 2 (newFile (fileRequest 5) 3) := by
    refine besideFile_sound.2.trans ?_
    rw [besideFile, cdRoot_volume]
    exact firstFile_table blankState rfl (by decide) (by decide)
  rw [hrows]
  decide +kernel

/-- `mkdir` makes one entry at most. -/
theorem Stands.mkdir_rows {sh : Shell} {s : State} {live : Finset ℕ} {d : ℕ} {w : Word} (h : Stands sh s live d)
    (hw : w.bytes ≠ []) (hfree : s.fatTable.freeClusters ≠ []) :
    (usedRows ((MoggersOs.mkdir sh s w.arg).2.volume.table d)).length ≤ (usedRows (s.volume.table d)).length + 1 := by
  obtain ⟨hp, -, -, hfit⟩ := h.mkdir_ordinary hw hfree
  obtain ⟨hdoes, ho⟩ := write_outcome hp (.inl hfit)
  have hz : (MoggersOs.mkdirRequest sh w.arg).bufferSize = 0 := rfl
  have hd : (MoggersOs.mkdirRequest sh w.arg).parent = d := h.here
  rw [mkdir_volume, hdoes.volume]
  generalize liveAfter _ _ _ _ = live' at ho
  generalize s.volume.write _ = fx at ho
  generalize MoggersOs.mkdirRequest sh w.arg = r at *
  cases ho with
  | refused _ => exact Nat.le_succ _
  | lookup hop =>
    obtain ⟨q, hq | hq⟩ := hop
    · cases hq
    · cases hq
  | mkdir _ _ _ hrow hfree =>
    have hedit := (h.run.inv.mkdir_change hp hz hrow hfree).edit.parent
    rw [r.stored_parent, hd] at hedit
    rw [hedit]
    exact usedRows_update_le _ _ _
  | mkfile _ _ hz' => exact absurd hz hz'

/-- `mkdir g` on the volume with the file `f`, and `ls`. -/
theorem session_ls_mkdir : ∃ live' x d ns, ∃ entries : List (FileName × Lib.Node ℕ (List UInt8)),
    Represents besideBoth.2.volume live' x ∧ x.Leads rootClusterNumber ns d ∧
    besideBoth.1.path.map Arg.name = rootName :: ns.map Prod.fst ∧ (∀ n k, (n, k) ∈ entries ↔ x.entry d n = some k) ∧
    (entries.map Prod.fst).Nodup ∧
    Listed (nameLine (x.own d) true :: nameLine dotDotName true :: entries.map fun a => nameLine a.1 (isFolder a.2))
      blankScreen (ls besideBoth.1.dirTable blankScreen) := by
  have hrows : (usedRows besideBoth.1.dirTable).length ≤ 2 := by
    obtain ⟨hsound, htable⟩ := besideFile_sound
    have hone := besideFile_rows
    have hfree := besideFile_free
    rw [besideBoth]
    generalize besideFile = x at *
    obtain ⟨-, -, -, -, hmade⟩ := hsound.mkdir (w := gWord) (by decide) hfree rfl
    have hmore := hsound.mkdir_rows (w := gWord) (by decide) hfree
    rw [← htable, hone] at hmore
    rw [hmade]
    exact hmore
  have hrow : blankScreen.cursor.row.toInt = 0 := by decide
  exact session_ls withFile_run besideBoth_path rfl blankScreen_start (by rw [hrow]; omega)

end MoggersOs
