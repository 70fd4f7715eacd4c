import MoggersOs.Filesystem.Lookup
import MoggersOs.Shell.Commands
/-
# The shell's path and its directory

`cd` reads the new table through `read_directory` and edits `path` by a scan of its own, so the two can part. They do
in three ways, and in no other (`cd_agrees_iff`):

* `cd` to the directory's own name finds row 0 and stays, but appends the name;
* `cd ..` from a directory whose name begins with `root` goes up, but takes no name away;
* `cd` to a folder behind a file of the same name (and another extension) leaves an empty table.

| here | there |
| --- | --- |
| `TreePath` | the names on the way from the root to a directory |
| `Agrees`   | `current_dir` and `current_working_directory` describe one directory (`user-shell.h:44-46`, `print_template`) |
| `CdKeeps`  | none of the three happens |
-/

namespace MoggersOs

/-- The folders' rows from the root down to directory `d`, and their names. -/
inductive TreePath (v : Volume) (live : Finset Nat) : Nat → List (Fin 8 → UInt8) → Prop
  | root : TreePath v live rootClusterNumber [(v.table rootClusterNumber 0).name]
  | child {d : Nat} {i : Fin 64} {names : List (Fin 8 → UInt8)} (hd : TreePath v live d names)
      (hr : v.LiveRow live d i) (hf : (v.table d i).Folder) :
      TreePath v live (v.table d i).cluster (names ++ [(v.table d i).name])

/-- The table is the one of directory `d`, and `path` leads to `d`. -/
structure Agrees (v : Volume) (live : Finset Nat) (sh : Shell) (d : Nat) : Prop where
  alive : d ∈ live
  table : sh.dirTable = v.table d
  path  : TreePath v live d (sh.path.map Arg.name)

namespace TreePath

variable {v v' : Volume} {live live' : Finset Nat} {d : Nat} {names names' : List (Fin 8 → UInt8)}

theorem mem_live (h : Inv v live) (hp : TreePath v live d names) : d ∈ live := by
  cases hp with
  | root => exact h.root
  | child _ hr hf => exact (h.folder _ _ hr hf).1

theorem ne_nil (hp : TreePath v live d names) : names ≠ [] := by
  cases hp with
  | root => simp
  | child _ _ _ => simp

theorem child_ne_root (h : Inv v live) {i : Fin 64} (hr : v.LiveRow live d i) (hf : (v.table d i).Folder) :
    (v.table d i).cluster ≠ rootClusterNumber := by
  have h3 := (h.folder_chain hr hf).2.1
  have h2 : rootClusterNumber = 2 := rfl
  omega

/-- A directory has one path. -/
theorem unique (h : Inv v live) (hp : TreePath v live d names) (hp' : TreePath v live d names') : names = names' := by
  induction hp generalizing names' with
  | root =>
    generalize hc : rootClusterNumber = c at hp'
    cases hp' with
    | root => rfl
    | child _ hr hf => exact absurd hc.symm (child_ne_root h hr hf)
  | @child d i names hd hr hf ih =>
    generalize hc : (v.table d i).cluster = c at hp'
    cases hp' with
    | root => exact absurd hc (child_ne_root h hr hf)
    | child hd' hr' hf' =>
      obtain ⟨rfl, rfl⟩ := h.eq_of_cluster hr hr' hc
      rw [ih hd']

/-- The last name is the directory's own. -/
theorem getLast? (h : Inv v live) (hp : TreePath v live d names) : names.getLast? = some (v.table d 0).name := by
  cases hp with
  | root => rfl
  | child _ hr hf =>
    rw [List.getLast?_concat, (h.folder _ _ hr hf).2.1]

/-- Without its last name the path leads to the directory above. -/
theorem up (h : Inv v live) (hp : TreePath v live d names) (hd : d ≠ rootClusterNumber) :
    TreePath v live (v.table d 1).cluster names.dropLast := by
  cases hp with
  | root => exact absurd rfl hd
  | child hp hr hf =>
    rw [(h.folder _ _ hr hf).2.2.1, List.dropLast_concat]
    exact hp

/-- A path stays while the rows in use do. -/
theorem mono (hp : TreePath v live d names) (hroot : (v'.table rootClusterNumber 0).name = (v.table rootClusterNumber 0).name)
    (hrow : ∀ e i, v.LiveRow live e i → v'.LiveRow live' e i ∧ v'.table e i = v.table e i) :
    TreePath v' live' d names := by
  induction hp with
  | root =>
    rw [← hroot]
    exact .root
  | @child e i names _ hr hf ih =>
    obtain ⟨hr', he⟩ := hrow e i hr
    rw [← he] at hf ⊢
    exact .child ih hr' hf

end TreePath

/-! ## The first two rows of a directory -/

/-- The root is called `root`, and row 1 of a directory is in use and called `..`. -/
def HeadsNamed (v : Volume) (live : Finset Nat) : Prop :=
  (v.table rootClusterNumber 0).name = rootName ∧
    ∀ d ∈ live, (v.table d 1).Used ∧ (v.table d 1).name = dotDot

theorem HeadsNamed.change {v v' : Volume} {live live' : Finset Nat} {q : Request} {row : Fin 64} {e : DirEntry}
    {l : List Nat} (hn : HeadsNamed v live) (h : Inv v live) (hch : Change v v' live live' q row e l)
    (hl : rootClusterNumber ∉ l)
    (hnew : ∀ d ∈ live', d ∉ live → (v'.table d 1).Used ∧ (v'.table d 1).name = dotDot) : HeadsNamed v' live' := by
  refine ⟨?_, fun d hd => ?_⟩
  · rw [(h.edit_heads hch.edit h.root hl hch.row2).1]
    exact hn.1
  · rcases hch.dirs d hd with ⟨hdl, hdn⟩ | ⟨hdl, -⟩
    · rw [(h.edit_heads hch.edit hdl hdn hch.row2).2]
      exact hn.2 d hdl
    · exact hnew d hd hdl

theorem Outcome.headsNamed {v : Volume} {live live' : Finset Nat} {op : Op} {fx : Effect} (h : Inv v live)
    (hn : HeadsNamed v live) (ho : Outcome v live op fx live') : HeadsNamed (v.apply fx) live' := by
  cases ho with
  | refused _ => exact hn
  | lookup _ => exact hn
  | @mkdir r row c hp href hz hrow hfree =>
    obtain ⟨-, hc512, -, hclive⟩ := h.of_free hfree
    refine hn.change h (h.mkdir_change hp hz hrow hfree) ?_ fun d hd hdl => ?_
    · exact fun hm => hclive (List.mem_singleton.1 hm ▸ h.root)
    · obtain rfl : d = c := (Finset.mem_insert.1 hd).resolve_right hdl
      rw [mkdir_table v r row hc512, newDirectory_one]
      exact ⟨rfl, rfl⟩
  | @mkfile r row c l hp href hz hrow hfree _ _ =>
    refine hn.change h (h.mkfile_change hp hrow hfree) ?_ fun d hd hdl => absurd hd hdl
    exact fun hm => (h.of_free (hfree _ hm)).2.2.2 h.root
  | @rmdir r row c hr hf hfo hc hempty =>
    refine hn.change h (h.rmdir_change hr hf hfo hc hempty) ?_ fun d hd hdl => absurd (Finset.mem_of_mem_erase hd) hdl
    exact fun hm => TreePath.child_ne_root h hr hfo (hc.trans (List.mem_singleton.1 hm).symm)
  | @unlink r row l hr hf hfo hl =>
    exact hn.change h (h.unlink_change hr hf hfo hl) (h.live_notMem hr hfo hl h.root) fun d hd hdl => absurd hd hdl

theorem Run.headsNamed {s : State} {live : Finset Nat} (h : Run Safe s live) : HeadsNamed s.volume live := by
  obtain ⟨s₀, tr, hpath⟩ := h
  have h₀ : HeadsNamed (createFat32 s₀).volume {rootClusterNumber} := by
    refine ⟨?_, fun d hd => ?_⟩
    · rw [createFat32_table s₀, formattedRoot_zero]
      rfl
    · rw [Finset.mem_singleton.1 hd, createFat32_table s₀, formattedRoot_one]
      exact ⟨rfl, rfl⟩
  exact (Step.path_invariant (fun _ hk => hk) (fun hinv hn _ ho => ho.headsNamed hinv hn) h₀ hpath).2

/-! ## Reading a directory's table -/

/-- Row 0 gives the shell the number of its directory. -/
theorem getClusterNumber_table {v : Volume} {live : Finset Nat} {d : Nat} (h : Inv v live) (hd : d ∈ live) :
    (getClusterNumber (v.table d)).toNat = d := by
  obtain ⟨-, h512, -⟩ := h.live_cluster hd
  unfold getClusterNumber getClusterNumberSelf
  rw [(h.self d hd).2.2.1]
  exact UInt32.toNat_ofNat_of_lt' (by simp [UInt32.size]; omega)

section Read
variable {s : State} {live : Finset Nat} {d : Nat} (h : Inv s.volume live) (hd : d ∈ live)
include h hd

/-- The table that the shell has after `read_directory` of a name: the one the first row with the name leads to,
and an empty one if that row is no folder. -/
theorem loadTable_readDirectory {name : Fin 8 → UInt8} {j : Fin 64} (hj : (s.volume.table d j).name = name)
    (hno : ∀ j' < j, (s.volume.table d j').name ≠ name) :
    loadTable (readDirectory s (directoryRequest name (getClusterNumber (s.volume.table d)))).1.buf =
      if (s.volume.table d j).Folder then s.volume.table (s.volume.table d j).cluster else zeroTable := by
  have hreply := readDirectory_names (q := directoryRequest name (getClusterNumber (s.volume.table d))) h hd
    (getClusterNumber_table h hd) hj hno
  rw [hreply]
  split
  · exact loadTable_blit _ _
  · exact loadTable_zero

omit h hd in
theorem readDirectory_volume (r : Request) : (readDirectory s r).2.volume = s.volume := by
  rw [readDirectory_eq]
  rfl

end Read

/-- Reading a directory is a safe request, so the run goes on. -/
theorem Run.readDirectory {s : State} {live : Finset Nat} (h : Run Safe s live) {r : Request} (hr : r.parent ∈ live) :
    Run Safe (MoggersOs.readDirectory s r).2 live := by
  have hsafe : Safe s.volume live (.readDirectory r) := hr
  have hstep := h.step hsafe
    (show exec 0 s (.readDirectory r) = some ((MoggersOs.readDirectory s r).1, (MoggersOs.readDirectory s r).2) from rfl)
  rwa [liveAfter_readDirectory] at hstep

/-! ## The two halves of `cd` -/

theorem folderRow_eq_true {e : DirEntry} {test : Bool} : folderRow e test = true ↔ e.Used ∧ e.Folder ∧ test = true := by
  simp [folderRow, DirEntry.Used, DirEntry.Folder]

/-- A byte typed is not 0, so three bytes tell `..` from any other word. -/
theorem Word.leading_dotDot (w : Word) : memcmp (leading (n := 3) (by decide) w.arg.info) (leading (by decide) dotDot) = 0 ↔
    w.arg.info = dotDot := by
  rw [memcmp_eq_zero]
  constructor
  · intro h
    have h2 : w.bytes.getD 2 0 = 0 := congrFun h 2
    have hlen : w.bytes.length ≤ 2 := by
      by_contra hlt
      have hmem : w.bytes[2] ∈ w.bytes := List.getElem_mem (by omega)
      simp only [List.getD_eq_getElem?_getD, List.getElem?_eq_getElem (show 2 < w.bytes.length by omega),
        Option.getD_some] at h2
      exact w.nonzero _ hmem h2
    funext i
    by_cases hi : i.val < 3
    · exact congrFun h ⟨i.val, hi⟩
    · have hout : w.bytes.length ≤ i.val := by omega
      have hge : ¬ i.val < 2 := by omega
      simp [arg, dotDot, hout, hge]
  · intro h
    rw [h]

section updatePath
variable {t : Table} {path : List Arg} {w : Word}

/-- `..` takes the last name away unless it begins with `root`. -/
theorem updatePath_up (hw : w.arg.info = dotDot) {top : Arg} (htop : path.getLast? = some top) :
    updatePath t path w.arg = some (if leading (n := 4) (by decide) top.info = leading (by decide) rootName then path
      else path.dropLast) := by
  unfold updatePath
  rw [if_pos (w.leading_dotDot.2 hw), htop]
  by_cases hroot : leading (n := 4) (by decide) top.info = leading (by decide) rootName
  · simp [hroot]
  · simp [hroot]

/-- In a directory's table any other word is appended, since row 1 is called `..`. -/
theorem updatePath_down (hw : w.arg.info ≠ dotDot) (ht : (t 1).Used ∧ (t 1).Folder ∧ (t 1).name = dotDot) :
    updatePath t path w.arg = if path.length < 10 then some (path ++ [w.arg]) else none := by
  have hrow : (Fin.find? fun i => folderRow (t i) (memcmp (t i).name w.arg.info != 0)).isSome = true := by
    rw [Fin.isSome_find?_iff]
    refine ⟨1, folderRow_eq_true.2 ⟨ht.1, ht.2.1, ?_⟩⟩
    rw [ht.2.2]
    simp [Ne.symm hw]
  unfold updatePath
  rw [if_neg (mt w.leading_dotDot.1 hw), if_pos hrow]
  rfl

end updatePath

/-- Some folder in use has the name. -/
def HasFolder (t : Table) (name : Fin 8 → UInt8) : Prop := ∃ i, (t i).Used ∧ (t i).Folder ∧ (t i).name = name

theorem find?_folder {t : Table} {name : Fin 8 → UInt8} :
    (Fin.find? fun i => folderRow (t i) (memcmp (t i).name name == 0)).isSome = true ↔ HasFolder t name := by
  simp [folderRow_eq_true, HasFolder]

theorem cd_stays {sh : Shell} {w : Word} (h : ¬ HasFolder sh.dirTable w.arg.info) (s : State) :
    cd sh s w.arg = some (sh, s) := by
  have hname : (directoryRequest w.arg.name (getClusterNumber sh.dirTable)).name = w.arg.info := w.arg_name
  unfold cd
  simp only [hname]
  rw [if_neg (mt find?_folder.1 h)]

theorem cd_moves {sh : Shell} {w : Word} (h : HasFolder sh.dirTable w.arg.info) (s : State) {out : Reply × State}
    (hout : readDirectory s (directoryRequest w.arg.info (getClusterNumber sh.dirTable)) = out) :
    cd sh s w.arg = (updatePath (loadTable out.1.buf) sh.path w.arg).map fun path =>
      (⟨loadTable out.1.buf, path⟩, out.2) := by
  have hname : (directoryRequest w.arg.name (getClusterNumber sh.dirTable)).name = w.arg.info := w.arg_name
  unfold cd
  simp only [hname]
  rw [if_pos (find?_folder.2 h), w.arg_name, hout]

/-! ## What `cd` does to a shell that is right -/

theorem four_le_eight : 4 ≤ 8 := by decide

/-- The bytes of an entry of `path` are those of its name, as far as `cd` compares them with `root`. -/
def PathBytes (path : List Arg) : Prop :=
  ∀ a ∈ path, leading four_le_eight a.info = leading four_le_eight a.name

/-- What keeps the shell right: no folder has the name, or the name is not the directory's own, `..` is not used
below the root in a directory whose name begins with `root`, and the first row with the name is a folder. -/
def CdKeeps (sh : Shell) (w : Word) : Prop :=
  ¬ HasFolder sh.dirTable w.arg.info ∨
    (sh.dirTable 0).name ≠ w.arg.info ∧
    (w.arg.info = dotDot → sh.path.length = 1 ∨
      leading four_le_eight (sh.dirTable 0).name ≠ leading four_le_eight rootName) ∧
    ∀ i, (∀ j < i, (sh.dirTable j).name ≠ w.arg.info) → (sh.dirTable i).name = w.arg.info → (sh.dirTable i).Folder

section Keep
variable {s : State} {live : Finset Nat} {sh : Shell} {d : Nat}

theorem Agrees.unique {sh' : Shell} {e : Nat} (h : Inv s.volume live) (ha : Agrees s.volume live sh' d) (he : e ∈ live)
    (ht : sh'.dirTable = s.volume.table e) : d = e := by
  have hself := (h.self d ha.alive).2.2.1
  rw [← ha.table, ht, (h.self e he).2.2.1] at hself
  exact hself.symm

/-- The last entry of `path` has the directory's name. -/
theorem Agrees.top (h : Inv s.volume live) (ha : Agrees s.volume live sh d) (hb : PathBytes sh.path) :
    ∃ top, sh.path.getLast? = some top ∧
      leading (n := 4) (by decide) top.info = leading (by decide) (s.volume.table d 0).name := by
  have hlast := ha.path.getLast? h
  rw [List.getLast?_map, Option.map_eq_some_iff] at hlast
  obtain ⟨top, htop, hname⟩ := hlast
  refine ⟨top, htop, ?_⟩
  rw [hb top (List.mem_of_getLast? htop), hname]

/-- A path of another length leads to another directory. -/
theorem Agrees.not_of_length {sh' : Shell} (h : Inv s.volume live) (ha : Agrees s.volume live sh d)
    (ht : sh'.dirTable = s.volume.table d) (hlen : sh'.path.length ≠ sh.path.length) :
    ¬ ∃ d', Agrees s.volume live sh' d' := by
  rintro ⟨d', ha'⟩
  obtain rfl := ha'.unique h ha.alive ht
  have hpath := congrArg List.length (ha'.path.unique h ha.path)
  exact hlen (by simpa using hpath)

/-- The root is where the path has one entry. -/
theorem Agrees.length_one (h : Inv s.volume live) (ha : Agrees s.volume live sh d) :
    sh.path.length = 1 ↔ d = rootClusterNumber := by
  constructor
  · intro hlen
    by_contra hd
    have hup := (ha.path.up h hd).ne_nil
    refine hup (List.length_eq_zero_iff.1 ?_)
    simp [hlen]
  · intro hd
    have hpath := ha.path
    rw [hd] at hpath
    have hlen := congrArg List.length (hpath.unique h .root)
    simpa using hlen

variable (hinv : Inv s.volume live) (hheads : HeadsNamed s.volume live) (ha : Agrees s.volume live sh d)
variable (hb : PathBytes sh.path) {w : Word}
include hinv hheads ha

/-- The own name: row 0 is found first. -/
theorem cd_own {sh' : Shell} {s' : State} (hb : PathBytes sh.path) (hown : (s.volume.table d 0).name = w.arg.info)
    (hcd : cd sh s w.arg = some (sh', s')) : ¬ ∃ d', Agrees s.volume live sh' d' := by
  obtain ⟨hused, hfolder, hself, hup⟩ := hinv.self d ha.alive
  have hhas : HasFolder sh.dirTable w.arg.info := by
    rw [ha.table]
    exact ⟨0, hused, hfolder, hown⟩
  have htab := loadTable_readDirectory hinv ha.alive hown fun j hj => absurd hj (Nat.not_lt_zero j)
  rw [if_pos hfolder, hself] at htab
  rw [cd_moves hhas s rfl, ha.table, htab] at hcd
  by_cases hdot : w.arg.info = dotDot
  · obtain ⟨top, htop, hbytes⟩ := ha.top hinv hb
    rw [updatePath_up hdot htop, if_neg (by rw [hbytes, hown, hdot]; decide)] at hcd
    cases hcd
    refine ha.not_of_length hinv rfl ?_
    have hpos := List.length_pos_iff.2 (List.ne_nil_of_mem (List.mem_of_getLast? htop))
    simp only [List.length_dropLast]
    omega
  · rw [updatePath_down hdot ⟨(hheads.2 d ha.alive).1, hup, (hheads.2 d ha.alive).2⟩] at hcd
    split at hcd
    · cases hcd
      refine ha.not_of_length hinv rfl ?_
      simp
    · simp at hcd

/-- `..` finds row 1. -/
theorem cd_up {sh' : Shell} {s' : State} (hb : PathBytes sh.path) (hown : (s.volume.table d 0).name ≠ w.arg.info)
    (hdot : w.arg.info = dotDot) (hcd : cd sh s w.arg = some (sh', s')) :
    (∃ d', Agrees s.volume live sh' d') ↔ sh.path.length = 1 ∨
      leading (n := 4) (by decide) (s.volume.table d 0).name ≠ leading (by decide) rootName := by
  obtain ⟨-, -, -, hup⟩ := hinv.self d ha.alive
  obtain ⟨hused, hname⟩ := hheads.2 d ha.alive
  have hhas : HasFolder sh.dirTable w.arg.info := by
    rw [ha.table, hdot]
    exact ⟨1, hused, hup, hname⟩
  have htab := loadTable_readDirectory hinv ha.alive (hname.trans hdot.symm) fun j hj => by
    obtain rfl : j = 0 := by omega
    exact hown
  rw [if_pos hup] at htab
  obtain ⟨top, htop, hbytes⟩ := ha.top hinv hb
  rw [cd_moves hhas s rfl, ha.table, htab, updatePath_up hdot htop, hbytes] at hcd
  have hlive := hinv.rooted.closed d ha.alive
  cases hcd
  rw [ha.length_one hinv]
  by_cases hroot : leading (n := 4) (by decide) (s.volume.table d 0).name = leading (by decide) rootName
  · simp only [hroot, if_true, ne_eq, not_true, or_false]
    constructor
    · rintro ⟨d', ha'⟩
      by_contra hd
      -- the path is still the one of the directory below
      obtain rfl := ha'.unique hinv hlive rfl
      have hpath := congrArg List.length ((ha.path.up hinv hd).unique hinv ha'.path)
      have hpos := List.length_pos_iff.2 ha.path.ne_nil
      simp only [List.length_dropLast] at hpath
      omega
    · rintro rfl
      refine ⟨rootClusterNumber, hinv.root, ?_, ha.path⟩
      simp only [hinv.rootUp]
  · rw [if_neg hroot]
    refine iff_of_true ⟨_, hlive, rfl, ?_⟩ (.inr hroot)
    have hd : d ≠ rootClusterNumber := by
      rintro rfl
      rw [hheads.1] at hroot
      exact hroot rfl
    simp only [List.map_dropLast]
    exact ha.path.up hinv hd

/-- A folder is entered, if its row is the first with the name. -/
theorem cd_enters {sh' : Shell} {s' : State} (hdot : w.arg.info ≠ dotDot) {k : Fin 64} (hk2 : 2 ≤ k.val)
    (hu : (s.volume.table d k).Used) (hf : (s.volume.table d k).Folder) (hk : (s.volume.table d k).name = w.arg.info)
    (hno : ∀ j < k, (s.volume.table d j).name ≠ w.arg.info) (hcd : cd sh s w.arg = some (sh', s')) :
    Agrees s.volume live sh' (s.volume.table d k).cluster ∧ sh'.path = sh.path ++ [w.arg] := by
  have hhas : HasFolder sh.dirTable w.arg.info := by
    rw [ha.table]
    exact ⟨k, hu, hf, hk⟩
  have htab := loadTable_readDirectory hinv ha.alive hk hno
  obtain ⟨hlive, -, -, -⟩ := hinv.folder d k ⟨ha.alive, hk2, hu⟩ hf
  obtain ⟨hused', hname'⟩ := hheads.2 _ hlive
  rw [cd_moves hhas s rfl, ha.table, htab, if_pos hf,
    updatePath_down hdot ⟨hused', (hinv.self _ hlive).2.2.2, hname'⟩] at hcd
  split at hcd
  · cases hcd
    refine ⟨⟨hlive, rfl, ?_⟩, rfl⟩
    rw [List.map_append, List.map_singleton, w.arg_name, ← hk]
    exact .child ha.path ⟨ha.alive, hk2, hu⟩ hf
  · simp at hcd

/-- Any other name finds a row below the first two. -/
theorem cd_down {sh' : Shell} {s' : State} (hpl : RowsPlain s.volume live)
    (hown : (s.volume.table d 0).name ≠ w.arg.info) (hdot : w.arg.info ≠ dotDot) {k : Fin 64}
    (hk : (s.volume.table d k).name = w.arg.info) (hno : ∀ j < k, (s.volume.table d j).name ≠ w.arg.info)
    (hhas : HasFolder sh.dirTable w.arg.info) (hcd : cd sh s w.arg = some (sh', s')) :
    (∃ d', Agrees s.volume live sh' d') ↔ (s.volume.table d k).Folder := by
  have hname := (hheads.2 d ha.alive).2
  have hk2 : 2 ≤ k.val := by
    by_contra hlt
    have hcases : k = 0 ∨ k = 1 := by omega
    rcases hcases with rfl | rfl
    · exact hown hk
    · exact hdot (hk.symm.trans hname)
  by_cases hf : (s.volume.table d k).Folder
  · have hu : (s.volume.table d k).Used := by
      by_contra hu
      exact (hpl d ha.alive k hk2).1 hu hf
    exact iff_of_true ⟨_, (cd_enters hinv hheads ha hdot hk2 hu hf hk hno hcd).1⟩ hf
  · have htab := loadTable_readDirectory hinv ha.alive hk hno
    rw [cd_moves hhas s rfl, ha.table, htab, if_neg hf] at hcd
    obtain ⟨path, -, he⟩ := Option.map_eq_some_iff.1 hcd
    cases he
    refine iff_of_false ?_ hf
    rintro ⟨d', ha'⟩
    have hu := (hinv.self d' ha'.alive).1
    rw [← ha'.table] at hu
    exact absurd hu not_used_zeroEntry

/-- `..` keeps the shell right in a directory of an ordinary name. -/
theorem cdKeeps_up {name : Fin 8 → UInt8} (hlast : (sh.path.map Arg.name).getLast? = some name) (hown : name ≠ dotDot)
    (hroot : leading (n := 4) (by decide) name ≠ leading (by decide) rootName) (hw : w.arg.info = dotDot) :
    CdKeeps sh w := by
  obtain ⟨-, hfolder, -, hup⟩ := hinv.self d ha.alive
  have hname : (s.volume.table d 0).name = name := Option.some_inj.1 ((ha.path.getLast? hinv).symm.trans hlast)
  unfold CdKeeps
  rw [ha.table, hname, hw]
  refine .inr ⟨hown, fun _ => .inr hroot, fun i hmin _ => ?_⟩
  have hi : ¬ 1 < i := fun hlt => hmin 1 hlt (hheads.2 d ha.alive).2
  have hcases : i = 0 ∨ i = 1 := by omega
  rcases hcases with rfl | rfl
  · exact hfolder
  · exact hup

end Keep

/-- **One `cd`.** On a shell that is right it leaves it right exactly if the condition holds. -/
theorem cd_agrees_iff {s s' : State} {live : Finset Nat} {sh sh' : Shell} {d : Nat} {w : Word} (hrun : Run Safe s live)
    (ha : Agrees s.volume live sh d) (hb : PathBytes sh.path) (hcd : cd sh s w.arg = some (sh', s')) :
    (∃ d', Agrees s.volume live sh' d') ↔ CdKeeps sh w := by
  obtain ⟨hinv, hpl⟩ := hrun.rowsPlain
  have hheads := hrun.headsNamed
  unfold CdKeeps
  by_cases hhas : HasFolder sh.dirTable w.arg.info
  swap
  · rw [cd_stays hhas] at hcd
    cases hcd
    exact iff_of_true ⟨d, ha⟩ (.inl hhas)
  rw [ha.table]
  by_cases hown : (s.volume.table d 0).name = w.arg.info
  · refine iff_of_false (cd_own hinv hheads ha hb hown hcd) ?_
    rintro (hnot | ⟨hne, -⟩)
    · rw [ha.table] at hhas
      exact hnot hhas
    · exact hne hown
  have hhas' : HasFolder (s.volume.table d) w.arg.info := by rwa [ha.table] at hhas
  obtain ⟨i, -, -, hi⟩ := hhas'
  obtain ⟨k, -, hk, hno⟩ := exists_first_row (p := fun j => (s.volume.table d j).name = w.arg.info) hi
  -- the first row with the name is the one the condition speaks about
  have hfirst : (∀ i, (∀ j < i, (s.volume.table d j).name ≠ w.arg.info) → (s.volume.table d i).name = w.arg.info →
      (s.volume.table d i).Folder) ↔ (s.volume.table d k).Folder := by
    constructor
    · exact fun hall => hall k hno hk
    · intro hf i hmin hi
      obtain rfl : i = k := first_row_unique hi hmin hk hno
      exact hf
  have hnot : ¬ ¬ HasFolder (s.volume.table d) w.arg.info := by
    rw [ha.table] at hhas
    exact not_not_intro hhas
  rw [hfirst]
  simp only [hnot, false_or, hown, ne_eq, not_false_eq_true, true_and]
  by_cases hdot : w.arg.info = dotDot
  · obtain ⟨-, hname⟩ := hheads.2 d ha.alive
    have hkf : (s.volume.table d k).Folder := by
      refine hfirst.1 fun i hmin hi => ?_
      have hlow : ∀ j < 1, (s.volume.table d j).name ≠ w.arg.info := by
        intro j hj
        obtain rfl : j = 0 := by omega
        exact hown
      rw [first_row_unique hi hmin (hname.trans hdot.symm) hlow]
      exact (hinv.self d ha.alive).2.2.2
    rw [cd_up hinv hheads ha hb hown hdot hcd]
    simp [hdot, hkf]
  · rw [cd_down hinv hheads ha hpl hown hdot hk hno hhas hcd]
    simp [hdot]

/-! ## Commands in a row -/

/-- An update keeps what holds of every entry, if it holds of the word. -/
theorem updatePath_forall {P : Arg → Prop} {t : Table} {path path' : List Arg} {w : Word} (hb : ∀ a ∈ path, P a)
    (hw : P w.arg) (h : updatePath t path w.arg = some path') : ∀ a ∈ path', P a := by
  unfold updatePath at h
  split at h
  · obtain ⟨top, -, rfl⟩ := Option.map_eq_some_iff.1 h
    split
    · exact fun a ha => hb a (List.mem_of_mem_dropLast ha)
    · exact hb
  · split at h
    · split at h
      · cases h
        intro a ha
        rcases List.mem_append.1 ha with ha | ha
        · exact hb a ha
        · rw [List.mem_singleton.1 ha]
          exact hw
      · simp at h
    · cases h
      exact hb

theorem PathBytes.updatePath {t : Table} {path path' : List Arg} {w : Word} (hb : PathBytes path)
    (h : updatePath t path w.arg = some path') : PathBytes path' :=
  updatePath_forall hb (congrArg (leading (n := 4) (by decide)) w.arg_name.symm) h

theorem cd_forall {P : Arg → Prop} {sh sh' : Shell} {s s' : State} {w : Word} (hb : ∀ a ∈ sh.path, P a) (hw : P w.arg)
    (h : cd sh s w.arg = some (sh', s')) : ∀ a ∈ sh'.path, P a := by
  by_cases hhas : HasFolder sh.dirTable w.arg.info
  · rw [cd_moves hhas s rfl] at h
    obtain ⟨path, hpath, he⟩ := Option.map_eq_some_iff.1 h
    obtain ⟨rfl, -⟩ := Prod.mk.inj he
    exact updatePath_forall hb hw hpath
  · rw [cd_stays hhas] at h
    cases h
    exact hb

/-- With room in `path` the update does not leave it. -/
theorem updatePath_isSome {t : Table} {path : List Arg} (hne : path ≠ []) (hlen : path.length < 10) (a : Arg) :
    ∃ path', updatePath t path a = some path' := by
  unfold updatePath
  split
  · rw [List.getLast?_eq_some_getLast hne]
    exact ⟨_, rfl⟩
  · split
    · exact ⟨_, rfl⟩
    · exact ⟨_, rfl⟩

theorem cd_isSome {sh : Shell} (hne : sh.path ≠ []) (hlen : sh.path.length < 10) (s : State) (w : Word) :
    ∃ sh' s', cd sh s w.arg = some (sh', s') := by
  by_cases hhas : HasFolder sh.dirTable w.arg.info
  · rw [cd_moves hhas s rfl]
    obtain ⟨path', hpath'⟩ := updatePath_isSome hne hlen w.arg
    rw [hpath']
    exact ⟨_, _, rfl⟩
  · exact ⟨sh, s, cd_stays hhas s⟩

/-- `cd` only reads the volume. -/
theorem cd_run {s s' : State} {live : Finset Nat} {sh sh' : Shell} {d : Nat} {w : Word} (hrun : Run Safe s live)
    (ha : Agrees s.volume live sh d) (hb : PathBytes sh.path) (hcd : cd sh s w.arg = some (sh', s')) :
    Run Safe s' live ∧ s'.volume = s.volume ∧ PathBytes sh'.path := by
  by_cases hhas : HasFolder sh.dirTable w.arg.info
  · rw [cd_moves hhas s rfl] at hcd
    obtain ⟨path, hpath, he⟩ := Option.map_eq_some_iff.1 hcd
    obtain ⟨rfl, rfl⟩ := Prod.mk.inj he
    refine ⟨hrun.readDirectory ?_, readDirectory_volume _, hb.updatePath hpath⟩
    have hparent : (getClusterNumber sh.dirTable).toNat = d := by
      rw [ha.table]
      exact getClusterNumber_table hrun.safe_inv ha.alive
    exact (show (getClusterNumber sh.dirTable).toNat ∈ live from hparent ▸ ha.alive)
  · rw [cd_stays hhas] at hcd
    cases hcd
    exact ⟨hrun, rfl, hb⟩

/-- A folder that is made disturbs no row in use and no directory's own entry. -/
theorem mkdir_undisturbed {v : Volume} {live live' : Finset Nat} {r : Request} {fx : Effect} (h : Inv v live)
    (hz : r.bufferSize = 0) (ho : Outcome v live (.write r) fx live') :
    (∀ d ∈ live, d ∈ live' ∧ (v.apply fx).table d 0 = v.table d 0) ∧
      ∀ d i, v.LiveRow live d i → (v.apply fx).LiveRow live' d i ∧ (v.apply fx).table d i = v.table d i := by
  cases ho with
  | refused _ => exact ⟨fun d hd => ⟨hd, rfl⟩, fun d i hr => ⟨hr, rfl⟩⟩
  | @mkdir r row c hp href hz' hrow hfree =>
    obtain ⟨hrow2, hu⟩ := findFreeRow_eq_some hrow
    have hch := h.mkdir_change hp hz hrow hfree
    have hnot : ∀ d ∈ live, d ∉ [c] := fun d hd hm => (h.of_free hfree).2.2.2 (List.mem_singleton.1 hm ▸ hd)
    refine ⟨fun d hd => ⟨Finset.mem_insert_of_mem hd, (h.edit_heads hch.edit hd (hnot d hd) hrow2).1⟩, fun d i hr => ?_⟩
    have hsame : (v.apply (v.mkdir r row c)).table d i = v.table d i := by
      refine h.edit_table hch.edit hr.1 (hnot d hr.1) ?_
      rw [r.stored_parent]
      rintro ⟨rfl, rfl⟩
      exact hu hr.2.2
    refine ⟨⟨Finset.mem_insert_of_mem hr.1, hr.2.1, ?_⟩, hsame⟩
    rw [hsame]
    exact hr.2.2
  | mkfile _ _ hz' _ _ _ _ => exact absurd hz hz'
  | lookup hop =>
    obtain ⟨q, hq | hq⟩ := hop
    · cases hq
    · cases hq

/-- `mkdir` and the refresh after it leave the shell in its directory. -/
theorem mkdir_agrees {s s' : State} {live : Finset Nat} {sh sh' : Shell} {d : Nat} {w : Word} (hrun : Run Safe s live)
    (ha : Agrees s.volume live sh d) (hsafe : Safe s.volume live (.write (mkdirRequest sh w.arg)))
    (hm : mkdir sh s w.arg = (sh', s')) :
    Run Safe s' (liveAfter s live (.write (mkdirRequest sh w.arg)) (write s (mkdirRequest sh w.arg)).1) ∧
      Agrees s'.volume (liveAfter s live (.write (mkdirRequest sh w.arg)) (write s (mkdirRequest sh w.arg)).1) sh' d ∧
      sh'.path = sh.path := by
  obtain ⟨hdoes, ho⟩ := write_outcome hsafe.1 hsafe.2
  have hrun₁ := hrun.write hsafe
  rw [← hdoes.code] at ho
  generalize liveAfter s live (.write (mkdirRequest sh w.arg)) (write s (mkdirRequest sh w.arg)).1 = live' at *
  obtain ⟨hkeep, hrows⟩ := mkdir_undisturbed hrun.safe_inv rfl ho
  rw [← hdoes.volume] at hkeep hrows
  unfold mkdir cdRefresh at hm
  generalize (write s (mkdirRequest sh w.arg)).2 = s₁ at hm hrun₁ hkeep hrows
  obtain ⟨rfl, rfl⟩ := Prod.mk.inj hm
  obtain ⟨hd', hrow0⟩ := hkeep d ha.alive
  have hinv₁ := hrun₁.safe_inv
  have htable : sh.dirTable 0 = s₁.volume.table d 0 := by rw [ha.table, hrow0]
  have hcluster : getClusterNumber sh.dirTable = getClusterNumber (s₁.volume.table d) := by
    unfold getClusterNumber
    rw [htable]
  have htab := loadTable_readDirectory hinv₁ hd' (j := 0) rfl fun j hj => absurd hj (Nat.not_lt_zero j)
  rw [if_pos (hinv₁.self d hd').2.1, (hinv₁.self d hd').2.2.1] at htab
  rw [hcluster, htable]
  refine ⟨hrun₁.readDirectory ?_, ⟨hd', ?_, ?_⟩, rfl⟩
  · rw [show (directoryRequest (s₁.volume.table d 0).name (getClusterNumber (s₁.volume.table d))).parent = d from
      getClusterNumber_table hinv₁ hd']
    exact hd'
  · rw [readDirectory_volume]
    exact htab
  · rw [readDirectory_volume]
    exact ha.path.mono (congrArg DirEntry.name (hkeep _ hrun.safe_inv.root).2) hrows

inductive ShellCommand where
  | cd (w : Word)
  | mkdir (w : Word)

structure Session where
  state : State
  live  : Finset Nat
  shell : Shell

/-- The command leads from the one session to the other. -/
def ShellCommand.Runs (x : Session) (c : ShellCommand) (y : Session) : Prop :=
  match c with
  | .cd w => MoggersOs.cd x.shell x.state w.arg = some (y.shell, y.state) ∧ y.live = x.live
  | .mkdir w => MoggersOs.mkdir x.shell x.state w.arg = (y.shell, y.state) ∧
      y.live = liveAfter x.state x.live (.write (mkdirRequest x.shell w.arg))
        (write x.state (mkdirRequest x.shell w.arg)).1

/-- A `cd` meets its condition, and a folder that is made fits on the volume or is refused. -/
def ShellCommand.Keeps (x : Session) : ShellCommand → Prop
  | .cd w => CdKeeps x.shell w
  | .mkdir w => Safe x.state.volume x.live (.write (mkdirRequest x.shell w.arg))

/-- The shell after `cd_root`. -/
def Session.start (garbage : Fin 3 → UInt8) (s : State) (live : Finset Nat) : Session :=
  ⟨(cdRoot garbage s).2, live, (cdRoot garbage s).1⟩

/-- What holds between two commands. -/
structure Session.Right (x : Session) : Prop where
  run    : Run Safe x.state x.live
  agrees : ∃ d, Agrees x.state.volume x.live x.shell d
  bytes  : PathBytes x.shell.path

theorem Session.start_agrees {s : State} {live : Finset Nat} (h : Run Safe s live) (garbage : Fin 3 → UInt8) :
    Agrees (Session.start garbage s live).state.volume live (Session.start garbage s live).shell rootClusterNumber := by
  have hinv := h.safe_inv
  obtain ⟨hroot, -⟩ := h.headsNamed
  have h2 : (2 : UInt32) = getClusterNumber (s.volume.table rootClusterNumber) :=
    UInt32.toNat_inj.1 (getClusterNumber_table hinv hinv.root).symm
  have htab := loadTable_readDirectory hinv hinv.root hroot fun j hj => absurd hj (Nat.not_lt_zero j)
  rw [if_pos (hinv.self _ hinv.root).2.1, (hinv.self _ hinv.root).2.2.1, ← h2] at htab
  have hname : (rootArg garbage).name = (s.volume.table rootClusterNumber 0).name := by
    rw [hroot]
    funext i
    by_cases hi : i.val < 4
    · have h5 : i.val < 5 := by omega
      simp [Arg.name, rootArg, hi, h5]
    · simp [Arg.name, rootArg, rootName, hi]
  rw [start, cdRoot, readDirectory_volume]
  refine ⟨hinv.root, htab, ?_⟩
  rw [List.map_singleton, hname]
  exact .root

theorem rootArg_bytes (garbage : Fin 3 → UInt8) : PathBytes [rootArg garbage] := by
  intro a ha
  rw [List.mem_singleton.1 ha]
  funext i
  have hi := i.isLt
  simp [leading, Arg.name, rootArg]

theorem Session.start_right {s : State} {live : Finset Nat} (h : Run Safe s live) (garbage : Fin 3 → UInt8) :
    (Session.start garbage s live).Right :=
  ⟨h.readDirectory h.safe_inv.root, ⟨rootClusterNumber, Session.start_agrees h garbage⟩, rootArg_bytes garbage⟩

theorem Session.Right.step {x y : Session} {c : ShellCommand} (h : x.Right) (hk : c.Keeps x) (hr : c.Runs x y) :
    y.Right := by
  obtain ⟨d, ha⟩ := h.agrees
  cases c with
  | cd w =>
    obtain ⟨hcd, hlive⟩ := hr
    have hiff := cd_agrees_iff h.run ha h.bytes hcd
    obtain ⟨hrun, hvol, hbytes⟩ := cd_run h.run ha h.bytes hcd
    constructor
    · rw [hlive]
      exact hrun
    · rw [hlive, hvol]
      exact hiff.2 hk
    · exact hbytes
  | mkdir w =>
    obtain ⟨hm, hlive⟩ := hr
    obtain ⟨hrun, hagrees, hpath⟩ := mkdir_agrees h.run ha hk hm
    constructor
    · rw [hlive]
      exact hrun
    · rw [hlive]
      exact ⟨d, hagrees⟩
    · rw [hpath]
      exact h.bytes

/-- **The path and the directory agree** after any `cd`s that meet their condition and any folders made in between;
and for the next `cd` the condition is exact. Short of the tenth name every `cd` returns. -/
theorem path_agrees {s : State} {live : Finset Nat} (hrun : Run Safe s live) (garbage : Fin 3 → UInt8)
    {cmds : List ShellCommand} {x : Session}
    (hpath : Lib.Path (fun x c y => c.Keeps x ∧ c.Runs x y) (Session.start garbage s live) cmds x) :
    (∃ d, Agrees x.state.volume x.live x.shell d) ∧
      ∀ w, (x.shell.path.length < 10 → ∃ y, (ShellCommand.cd w).Runs x y) ∧
        ∀ y, (ShellCommand.cd w).Runs x y → ((∃ d, Agrees y.state.volume y.live y.shell d) ↔ CdKeeps x.shell w) := by
  have h : x.Right := hpath.invariant (fun _ _ _ h hs => h.step hs.1 hs.2) (Session.start_right hrun garbage)
  obtain ⟨d, ha⟩ := h.agrees
  refine ⟨⟨d, ha⟩, fun w => ⟨fun hlen => ?_, fun y hr => ?_⟩⟩
  · have hne : x.shell.path ≠ [] := fun hnil => ha.path.ne_nil (by rw [hnil]; rfl)
    obtain ⟨sh', s', hcd⟩ := cd_isSome hne hlen x.state w
    exact ⟨⟨s', x.live, sh'⟩, hcd, rfl⟩
  · obtain ⟨hcd, hlive⟩ := hr
    obtain ⟨-, hvol, -⟩ := cd_run h.run ha h.bytes hcd
    rw [hlive, hvol]
    exact cd_agrees_iff h.run ha h.bytes hcd

/-- The shell on a fresh volume. -/
def freshSession : Session := .start (fun _ => 0) (createFat32 blankState) {rootClusterNumber}

theorem freshSession_path : freshSession.shell.path = [rootArg fun _ => 0] := rfl

theorem freshSession_table : freshSession.shell.dirTable = formattedRoot := by
  have ha := Session.start_agrees (Run.format Safe blankState) fun _ => 0
  rw [freshSession, ha.table, Session.start, cdRoot, readDirectory_volume, createFat32_table]

/-- The word `a`, the name of the folder. -/
def folderWord : Word := ⟨[97], by decide, by simp⟩

/-- The word `..`. -/
def upWord : Word := ⟨[46, 46], by decide, by simp⟩

theorem freshSession_request : mkdirRequest freshSession.shell folderWord.arg = folderRequest := by
  unfold mkdirRequest
  rw [freshSession_table]
  have hname : folderWord.arg.name = folderRequest.name := by decide
  rw [hname]
  rfl

theorem freshSession_volume : freshSession.state.volume = (createFat32 blankState).volume := by
  rw [freshSession, Session.start, cdRoot, readDirectory_volume]

/-- After a `mkdir`. -/
def Session.mkdir (x : Session) (w : Word) : Session :=
  ⟨(MoggersOs.mkdir x.shell x.state w.arg).2, liveAfter x.state x.live (.write (mkdirRequest x.shell w.arg))
    (write x.state (mkdirRequest x.shell w.arg)).1, (MoggersOs.mkdir x.shell x.state w.arg).1⟩

theorem Session.mkdir_runs (x : Session) (w : Word) : (ShellCommand.mkdir w).Runs x (x.mkdir w) := ⟨rfl, rfl⟩

/-- The driver of the session does not matter, only its volume. -/
theorem Session.mkdir_volume {x : Session} {w : Word} {t : State} (hv : x.state.volume = t.volume)
    (hfit : t.volume.Fits (mkdirRequest x.shell w.arg)) :
    (x.mkdir w).state.volume = (write t (mkdirRequest x.shell w.arg)).2.volume := by
  unfold mkdir MoggersOs.mkdir cdRefresh
  rw [readDirectory_volume, (write_does (hv ▸ hfit)).volume, (write_does hfit).volume, hv]

theorem freshSession_keeps : (ShellCommand.mkdir folderWord).Keeps freshSession := by
  have hord := folderRequest_ordinary blankState
  have hinv := createFat32_inv blankState
  rw [← freshSession_volume] at hord hinv
  change Safe _ _ (.write (mkdirRequest freshSession.shell folderWord.arg))
  rw [freshSession_request]
  exact hord.safe hinv

theorem Session.Right.mkdir {x : Session} {w : Word} {d : Nat} (h : x.Right)
    (ha : Agrees x.state.volume x.live x.shell d) (hk : (ShellCommand.mkdir w).Keeps x) :
    (x.mkdir w).Right ∧ Agrees (x.mkdir w).state.volume (x.mkdir w).live (x.mkdir w).shell d ∧
      (x.mkdir w).shell.path = x.shell.path := by
  have hruns := x.mkdir_runs w
  obtain ⟨-, hagrees, hpath⟩ := mkdir_agrees h.run ha hk hruns.1
  exact ⟨h.step hk hruns, hagrees, hpath⟩

theorem freshSession_right : freshSession.Right := Session.start_right (Run.format Safe blankState) fun _ => 0

theorem freshSession_agrees :
    Agrees freshSession.state.volume freshSession.live freshSession.shell rootClusterNumber :=
  Session.start_agrees (Run.format Safe blankState) fun _ => 0

/-- It shows the folder. -/
theorem madeSession_table : (freshSession.mkdir folderWord).state.volume.table rootClusterNumber =
    Function.update formattedRoot 2 (newDirectory folderRequest.name rootClusterNumber 3 0) := by
  have hfit := (folderRequest_ordinary blankState).2.2.2
  rw [← freshSession_request] at hfit
  rw [Session.mkdir_volume freshSession_volume hfit, freshSession_request, withFolder_table]

/-- Row 2 is the folder's, and no row before has its name. -/
theorem folder_row {t : Table}
    (ht : t = Function.update formattedRoot 2 (newDirectory folderRequest.name rootClusterNumber 3 0)) :
    (t 2).Used ∧ (t 2).Folder ∧ (t 2).name = folderWord.arg.info ∧ ∀ j < 2, (t j).name ≠ folderWord.arg.info := by
  have hrow : t 2 = newDirectory folderRequest.name rootClusterNumber 3 0 := by
    rw [ht, Function.update_self]
  rw [hrow]
  refine ⟨by decide, by decide, by decide, ?_⟩
  rw [ht]
  decide

/-- `mkdir a`, `cd a` and `cd ..`. -/
theorem path_agrees_up : ∃ x y d, (ShellCommand.cd folderWord).Runs (freshSession.mkdir folderWord) x ∧
    x.shell.path = [rootArg fun _ => 0, folderWord.arg] ∧
    (ShellCommand.cd upWord).Runs x y ∧ Agrees y.state.volume y.live y.shell d := by
  have hrun := Run.format Safe blankState
  have hpath : Lib.Path (fun x c y => ShellCommand.Keeps x c ∧ c.Runs x y) freshSession [.mkdir folderWord]
      (freshSession.mkdir folderWord) := .cons ⟨freshSession_keeps, Session.mkdir_runs ..⟩ .nil
  obtain ⟨hright, ha, hroot⟩ := freshSession_right.mkdir freshSession_agrees freshSession_keeps
  rw [freshSession_path] at hroot
  obtain ⟨hused, hfolder, hname, hfirst⟩ := folder_row madeSession_table
  generalize freshSession.mkdir folderWord = made at *
  obtain ⟨x, hx⟩ := ((path_agrees hrun (fun _ => 0) hpath).2 folderWord).1 (by rw [hroot]; decide)
  have hinv := hright.run.safe_inv
  have hheads := hright.run.headsNamed
  obtain ⟨hax, hxpath⟩ := cd_enters hinv hheads ha (by decide) (by decide) hused hfolder hname hfirst hx.1
  have hdown : (ShellCommand.cd folderWord).Keeps made := (cd_agrees_iff hright.run ha hright.bytes hx.1).1 ⟨_, hax⟩
  have hpath₂ := hpath.snoc ⟨hdown, hx⟩
  rw [hroot] at hxpath
  obtain ⟨y, hy⟩ := ((path_agrees hrun (fun _ => 0) hpath₂).2 upWord).1 (by rw [hxpath]; decide)
  have hlast : (x.shell.path.map Arg.name).getLast? = some folderWord.arg.name := by
    rw [hxpath]
    rfl
  have hup : (ShellCommand.cd upWord).Keeps x := cdKeeps_up hinv hheads hax hlast (by decide) (by decide) (by decide)
  obtain ⟨⟨d, hd⟩, -⟩ := path_agrees hrun (fun _ => 0) (hpath₂.snoc ⟨hup, hy⟩)
  exact ⟨x, y, d, hx, hxpath, hy, hd⟩

/-- The word `root`. -/
def rootWord : Word := ⟨[114, 111, 111, 116], by decide, by simp⟩

/-- `cd root` in the root directory stays there and calls it `root/root`. -/
theorem not_path_agrees_root : ¬ ∀ s live garbage cmds x, Run LiveParent s live →
    Lib.Path (fun x c y => ShellCommand.Runs x c y) (Session.start garbage s live) cmds x →
    ∃ d, Agrees x.state.volume x.live x.shell d := by
  intro hall
  have hrun := Run.format Safe blankState
  have hright := Session.start_right hrun fun _ => 0
  have ha := Session.start_agrees hrun fun _ => 0
  have hne : freshSession.shell.path ≠ [] := by
    rw [freshSession_path]
    exact List.cons_ne_nil _ _
  have hlen : freshSession.shell.path.length < 10 := by
    rw [freshSession_path]
    decide
  obtain ⟨sh', s', hcd⟩ := cd_isSome hne hlen freshSession.state rootWord
  have hruns : (ShellCommand.cd rootWord).Runs freshSession ⟨s', {rootClusterNumber}, sh'⟩ := ⟨hcd, rfl⟩
  have hpath : Lib.Path (fun x c y => ShellCommand.Runs x c y) freshSession [.cd rootWord]
      ⟨s', {rootClusterNumber}, sh'⟩ := .cons hruns .nil
  have hagrees := hall _ _ _ _ _ (Run.format LiveParent blankState) hpath
  obtain ⟨-, hvol, -⟩ := cd_run hright.run ha hright.bytes hcd
  rw [hvol] at hagrees
  rcases (cd_agrees_iff hright.run ha hright.bytes hcd).1 hagrees with hnone | ⟨hown, -⟩
  · refine hnone ?_
    rw [show (Session.start (fun _ => 0) (createFat32 blankState) {rootClusterNumber}).shell.dirTable = formattedRoot from
      freshSession_table]
    exact ⟨0, rfl, rfl, rfl⟩
  · refine hown ?_
    rw [show (Session.start (fun _ => 0) (createFat32 blankState) {rootClusterNumber}).shell.dirTable = formattedRoot from
      freshSession_table]
    rfl

end MoggersOs
