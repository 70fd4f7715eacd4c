import MoggersOs.Lib.DepthFirst
import MoggersOs.Shell.Path
/-
# `find` (`user_mode/command_list/find.c`)

`find_recursive` fetches the table of a folder by looking the folder's name up in the folder itself, where row 0 has
it. So what it searches is the tree of the volume, and the names it puts on its copy of the path are those of the
directories on the way (`findRecursive_eq`, an instance of `Lib/DepthFirst.lean`). `find` does not look at the result:
what it prints is the path it started with if the search was in vain.

| here | there |
| --- | --- |
| `findRows`, `findRecursive` | `find_recursive` (`find.c:42-82`), the loop and the whole of it |
| `Found`                     | what a call returns and leaves in `*ans_path` |
| `find`                      | `find` (`find.c:3-40`) |
| `RowAt`                     | a row in use in a directory or below it, by the rows that lead to it |
| `FindReports`               | the path printed leads to the row, and nothing is printed without one |

The recursion takes fuel. `none` means that it ran out, that a name was put behind the ten entries of `path`, or that a
name to be printed had no end; none of them happens while every directory has a path of ten names at most.
-/

namespace MoggersOs

/-! ## The code -/

/-- `temp_arg`. -/
def DirEntry.arg (e : DirEntry) : Arg := ⟨e.name, e.ext, 8, 3⟩

/-- The request for the table of a folder: in the folder itself, by its own name. -/
def folderTableRequest (buffer : Nat → UInt8) (e : DirEntry) : Request :=
  { directoryRequest e.name (getClusterNumberSelf e) with buf := buffer }

structure Found where
  result  : Bool
  ansPath : List Arg
  state   : State

/-- The rows that the loop visits. -/
def entryRows : List (Fin 64) := (List.finRange 64).drop 2

section
variable (garbage : List Arg → Fin 64 → Nat → UInt8) (target : Arg)

/-- The loop from a row on; `search` is the call for a folder, and `garbage` what its local `buffer` holds before. -/
def findRows (search : List Arg → Table → State → List Arg → Option Found) (path : List Arg) (t : Table) :
    List (Fin 64) → State → List Arg → Option Found
  | [], s, ansPath => some ⟨false, ansPath, s⟩
  | i :: is, s, ansPath =>
    if (t i).userAttribute = uattrNotEmpty then
      if memcmp (t i).name target.info = 0 ∧ memcmp (t i).ext target.ext = 0 then some ⟨true, path, s⟩
      else if (t i).attr = attrSubdirectory then
        let out := readDirectory s (folderTableRequest (garbage path i) (t i))
        if path.length < 10 then
          (search (path ++ [(t i).arg]) (loadTable out.1.buf) out.2 ansPath).bind fun f =>
            if f.result then some f else findRows search path t is f.state f.ansPath
        else none
      else findRows search path t is s ansPath
    else findRows search path t is s ansPath

def findRecursive : Nat → List Arg → Table → State → List Arg → Option Found
  | 0, _, _, _, _ => none
  | fuel + 1, path, t, s, ansPath => findRows garbage target (findRecursive fuel) path t entryRows s ansPath

end

def slash : UInt8 := '/'.toUInt8

/-- The bytes up to the first 0 (`find.c:13-17`, `22-26`): `ext` is behind `info`. -/
def Arg.text (a : Arg) : Option (List UInt8) :=
  let bytes := List.ofFn a.info ++ List.ofFn a.ext
  if 0 ∈ bytes then some (bytes.takeWhile (· ≠ 0)) else none

/-- Every entry of the path with a slash behind it. -/
def pathText : List Arg → Option (List UInt8)
  | [] => some []
  | a :: path => a.text.bind fun text => (pathText path).map fun rest => text ++ slash :: rest

/-- What `find` hands to `puts`, and the state. Ten entries of eleven bytes fit into `str`. -/
def find (garbage : List Arg → Fin 64 → Nat → UInt8) (fuel : Nat) (sh : Shell) (s : State) (argument : Arg) :
    Option (List UInt8 × State) :=
  (findRecursive garbage argument fuel sh.path sh.dirTable s sh.path).bind fun f =>
    (pathText f.ansPath).bind fun path => argument.text.map fun text => (path ++ text, f.state)

/-! ## The rows in a directory and below it -/

/-- The rows `a` lead from directory `d` to row `i` of directory `e`, through directories with these names. -/
inductive RowAt (v : Volume) (live : Finset Nat) : Nat → List (Fin 64) → List (Fin 8 → UInt8) → Nat → Fin 64 → Prop
  | here {d : Nat} {i : Fin 64} (hr : v.LiveRow live d i) : RowAt v live d [i] [] d i
  | down {d e : Nat} {i j : Fin 64} {a : List (Fin 64)} {names : List (Fin 8 → UInt8)} (hr : v.LiveRow live d i)
      (hf : (v.table d i).Folder) (h : RowAt v live (v.table d i).cluster a names e j) :
      RowAt v live d (i :: a) ((v.table d i).name :: names) e j

/-- The row has the name and the extension. -/
def Named (target : Arg) (e : DirEntry) : Prop := e.name = target.info ∧ e.ext = target.ext

/-- Every directory is at most nine levels below the root. -/
def NineLevels (v : Volume) (live : Finset Nat) : Prop := ∀ d names, TreePath v live d names → names.length ≤ 10

theorem mem_entryRows {i : Fin 64} : i ∈ entryRows ↔ 2 ≤ i.val := by
  revert i
  decide

theorem entryRows_pairwise : entryRows.Pairwise (· < ·) := (List.pairwise_lt_finRange 64).drop

namespace TreePath

variable {v : Volume} {live : Finset Nat} {d : Nat} {names : List (Fin 8 → UInt8)}

/-- Every directory has a path. -/
theorem of_live (h : Inv v live) (hd : d ∈ live) : ∃ names, TreePath v live d names := by
  obtain ⟨k, hk⟩ := h.rooted.reach d hd
  induction k generalizing d with
  | zero =>
    obtain rfl : d = rootClusterNumber := hk
    exact ⟨_, .root⟩
  | succ k ih =>
    by_cases hroot : d = rootClusterNumber
    · rw [hroot]
      exact ⟨_, .root⟩
    · obtain ⟨p, i, hr, hf, rfl⟩ := h.parent d hd hroot
      rw [Function.iterate_succ_apply, (h.folder p i hr hf).2.2.1] at hk
      obtain ⟨names, hp⟩ := ih hr.1 hk
      exact ⟨_, .child hp hr hf⟩

/-- The directories on the way to a row prolong the path. -/
theorem append (hp : TreePath v live d names) {a : List (Fin 64)} {more : List (Fin 8 → UInt8)} {e : Nat} {i : Fin 64}
    (h : RowAt v live d a more e i) : TreePath v live e (names ++ more) := by
  induction h generalizing names with
  | here _ =>
    rw [List.append_nil]
    exact hp
  | down hr hf _ ih =>
    rw [List.append_cons]
    exact ih (.child hp hr hf)

end TreePath

/-! ## The search is a depth-first search -/

instance (target : Arg) (e : DirEntry) : Decidable (Named target e) := inferInstanceAs (Decidable (_ ∧ _))

/-- The row is in use and has the name. -/
def Hit (v : Volume) (live : Finset Nat) (target : Arg) (d : Nat) (i : Fin 64) : Prop :=
  v.LiveRow live d i ∧ Named target (v.table d i)

instance (v : Volume) (live : Finset Nat) (target : Arg) (d : Nat) : DecidablePred (Hit v live target d) := fun _ =>
  inferInstanceAs (Decidable (_ ∧ _))

/-- The directory that a folder's row leads to. -/
def folderBelow (v : Volume) (live : Finset Nat) (d : Nat) (i : Fin 64) : Option Nat :=
  if v.LiveRow live d i ∧ (v.table d i).Folder then some (v.table d i).cluster else none

/-- An entry of the path for a folder: `find_recursive` makes them from rows. -/
def folderArg (name : Fin 8 → UInt8) : Arg := ⟨name, fun _ => 0, 8, 3⟩

/-- The entries for the folders on the way. -/
def wayArgs (v : Volume) : Nat → List (Fin 64) → List Arg
  | d, i :: j :: a => (v.table d i).arg :: wayArgs v (v.table d i).cluster (j :: a)
  | _, _ => []

/-- What a call returns if the search comes to this. -/
def foundBy (path ansPath : List Arg) (s : State) : Option (List Arg) → Found
  | none => ⟨false, ansPath, s⟩
  | some way => ⟨true, path ++ way, s⟩

section
variable {v : Volume} {live : Finset Nat} {target : Arg} {d e : Nat} {i j : Fin 64} {a : List (Fin 64)}

theorem folderBelow_eq_some {c : Nat} :
    folderBelow v live d i = some c ↔ (v.LiveRow live d i ∧ (v.table d i).Folder) ∧ (v.table d i).cluster = c := by
  unfold folderBelow
  split
  next h => simp [h]
  next h => simp [h]

theorem leads_iff : Lib.Leads entryRows (Hit v live target) (folderBelow v live) d a ↔
    ∃ names e i, RowAt v live d a names e i ∧ Named target (v.table e i) := by
  constructor
  · intro h
    induction h with
    | here _ hh => exact ⟨_, _, _, .here hh.1, hh.2⟩
    | down _ hc _ ih =>
      obtain ⟨⟨hr, hf⟩, rfl⟩ := folderBelow_eq_some.1 hc
      obtain ⟨names, e, i, hat, hn⟩ := ih
      exact ⟨_, e, i, .down hr hf hat, hn⟩
  · rintro ⟨names, e, i, hat, hn⟩
    induction hat with
    | here hr => exact .here (mem_entryRows.2 hr.2.1) ⟨hr, hn⟩
    | down hr hf _ ih => exact .down (mem_entryRows.2 hr.2.1) (folderBelow_eq_some.2 ⟨⟨hr, hf⟩, rfl⟩) (ih hn)

theorem wayArgs_cons (ha : a ≠ []) : wayArgs v d (i :: a) = (v.table d i).arg :: wayArgs v (v.table d i).cluster a := by
  cases a with
  | nil => exact absurd rfl ha
  | cons j a => rfl

theorem RowAt.ne_nil {names : List (Fin 8 → UInt8)} (h : RowAt v live d a names e i) : a ≠ [] := by
  cases h with
  | here _ => exact List.cons_ne_nil _ _
  | down _ _ _ => exact List.cons_ne_nil _ _

/-- A folder has no extension. -/
theorem RowAt.wayArgs (h : Inv v live) {names : List (Fin 8 → UInt8)} (hat : RowAt v live d a names e i) :
    MoggersOs.wayArgs v d a = names.map folderArg := by
  induction hat with
  | here _ => rfl
  | down hr hf hat ih =>
    rw [wayArgs_cons hat.ne_nil, ih, List.map_cons, DirEntry.arg, (h.folder _ _ hr hf).2.2.2]
    rfl

/-- The paths bound the height of the tree. -/
theorem NineLevels.heightLe (hn : NineLevels v live) : ∀ {n : Nat} {d : Nat} {names : List (Fin 8 → UInt8)},
    TreePath v live d names → 11 ≤ n + names.length → Lib.HeightLe entryRows (folderBelow v live) n d := by
  intro n
  induction n with
  | zero =>
    intro d names hp hle
    have hten := hn d names hp
    omega
  | succ n ih =>
    intro d names hp hle i _ c hc
    obtain ⟨⟨hr, hf⟩, rfl⟩ := folderBelow_eq_some.1 hc
    refine ih (.child hp hr hf) ?_
    rw [List.length_append, List.length_singleton]
    omega

/-- Row 0 of a folder has the folder's name, so the look-up gives the folder's table. -/
theorem loadTable_folder {s : State} (h : Inv s.volume live) (hr : s.volume.LiveRow live d i)
    (hf : (s.volume.table d i).Folder) (buffer : Nat → UInt8) :
    loadTable (readDirectory s (folderTableRequest buffer (s.volume.table d i))).1.buf =
      s.volume.table (s.volume.table d i).cluster := by
  obtain ⟨hc, hrow0, -⟩ := h.folder d i hr hf
  obtain ⟨-, hcf⟩ := h.self _ hc
  have hparent : (folderTableRequest buffer (s.volume.table d i)).parent = (s.volume.table d i).cluster := by
    have h512 := (h.folder_chain hr hf).2.2
    exact UInt32.toNat_ofNat_of_lt' (by simp [UInt32.size]; omega)
  rw [readDirectory_names h hc hparent (j := 0) (congrArg DirEntry.name hrow0) (fun j hj => absurd hj (Nat.not_lt_zero j)),
    if_pos hcf.1, hcf.2.1]
  exact loadTable_blit _ _

end

section
variable {v : Volume} {live : Finset Nat} {target : Arg} {garbage : List Arg → Fin 64 → Nat → UInt8}

/-- The loop tries one place after the other, if the calls for the folders do what `below` says. -/
theorem findRows_eq (h : Inv v live) {below : Nat → Option (List (Fin 64))}
    {search : List Arg → Table → State → List Arg → Option Found} {d : Nat} {path : List Arg} (hd : d ∈ live)
    (hne : ∀ c a, below c = some a → a ≠ [])
    (hcall : ∀ i, v.LiveRow live d i → (v.table d i).Folder → path.length < 10 ∧ ∀ s ansPath, s.volume = v →
      ∃ s', s'.volume = v ∧ search (path ++ [(v.table d i).arg]) (v.table (v.table d i).cluster) s ansPath =
        some (foundBy (path ++ [(v.table d i).arg]) ansPath s'
          ((below (v.table d i).cluster).map (wayArgs v (v.table d i).cluster)))) :
    ∀ (is : List (Fin 64)), (∀ i ∈ is, 2 ≤ i.val) → ∀ {s : State} (ansPath : List Arg), s.volume = v →
    ∃ s', s'.volume = v ∧ findRows garbage target search path (v.table d) is s ansPath =
      some (foundBy path ansPath s'
        ((is.findSome? (Lib.tryPlace (Hit v live target) (folderBelow v live) below d)).map (wayArgs v d))) := by
  intro is
  induction is with
  | nil => exact fun _ s ansPath hs => ⟨s, hs, rfl⟩
  | cons i is ih =>
    intro his s ansPath hs
    obtain ⟨hi, his⟩ := List.forall_mem_cons.1 his
    have hrest := fun {s : State} (hs : s.volume = v) => ih his (s := s) ansPath hs
    rw [List.findSome?_cons]
    unfold findRows
    by_cases hu : (v.table d i).Used
    · have hr : v.LiveRow live d i := ⟨hd, hi, hu⟩
      rw [if_pos (show (v.table d i).userAttribute = uattrNotEmpty from hu)]
      by_cases hn : Named target (v.table d i)
      · have htry : Lib.tryPlace (Hit v live target) (folderBelow v live) below d i = some [i] := if_pos ⟨hr, hn⟩
        rw [if_pos ⟨memcmp_eq_zero.2 hn.1, memcmp_eq_zero.2 hn.2⟩, htry]
        exact ⟨s, hs, by simp [foundBy, wayArgs]⟩
      · rw [if_neg fun hm => hn ⟨memcmp_eq_zero.1 hm.1, memcmp_eq_zero.1 hm.2⟩]
        have htry : Lib.tryPlace (Hit v live target) (folderBelow v live) below d i =
            (folderBelow v live d i).bind fun c => (below c).map (i :: ·) := if_neg fun hh => hn hh.2
        rw [htry]
        by_cases hf : (v.table d i).Folder
        · rw [if_pos (show (v.table d i).attr = attrSubdirectory from hf), folderBelow_eq_some.2 ⟨⟨hr, hf⟩, rfl⟩,
            Option.bind_some]
          obtain ⟨hroom, hcall⟩ := hcall i hr hf
          subst hs
          have htable := loadTable_folder h hr hf (garbage path i)
          obtain ⟨s', hs', he⟩ := hcall _ ansPath (readDirectory_volume (s := s) (folderTableRequest (garbage path i) _))
          dsimp only
          rw [if_pos hroom, htable, he, Option.bind_some]
          cases hb : below (s.volume.table d i).cluster with
          | none =>
            obtain ⟨s'', hs'', he''⟩ := hrest hs'
            exact ⟨s'', hs'', he''⟩
          | some a =>
            refine ⟨s', hs', ?_⟩
            simp [foundBy, wayArgs_cons (hne _ a hb)]
        · have hnone : folderBelow v live d i = none := if_neg fun hx => hf hx.2
          rw [if_neg (show ¬ (v.table d i).attr = attrSubdirectory from hf), hnone]
          exact hrest hs
    · have htry : Lib.tryPlace (Hit v live target) (folderBelow v live) below d i = none := by
        refine Lib.tryPlace_eq_none.2 ⟨fun hh => hu hh.1.2.2, fun c hc => ?_⟩
        exact absurd (folderBelow_eq_some.1 hc).1.1.2.2 hu
      rw [if_neg (show ¬ (v.table d i).userAttribute = uattrNotEmpty from hu), htry]
      exact hrest hs

/-- **`find_recursive` is the depth-first search** of the tree below the directory, and leaves the volume alone; `n` are
the levels of the tree, for which there is room in `path`. -/
theorem findRecursive_eq (h : Inv v live) : ∀ {fuel n d : Nat} {path : List Arg} {s : State} (ansPath : List Arg),
    d ∈ live → s.volume = v → Lib.HeightLe entryRows (folderBelow v live) n d → n ≤ fuel → path.length + n ≤ 11 →
    ∃ s', s'.volume = v ∧ findRecursive garbage target fuel path (v.table d) s ansPath =
      some (foundBy path ansPath s'
        ((Lib.search entryRows (Hit v live target) (folderBelow v live) n d).map (wayArgs v d))) := by
  intro fuel
  induction fuel with
  | zero =>
    intro n d path s ansPath _ _ hheight hle _
    obtain rfl := Nat.le_zero.1 hle
    exact hheight.elim
  | succ fuel ih =>
    intro n d path s ansPath hd hs hheight hle hroom
    cases n with
    | zero => exact hheight.elim
    | succ n =>
      refine findRows_eq h hd (fun c a ha => (Lib.search_leads ha).ne_nil) (fun i hr hf => ?_) entryRows
        (fun i hi => mem_entryRows.1 hi) ansPath hs
      have hbelow := hheight i (mem_entryRows.2 hr.2.1) _ (folderBelow_eq_some.2 ⟨⟨hr, hf⟩, rfl⟩)
      have hpos : n ≠ 0 := by
        rintro rfl
        exact hbelow
      refine ⟨by omega, fun s ansPath hs => ?_⟩
      refine ih ansPath (h.folder d i hr hf).1 hs hbelow (by omega) ?_
      rw [List.length_append, List.length_singleton]
      omega

/-- Of the rows with the name in a directory and below it, this is the one a depth-first walk meets first. -/
structure FirstAt (v : Volume) (live : Finset Nat) (target : Arg) (d : Nat) (a : List (Fin 64))
    (names : List (Fin 8 → UInt8)) (e : Nat) (i : Fin 64) : Prop where
  row   : RowAt v live d a names e i
  named : Named target (v.table e i)
  first : ∀ a' names' e' i', RowAt v live d a' names' e' i' → Named target (v.table e' i') → ¬ List.Lex (· < ·) a' a

/-- The two ways a search can end. -/
theorem findRecursive_found (h : Inv v live) (hlevels : NineLevels v live) {d : Nat} {names : List (Fin 8 → UInt8)}
    (hp : TreePath v live d names) {path : List Arg} (hpath : path.length ≤ names.length) {s : State} (hs : s.volume = v)
    (ansPath : List Arg) {fuel : Nat} (hfuel : 10 ≤ fuel) : ∃ s', s'.volume = v ∧
    ((∃ a more e i, FirstAt v live target d a more e i ∧
        findRecursive garbage target fuel path (v.table d) s ansPath = some ⟨true, path ++ more.map folderArg, s'⟩) ∨
      (∀ a more e i, RowAt v live d a more e i → ¬ Named target (v.table e i)) ∧
        findRecursive garbage target fuel path (v.table d) s ansPath = some ⟨false, ansPath, s'⟩) := by
  have hten := hlevels d names hp
  have hpos := List.length_pos_of_ne_nil hp.ne_nil
  have hheight := hlevels.heightLe hp (show 11 ≤ (11 - names.length) + names.length by omega)
  have hle : 11 - names.length ≤ fuel := by omega
  have hroom : path.length + (11 - names.length) ≤ 11 := by omega
  obtain ⟨s', hs', he⟩ := @findRecursive_eq v live target garbage h fuel _ d path s ansPath (hp.mem_live h) hs hheight hle hroom
  refine ⟨s', hs', ?_⟩
  rw [he]
  cases hsearch : Lib.search entryRows (Hit v live target) (folderBelow v live) (11 - names.length) d with
  | none =>
    refine .inr ⟨fun a more e i hat hn => ?_, rfl⟩
    exact (Lib.search_eq_none hheight).1 hsearch a (leads_iff.2 ⟨more, e, i, hat, hn⟩)
  | some a =>
    obtain ⟨more, e, i, hat, hn⟩ := leads_iff.1 (Lib.search_leads hsearch)
    refine .inl ⟨a, more, e, i, ⟨hat, hn, fun a' more' e' i' hat' hn' => ?_⟩, ?_⟩
    · exact Lib.search_first (fun _ _ => lt_asymm) entryRows_pairwise hheight hsearch (leads_iff.2 ⟨more', e', i', hat', hn'⟩)
    · rw [Option.map_some, hat.wayArgs h]
      rfl

end

/-! ## The volume with one folder -/

/-- Its only row is the folder's. -/
theorem withFolder_row {d : Nat} {i : Fin 64}
    (hr : (write (createFat32 blankState) folderRequest).2.volume.LiveRow {3, rootClusterNumber} d i) :
    d = rootClusterNumber ∧ i = 2 := by
  obtain ⟨hd, hi, hu⟩ := hr
  rcases Finset.mem_insert.1 hd with rfl | hd
  · rw [withFolder_volume, mkdir_table _ folderRequest 2 (by decide), newDirectory_of_ge _ _ _ hi] at hu
    exact absurd hu not_used_zeroEntry
  · rw [Finset.mem_singleton.1 hd] at hu ⊢
    refine ⟨rfl, ?_⟩
    by_contra hne
    rw [withFolder_table, Function.update_of_ne hne, formattedRoot_of_ge hi] at hu
    exact not_used_zeroEntry hu

theorem withFolder_levels : NineLevels (write (createFat32 blankState) folderRequest).2.volume {3, rootClusterNumber} := by
  have hshort : ∀ d names, TreePath (write (createFat32 blankState) folderRequest).2.volume {3, rootClusterNumber} d names →
      names.length ≤ if d = rootClusterNumber then 1 else 2 := by
    intro d names hp
    induction hp with
    | root => exact Nat.le_refl 1
    | child _ hr hf ih =>
      obtain ⟨rfl, rfl⟩ := withFolder_row hr
      rw [if_pos rfl] at ih
      rw [withFolder_two, newDirectory_zero, DirEntry.setCluster_cluster _ (by decide), if_neg (by decide),
        List.length_append, List.length_singleton]
      exact Nat.succ_le_succ ih
  intro d names hp
  have hle := hshort d names hp
  split at hle
  · omega
  · omega

/-! ## The whole search -/

/-- **`find_recursive` is a sound and complete search**: from any directory of a volume with at most nine levels below
the root it returns, and it returns true exactly if the directory or one below it has a row in use with the name and
the extension. Then the path is prolonged by the names of the directories on the way to the first such row. -/
theorem find_recursive_exact {s : State} {live : Finset Nat} (hrun : Run Safe s live) (hlevels : NineLevels s.volume live)
    {d : Nat} (hd : d ∈ live) {path : List Arg}
    (hpath : ∀ names, TreePath s.volume live d names → path.length ≤ names.length)
    (garbage : List Arg → Fin 64 → Nat → UInt8) (target : Arg) (ansPath : List Arg) {fuel : Nat} (hfuel : 10 ≤ fuel) :
    ∃ f, findRecursive garbage target fuel path (s.volume.table d) s ansPath = some f ∧ f.state.volume = s.volume ∧
      (f.result = true ↔ ∃ a names e i, RowAt s.volume live d a names e i ∧ Named target (s.volume.table e i)) ∧
      (f.result = true → ∃ a names e i, FirstAt s.volume live target d a names e i ∧
        f.ansPath = path ++ names.map folderArg) ∧
      (f.result = false → f.ansPath = ansPath) := by
  have hinv := hrun.safe_inv
  obtain ⟨names, hp⟩ := TreePath.of_live hinv hd
  obtain ⟨s', hs', ⟨a, more, e, i, hfirst, he⟩ | ⟨hno, he⟩⟩ :=
    @findRecursive_found _ _ target garbage hinv hlevels _ _ hp _ (hpath names hp) s rfl ansPath fuel hfuel
  · refine ⟨_, he, hs', ⟨fun _ => ⟨a, more, e, i, hfirst.row, hfirst.named⟩, fun _ => rfl⟩, fun _ => ?_, nofun⟩
    exact ⟨a, more, e, i, hfirst, rfl⟩
  · refine ⟨_, he, hs', ⟨nofun, ?_⟩, nofun, fun _ => rfl⟩
    rintro ⟨a, more, e, i, hat, hn⟩
    exact absurd hn (hno a more e i hat)

/-- Looking for the folder from the root. -/
theorem find_recursive_exact_folder : ∃ f, findRecursive (fun _ _ _ => 0) (folderArg folderRequest.name) 10 []
    ((write (createFat32 blankState) folderRequest).2.volume.table rootClusterNumber)
    (write (createFat32 blankState) folderRequest).2 [] = some f ∧ f.result = true := by
  have hrun := (Run.folder (folderRequest_ordinary blankState)).safe
  have hempty : ∀ names, TreePath (write (createFat32 blankState) folderRequest).2.volume {3, rootClusterNumber}
      rootClusterNumber names → ([] : List Arg).length ≤ names.length := fun _ _ => Nat.zero_le _
  obtain ⟨f, hf, -, hiff, -⟩ := find_recursive_exact hrun withFolder_levels (by decide) hempty (fun _ _ _ => 0)
    (folderArg folderRequest.name) [] (Nat.le_refl 10)
  refine ⟨f, hf, hiff.2 ⟨[2], [], rootClusterNumber, 2, .here withFolder_live, ?_⟩⟩
  rw [withFolder_two, newDirectory_zero]
  exact ⟨rfl, rfl⟩

/-! ## What `find` prints -/

/-- A name as it is printed: its bytes up to the first 0. -/
def nameText (name : Fin 8 → UInt8) : List UInt8 := (List.ofFn name).takeWhile (· ≠ 0)

/-- The names with slashes between them. -/
def joined (names : List (Fin 8 → UInt8)) : List UInt8 := List.intercalate [slash] (names.map nameText)

/-- The entries that `cd_root` and `cd` put into `path`. -/
def CdEntry (a : Arg) : Prop := (∃ garbage, a = rootArg garbage) ∨ ∃ w : Word, a = w.arg

/-- If a path is printed before the argument, it leads to a directory with a row of the argument's name and no
extension; and nothing is printed if there is no such row in directory `d` or below it. -/
structure FindReports (v : Volume) (live : Finset Nat) (d : Nat) (w : Word) (printed : List UInt8) : Prop where
  row    : ∀ p, printed = p ++ slash :: w.bytes → ∃ e names i, TreePath v live e names ∧ p = joined names ∧
    v.LiveRow live e i ∧ Named w.arg (v.table e i)
  silent : (¬ ∃ a names e i, RowAt v live d a names e i ∧ Named w.arg (v.table e i)) → printed = []

theorem Arg.text_of_ext {a : Arg} (h : a.ext = fun _ => 0) : a.text = some (nameText a.info) := by
  have hext : List.ofFn a.ext = [0, 0, 0] := by
    rw [h]
    rfl
  unfold Arg.text nameText
  dsimp only
  rw [hext, if_pos (by simp), List.takeWhile_append]
  split
  next hall => rw [show ([0, 0, 0] : List UInt8).takeWhile (· ≠ 0) = [] from rfl, List.append_nil,
    (List.takeWhile_sublist _).eq_of_length hall]
  next => rfl

/-- The word typed is what is printed. -/
theorem Word.text (w : Word) : w.arg.text = some w.bytes := by
  have hle := w.le
  have hinfo : List.ofFn w.arg.info = w.bytes ++ List.replicate (8 - w.bytes.length) 0 := by
    refine List.ext_getElem (by simp; omega) fun j hj _ => ?_
    rw [List.getElem_ofFn, List.getElem_append]
    split
    next h => simp [Word.arg, h]
    next h => simp [Word.arg, Nat.le_of_not_lt h]
  rw [Arg.text_of_ext rfl, nameText, hinfo, List.takeWhile_append_of_pos fun b hb => by simpa using w.nonzero b hb]
  cases 8 - w.bytes.length with
  | zero => simp
  | succ k => simp [List.replicate_succ]

/-- An entry of the path is printed as the name it stands for. -/
theorem CdEntry.text {a : Arg} (h : CdEntry a) : a.text = some (nameText a.name) := by
  obtain ⟨garbage, rfl⟩ | ⟨w, rfl⟩ := h
  · rw [Arg.text_of_ext rfl]
    rfl
  · rw [Arg.text_of_ext rfl, w.arg_name]

theorem folderArg_name (name : Fin 8 → UInt8) : (folderArg name).name = name := by
  funext i
  exact if_pos i.isLt

theorem folderArg_text (name : Fin 8 → UInt8) : (folderArg name).text = some (nameText (folderArg name).name) := by
  rw [Arg.text_of_ext rfl, folderArg_name]
  rfl

theorem pathText_eq {path : List Arg} (h : ∀ a ∈ path, a.text = some (nameText a.name)) (hne : path ≠ []) :
    pathText path = some (joined (path.map Arg.name) ++ [slash]) := by
  induction path with
  | nil => exact absurd rfl hne
  | cons a path ih =>
    obtain ⟨ha, hpath⟩ := List.forall_mem_cons.1 h
    unfold pathText
    rw [ha, Option.bind_some]
    cases path with
    | nil => simp [pathText, joined]
    | cons b path =>
      rw [ih hpath (List.cons_ne_nil b path)]
      simp [joined]

theorem RowAt.liveRow {v : Volume} {live : Finset Nat} {d e : Nat} {a : List (Fin 64)} {names : List (Fin 8 → UInt8)}
    {i : Fin 64} (h : RowAt v live d a names e i) : v.LiveRow live e i := by
  induction h with
  | here hr => exact hr
  | down _ _ _ ih => exact ih

/-- `cd` and `mkdir` leave entries of `cd` in the path. -/
theorem Session.cdEntries {s : State} {live : Finset Nat} {garbage : Fin 3 → UInt8} {cmds : List ShellCommand} {x : Session}
    (hpath : Lib.Path (fun x c y => ShellCommand.Runs x c y) (Session.start garbage s live) cmds x) :
    ∀ a ∈ x.shell.path, CdEntry a := by
  refine hpath.invariant (I := fun x => ∀ a ∈ x.shell.path, CdEntry a) (fun x c y hx hr => ?_) fun a ha => ?_
  · cases c with
    | cd w => exact cd_forall hx (.inr ⟨w, rfl⟩) hr.1
    | mkdir w =>
      have hsame : y.shell.path = x.shell.path := congrArg (fun out => out.1.path) hr.1.symm
      rwa [hsame]
  · exact .inl ⟨garbage, List.mem_singleton.1 ha⟩

section
variable {s : State} {live : Finset Nat} {sh : Shell} {d : Nat} {w : Word}

/-- The two things `find` can print: the path to the first row with the name, or the one it started with. -/
theorem find_prints (h : Inv s.volume live) (hlevels : NineLevels s.volume live) (ha : Agrees s.volume live sh d)
    (hcd : ∀ a ∈ sh.path, CdEntry a) (garbage : List Arg → Fin 64 → Nat → UInt8) {fuel : Nat} (hfuel : 10 ≤ fuel) :
    ∃ s', s'.volume = s.volume ∧
    ((∃ a more e i, FirstAt s.volume live w.arg d a more e i ∧ find garbage fuel sh s w.arg =
        some (joined (sh.path.map Arg.name ++ more) ++ slash :: w.bytes, s')) ∨
      (∀ a more e i, RowAt s.volume live d a more e i → ¬ Named w.arg (s.volume.table e i)) ∧
        find garbage fuel sh s w.arg = some (joined (sh.path.map Arg.name) ++ slash :: w.bytes, s')) := by
  have hne : sh.path ≠ [] := fun hnil => ha.path.ne_nil (by rw [hnil]; rfl)
  have hlen : sh.path.length ≤ (sh.path.map Arg.name).length := by rw [List.length_map]
  obtain ⟨s', hs', hfound⟩ :=
    @findRecursive_found _ _ w.arg garbage h hlevels _ _ ha.path _ hlen s rfl sh.path fuel hfuel
  refine ⟨s', hs', ?_⟩
  unfold find
  rw [ha.table]
  obtain ⟨a, more, e, i, hfirst, he⟩ | ⟨hno, he⟩ := hfound
  · refine .inl ⟨a, more, e, i, hfirst, ?_⟩
    have htext : ∀ a ∈ sh.path ++ more.map folderArg, a.text = some (nameText a.name) := by
      intro a ha
      rcases List.mem_append.1 ha with ha | ha
      · exact (hcd a ha).text
      · obtain ⟨name, -, rfl⟩ := List.mem_map.1 ha
        exact folderArg_text name
    have hnames : (sh.path ++ more.map folderArg).map Arg.name = sh.path.map Arg.name ++ more := by
      rw [List.map_append, List.map_map]
      congr 1
      exact (List.map_congr_left fun name _ => folderArg_name name).trans (List.map_id more)
    rw [he, Option.bind_some, pathText_eq htext (by simp [hne]), Option.bind_some, w.text, hnames]
    simp
  · refine .inr ⟨hno, ?_⟩
    rw [he, Option.bind_some, pathText_eq (fun a ha => (hcd a ha).text) hne, Option.bind_some, w.text]
    simp

end

/-- The shell on the volume with one folder. -/
def folderSession : Session :=
  .start (fun _ => 0) (write (createFat32 blankState) folderRequest).2 {3, rootClusterNumber}

theorem folderSession_volume :
    folderSession.state.volume = (write (createFat32 blankState) folderRequest).2.volume := by
  rw [folderSession, Session.start, cdRoot, readDirectory_volume]

theorem folderSession_right : Run Safe folderSession.state {3, rootClusterNumber} ∧
    Agrees folderSession.state.volume {3, rootClusterNumber} folderSession.shell rootClusterNumber := by
  have hrun := (Run.folder (folderRequest_ordinary blankState)).safe
  exact ⟨(Session.start_right hrun fun _ => 0).run, Session.start_agrees hrun fun _ => 0⟩

theorem folderSession_levels : NineLevels folderSession.state.volume {3, rootClusterNumber} := by
  rw [folderSession_volume]
  exact withFolder_levels

/-- **When `find` reports only what exists**: exactly if there is something to report. Otherwise it prints the path of
the directory it was started in. -/
theorem find_reports_iff {s : State} {live : Finset Nat} (hrun : Run Safe s live) (hlevels : NineLevels s.volume live)
    {sh : Shell} {d : Nat} (ha : Agrees s.volume live sh d) (hcd : ∀ a ∈ sh.path, CdEntry a) (w : Word)
    (garbage : List Arg → Fin 64 → Nat → UInt8) {fuel : Nat} (hfuel : 10 ≤ fuel) :
    ∃ printed s', find garbage fuel sh s w.arg = some (printed, s') ∧ s'.volume = s.volume ∧
      (FindReports s.volume live d w printed ↔
        ∃ a names e i, RowAt s.volume live d a names e i ∧ Named w.arg (s.volume.table e i)) := by
  obtain ⟨s', hs', ⟨a, more, e, i, hfirst, he⟩ | ⟨hno, he⟩⟩ := find_prints (w := w) hrun.safe_inv hlevels ha hcd garbage hfuel
  · refine ⟨_, s', he, hs', fun _ => ⟨a, more, e, i, hfirst.row, hfirst.named⟩, fun hrow => ⟨fun p hp => ?_, ?_⟩⟩
    · exact ⟨e, _, i, ha.path.append hfirst.row, (List.append_cancel_right hp).symm, hfirst.row.liveRow, hfirst.named⟩
    · exact fun hnone => absurd hrow hnone
  · refine ⟨_, s', he, hs', fun hreports => ?_, fun ⟨a, more, e, i, hat, hn⟩ => absurd hn (hno a more e i hat)⟩
    by_contra hnone
    have hnil := hreports.silent hnone
    exact List.cons_ne_nil _ _ (List.append_eq_nil_iff.1 hnil).2

theorem find_reports_folder : ∃ printed s', find (fun _ _ _ => 0) 10 folderSession.shell folderSession.state folderWord.arg =
      some (printed, s') ∧
    FindReports folderSession.state.volume {3, rootClusterNumber} rootClusterNumber folderWord printed := by
  obtain ⟨hrun, ha⟩ := folderSession_right
  obtain ⟨printed, s', he, -, hiff⟩ := find_reports_iff hrun folderSession_levels ha (Session.cdEntries .nil) folderWord
    (fun _ _ _ => 0) (Nat.le_refl 10)
  refine ⟨printed, s', he, hiff.2 ⟨[2], [], rootClusterNumber, 2, ?_⟩⟩
  rw [folderSession_volume]
  refine ⟨.here withFolder_live, ?_⟩
  rw [withFolder_two, newDirectory_zero]
  exact ⟨by decide, rfl⟩

/-- The word `x`. -/
def missingWord : Word := ⟨[120], by decide, by simp⟩

/-- `find x` prints `root/x` on a volume that has no `x`. -/
theorem not_find_reports_missing : ¬ ∀ s live sh d w garbage fuel printed s', Run Safe s live → NineLevels s.volume live →
    Agrees s.volume live sh d → (∀ a ∈ sh.path, CdEntry a) → find garbage fuel sh s w.arg = some (printed, s') →
    FindReports s.volume live d w printed := by
  intro hall
  obtain ⟨hrun, ha⟩ := folderSession_right
  have hcd := Session.cdEntries (.nil : Lib.Path _ folderSession [] folderSession)
  -- the only row is the folder's
  have hnone : ∀ a more e i, RowAt folderSession.state.volume {3, rootClusterNumber} rootClusterNumber a more e i →
      ¬ Named missingWord.arg (folderSession.state.volume.table e i) := by
    intro a more e i hat hn
    have hr := hat.liveRow
    rw [folderSession_volume] at hr hn
    obtain ⟨rfl, rfl⟩ := withFolder_row hr
    rw [withFolder_two, newDirectory_zero] at hn
    exact absurd (congrFun hn.1 0) (by decide)
  obtain ⟨s', -, ⟨a, more, e, i, hfirst, -⟩ | ⟨-, he⟩⟩ :=
    find_prints (w := missingWord) hrun.safe_inv folderSession_levels ha hcd (fun _ _ _ => 0) (Nat.le_refl 10)
  · exact hnone a more e i hfirst.row hfirst.named
  · have hreports := hall _ _ _ _ _ _ _ _ _ hrun folderSession_levels ha hcd he
    have hnil := hreports.silent fun ⟨a, more, e, i, hat, hn⟩ => hnone a more e i hat hn
    exact List.cons_ne_nil _ _ (List.append_eq_nil_iff.1 hnil).2

end MoggersOs
