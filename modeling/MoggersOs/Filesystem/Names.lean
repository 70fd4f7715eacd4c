import MoggersOs.Filesystem.Frame
/-
# Names within a directory

`write` looks for a row with the name and the extension of the request (`fat32.c:243-249`), but
`init_directory_table` stores a folder without an extension (`fat32.c:29-72`, `Request.stored`). So the check
is about another entry than the one stored whenever a folder is requested with an extension, and the
folder may get the name and extension of an entry that is already there.

| here | there |
| --- | --- |
| `NamesUnique` | no two rows in use of a directory have the same name and extension |
| `NewName`     | what the existence check of `write` should have looked for |
-/

namespace MoggersOs

def NamesUnique (v : Volume) (live : Finset Nat) : Prop := ∀ d i j, v.LiveRow live d i → v.LiveRow live d j →
  (v.table d i).name = (v.table d j).name → (v.table d i).ext = (v.table d j).ext → i = j

/-- A folder that `write` makes has no namesake without extension in its directory. -/
def NewName (v : Volume) (live : Finset Nat) : Op → Prop
  | .write r => r.bufferSize = 0 → ¬ v.Refused r → ∀ i, v.LiveRow live r.parent i →
      ¬ ((v.table r.parent i).name = r.name ∧ (v.table r.parent i).ext = fun _ => 0)
  | .delete _ => True
  | .read _ => True
  | .readDirectory _ => True

/-- A safe request that stores no name twice. -/
def NameSafe (v : Volume) (live : Finset Nat) (op : Op) : Prop := Safe v live op ∧ NewName v live op

/-- A request for a folder without an extension checks for what it stores. -/
theorem newName_of_ext {v : Volume} {live : Finset Nat} {r : Request} (he : r.ext = fun _ => 0) :
    NewName v live (.write r) := by
  intro _ href i hi hname
  exact findRow_eq_none (Volume.not_refused href).2.2 hi.2.1 (he ▸ hname)

/-! ## One request -/

/-- A change that fills a row with a new name, or empties one, leaves the names unique. -/
theorem Change.namesUnique {v v' : Volume} {live live' : Finset Nat} {q : Request} {row : Fin 64} {e : DirEntry}
    {l : List Nat} (hch : Change v v' live live' q row e l) (h : Inv v live) (hn : NamesUnique v live)
    (hnew : e.Used → ∀ i, v.LiveRow live q.parent i →
      ¬ ((v.table q.parent i).name = q.name ∧ (v.table q.parent i).ext = q.ext)) : NamesUnique v' live' := by
  -- a row in use afterwards is the changed one, or was in use before and is the same
  have hrow : ∀ d i, v'.LiveRow live' d i → (d = q.parent ∧ i = row) ∨
      v.LiveRow live d i ∧ v'.table d i = v.table d i := by
    intro d i hi
    by_cases hdi : d = q.parent ∧ i = row
    · exact .inl hdi
    · have hv := (hch.liveRow_iff h hdi).1 hi
      exact .inr ⟨hv, hch.row_eq h hv hdi⟩
  have hdiff : ∀ i, v'.LiveRow live' q.parent row → v.LiveRow live q.parent i →
      v'.table q.parent i = v.table q.parent i →
      ¬ ((v'.table q.parent row).name = (v'.table q.parent i).name ∧
        (v'.table q.parent row).ext = (v'.table q.parent i).ext) := by
    rintro i hr hi he ⟨hname, hext⟩
    have hu := hr.2.2
    rw [hch.edit.table_self] at hu hname hext
    obtain ⟨hname', hext'⟩ := hch.named hu
    rw [he] at hname hext
    exact hnew hu i hi ⟨hname.symm.trans hname', hext.symm.trans hext'⟩
  intro d i j hi hj hname hext
  rcases hrow d i hi with ⟨rfl, rfl⟩ | ⟨hi', hei⟩
  · rcases hrow _ j hj with ⟨-, rfl⟩ | ⟨hj', hej⟩
    · rfl
    · exact absurd ⟨hname, hext⟩ (hdiff j hi hj' hej)
  · rcases hrow d j hj with ⟨rfl, rfl⟩ | ⟨hj', hej⟩
    · exact absurd ⟨hname.symm, hext.symm⟩ (hdiff i hj hi' hei)
    · rw [hei, hej] at hname hext
      exact hn d i j hi' hj' hname hext

theorem Outcome.namesUnique {v : Volume} {live live' : Finset Nat} {op : Op} {fx : Effect} (h : Inv v live)
    (hn : NamesUnique v live) (ho : Outcome v live op fx live') (hnew : NewName v live op) :
    NamesUnique (v.apply fx) live' := by
  rcases ho.change h with ⟨hv, hl⟩ | ⟨q, row, e, l, hfills, -, hch⟩
  · rw [hv, hl]
    exact hn
  · refine hch.namesUnique h hn fun hu => ?_
    rcases hfills with ⟨⟨r, rfl, href, rfl⟩, -⟩ | ⟨-, hu'⟩
    · rw [r.stored_parent, r.stored_name]
      intro i hi hname
      by_cases hz : r.bufferSize = 0
      · rw [r.stored_folder hz] at hname
        exact hnew hz href i hi hname
      · rw [r.stored_file hz] at hname
        exact findRow_eq_none (Volume.not_refused href).2.2 hi.2.1 hname
    · exact absurd hu hu'

/-- The new folder and the old entry are two rows with one name. -/
theorem newName_of_namesUnique {s s' : State} {live : Finset Nat} {op : Op} {fuel : Nat} {rep : Reply}
    (h : Inv s.volume live) (hs : Safe s.volume live op) (hx : exec fuel s op = some (rep, s'))
    (hn' : NamesUnique s'.volume (liveAfter s live op rep.code)) :
    NewName s.volume live op := by
  obtain ⟨fx, ho, hcode, hv, -⟩ := exec_outcome h hs hx
  rw [hv] at hn'
  generalize liveAfter s live op rep.code = live' at ho hn'
  cases op with
  | write r =>
    intro hz href i hi hname
    have hdone : rep.code = 0 := by
      have hdoes := (write_outcome hs.1 hs.2).1
      simp only [exec, Option.some.injEq, Prod.mk.injEq] at hx
      rw [← hx.1]
      exact hdoes.code.trans (h.write_code (hs.2.resolve_right href) href)
    cases ho with
    | refused hne => exact hne (hcode.symm.trans hdone)
    | lookup hop => rcases hop with ⟨_, he | he⟩ <;> cases he
    | @mkdir _ row c hp _ _ hrow hfree =>
      have hch := h.mkdir_change hp hz hrow hfree
      have hne : i ≠ row := fun he => (findFreeRow_eq_some hrow).2 (he ▸ hi.2.2)
      have hself := hch.edit.table_self
      rw [r.stored_parent, newDirectory_zero] at hself
      have hkeep := h.edit_table hch.edit hi.1 (hch.keep _ i hi).2 fun hx => hne hx.2
      refine hne (hn' r.parent i row ⟨(hch.keep _ i hi).1, hi.2.1, hkeep ▸ hi.2.2⟩
        ⟨(hch.keep _ i hi).1, hch.row2, hself ▸ rfl⟩ ?_ ?_)
      · rw [hkeep, hself]
        exact hname.1
      · rw [hkeep, hself]
        exact hname.2
    | mkfile _ _ hz' _ _ _ _ => exact absurd hz hz'
  | delete _ => trivial
  | read _ => trivial
  | readDirectory _ => trivial

theorem createFat32_namesUnique (s : State) : NamesUnique (createFat32 s).volume {rootClusterNumber} := by
  rintro d i j ⟨hd, hi, hu⟩ -
  rw [Finset.mem_singleton.1 hd, createFat32_table s, formattedRoot_of_ge hi] at hu
  exact absurd hu not_used_zeroEntry

/-! ## Runs -/

theorem Ordinary.newName {v : Volume} {live : Finset Nat} {op : Op} (ho : Ordinary v live op) : NewName v live op := by
  cases op with
  | write r => exact fun hz => newName_of_ext (ho.2.2.1 hz) hz
  | delete _ => trivial
  | read _ => trivial
  | readDirectory _ => trivial

/-- An ordinary request never makes a namesake. -/
theorem Run.namesUnique {s : State} {live : Finset Nat} (h : Run Ordinary s live) : NamesUnique s.volume live := by
  obtain ⟨s₀, tr, hpath⟩ := h
  exact (Step.path_invariant Ordinary.safe (fun hinv hn hk ho => ho.namesUnique hinv hn hk.newName)
    (createFat32_namesUnique s₀) hpath).2

/-- **Names stay unique exactly as long as no folder gets a taken name.** In a run of safe requests in which
no folder is made under a name that an entry without extension has in the directory, the names are unique in
every state, and a safe request keeps them so if and only if it is of that kind too. -/
theorem names_unique {s : State} {live : Finset Nat} (h : Run NameSafe s live) :
    NamesUnique s.volume live ∧ ∀ op fuel rep s', Safe s.volume live op → exec fuel s op = some (rep, s') →
      (NamesUnique s'.volume (liveAfter s live op rep.code) ↔ NewName s.volume live op) := by
  obtain ⟨s₀, tr, hpath⟩ := h
  obtain ⟨hinv, hn⟩ := Step.path_invariant (fun _ hk => hk.1) (fun hinv hn hk ho => ho.namesUnique hinv hn hk.2)
    (createFat32_namesUnique s₀) hpath
  refine ⟨hn, fun op fuel rep s' hs hx => ⟨newName_of_namesUnique hinv hs hx, fun hnew => ?_⟩⟩
  obtain ⟨fx, ho, -, hv, -⟩ := exec_outcome hinv hs hx
  rw [hv]
  exact ho.namesUnique hinv hn hnew

/-- On a volume with one folder. -/
theorem names_unique_folder :
    NamesUnique (write (createFat32 blankState) folderRequest).2.volume {3, rootClusterNumber} := by
  have hord := folderRequest_ordinary blankState
  exact (names_unique (Run.folder ⟨hord.safe (createFat32_inv blankState), newName_of_ext rfl⟩)).1

/-- `mkdir a` with an extension, which only a request made by hand has. -/
def namesakeRequest : Request := { folderRequest with ext := fun _ => 'x'.toUInt8 }

/-- The second folder `a` gets past the check, because it asks for `a.x`. -/
theorem not_namesUnique_folders : ¬ ∀ s live, Run LiveParent s live → NamesUnique s.volume live := by
  intro hall
  have hord := folderRequest_ordinary blankState
  have hinv := (Run.folder hord).inv
  have hrun : Run LiveParent (write (createFat32 blankState) folderRequest).2 {3, rootClusterNumber} :=
    Run.folder hord.1
  have htab := withFolder_table
  have hfree : 4 ∈ (write (createFat32 blankState) folderRequest).2.volume.fat.freeClusters := by
    rw [Fat.mem_freeClusters, withFolder_volume]
    exact ⟨by decide, by decide⟩
  generalize (write (createFat32 blankState) folderRequest).2 = s at hinv hrun htab hfree
  have hp : namesakeRequest.parent ∈ ({3, rootClusterNumber} : Finset Nat) := by decide
  have href : ¬ s.volume.Refused namesakeRequest := by
    rw [Volume.Refused, show namesakeRequest.parent = rootClusterNumber from rfl, htab]
    decide +kernel
  have hs : Safe s.volume {3, rootClusterNumber} (.write namesakeRequest) :=
    ⟨hp, .inl (List.length_pos_of_mem hfree)⟩
  have hx : exec 0 s (.write namesakeRequest) =
    some (⟨(write s namesakeRequest).1, namesakeRequest.buf⟩, (write s namesakeRequest).2) := rfl
  refine newName_of_namesUnique hinv hs hx (hall _ _ (hrun.step hs.1 hx)) rfl href 2 ⟨hp, by decide, ?_⟩ ?_
  · rw [show namesakeRequest.parent = rootClusterNumber from rfl, htab]
    decide
  · rw [show namesakeRequest.parent = rootClusterNumber from rfl, htab]
    decide

end MoggersOs
