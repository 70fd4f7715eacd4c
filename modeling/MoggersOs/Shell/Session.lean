import MoggersOs.Filesystem.Store
import MoggersOs.Shell.Files
/-
# Sessions of the shell (`user_mode/user-shell.c:238-309`)

The commands decide by the table in `current_dir`, not by the one on the disk. `main` reads it anew after `mkdir`,
`rm` and `mv`, and `cd` does so when it moves, but nobody does after `cp`: then the table lacks the copy (`Recent`).
It never shows what is not there, and the path never leads elsewhere (`session_shows`); and a session takes away
nothing but what its `rm` and `mv` name (`session_keeps`).

| here | there |
| --- | --- |
| `rm`          | `rm` (`rm.c:3-13`) and the refresh after it |
| `FileCommand` | the branches of `main` that work on the volume (`user-shell.c:269-283`, `302-304`) |
| `Recent`      | what `current_dir.dir_table_buf` has to do with the directory |

A `cd` is to meet `CdKeeps`. The other conditions of `Keeps` are that the arguments are there, that a cluster is free
for what is made, and that no folder is moved into itself: `mv` would remove it first and then write into it.
-/

namespace MoggersOs

/-- `rm` fills its request as `mkdir` does; then `cd_refresh`. -/
def rm (fuel : Nat) (sh : Shell) (s : State) (argument : Arg) : Option (Shell × State) :=
  (delete fuel s (mkdirRequest sh argument)).map fun out => cdRefresh sh out.2

inductive FileCommand where
  | cd (w : Word)
  | mkdir (w : Word)
  | rm (w : Word)
  | mv (garbage : Nat → UInt8) (w w₂ : Word)
  | cp (garbage : Nat → UInt8) (w w₂ : Word)

/-- The directory of the shell, as its table says. -/
def Shell.here (sh : Shell) : ℕ := (getClusterNumber sh.dirTable).toNat

namespace FileCommand

/-- The command leads from the one shell and volume to the other. -/
def Runs (x : Shell × State) : FileCommand → Shell × State → Prop
  | .cd w, y => MoggersOs.cd x.1 x.2 w.arg = some y
  | .mkdir w, y => MoggersOs.mkdir x.1 x.2 w.arg = y
  | .rm w, y => ∃ fuel, MoggersOs.rm fuel x.1 x.2 w.arg = some y
  | .mv garbage w w₂, y => ∃ fuel codes s, MoggersOs.mv fuel garbage x.1.dirTable x.2 w.arg w₂.arg = some (codes, s) ∧
      cdRefresh x.1 s = y
  | .cp garbage w w₂, y => ∃ fuel codes s, MoggersOs.cp fuel garbage x.1.dirTable x.2 w.arg w₂.arg = some (codes, s) ∧
      (x.1, s) = y

def Keeps (x : Shell × State) : FileCommand → Prop
  | .cd w => w.bytes ≠ [] ∧ CdKeeps ⟨x.2.volume.table x.1.here, x.1.path⟩ w
  | .mkdir w => w.bytes ≠ [] ∧ x.2.fatTable.freeClusters ≠ []
  | .rm w => w.bytes ≠ []
  | .mv _ w w₂ => w.bytes ≠ [] ∧ w₂.bytes ≠ [] ∧ x.2.fatTable.freeClusters ≠ [] ∧
      ¬ (w.arg.info = w₂.arg.info ∧ HasFolder x.1.dirTable w.arg.info)
  | .cp _ w w₂ => w.bytes ≠ [] ∧ w₂.bytes ≠ [] ∧ x.2.fatTable.freeClusters ≠ []

/-- The name that the command takes away in the directory of the shell. -/
def takes : FileCommand → Option (Fin 8 → UInt8)
  | .rm w => some w.arg.info
  | .mv _ w _ => some w.arg.info
  | _ => none

/-- The table is the directory's after the command, if it was before (`true`). -/
def leaves (exact : Bool) : FileCommand → Bool
  | .cd _ => exact
  | .cp _ _ _ => false
  | _ => true

/-- One command of a session, and the directory in which it is given. -/
def Given (x : Shell × State) (c : FileCommand × ℕ) (y : Shell × State) : Prop :=
  c.2 = x.1.here ∧ c.1.Keeps x ∧ c.1.Runs x y

end FileCommand

/-- No `cp` since the directory was read. -/
def upToDate (cmds : List (FileCommand × ℕ)) : Bool := cmds.foldl (fun exact c => c.1.leaves exact) true

/-! ## A path stays -/

namespace TreePath

variable {v v' : Volume} {live live' : Finset Nat} {d : Nat} {names : List (Fin 8 → UInt8)} {q : Request} {row : Fin 64}
  {x : DirEntry} {l : List Nat}

/-- A path runs through rows of the directories above its end. -/
theorem mono_above {e : Nat} {ns : List (Fin 8 → UInt8)} (he : TreePath v live e ns)
    (hroot : (v'.table rootClusterNumber 0).name = (v.table rootClusterNumber 0).name)
    (hrow : ∀ a i, v.LiveRow live a i → a ≠ d → v'.LiveRow live' a i ∧ v'.table a i = v.table a i)
    (habove : ∀ a as, TreePath v live a as → as.length < ns.length → a ≠ d) : TreePath v' live' e ns := by
  induction he with
  | root =>
    rw [← hroot]
    exact .root
  | @child e i ns he hr hf ih =>
    rw [List.length_append, List.length_singleton] at habove
    obtain ⟨hr', heq⟩ := hrow e i hr (habove e ns he (Nat.lt_succ_self _))
    rw [← heq] at hf ⊢
    exact .child (ih fun a as ha hlt => habove a as ha (Nat.lt_succ_of_lt hlt)) hr' hf

/-- So the path to `d` stays if an unused row changes, and also if a row of `d` does. -/
theorem change (hp : TreePath v live d names) (h : Inv v live) (h' : Inv v' live')
    (hch : Change v v' live live' q row x l) (hq : v.LiveRow live q.parent row → q.parent = d) :
    TreePath v' live' d names := by
  refine hp.mono_above (d := d) ?_ (fun e i hr hne => ?_) fun e ns he hlt hed => ?_
  · rcases hch.dirs _ h'.root with ⟨-, hl⟩ | ⟨hno, -⟩
    · rw [(h.edit_heads hch.edit h.root hl hch.row2).1]
    · exact absurd h.root hno
  · have hdi : ¬ (e = q.parent ∧ i = row) := by
      rintro ⟨rfl, rfl⟩
      exact hne (hq hr)
    exact ⟨(hch.liveRow_iff h hdi).2 hr, hch.row_eq h hr hdi⟩
  · subst hed
    exact absurd (congrArg List.length (he.unique h hp)) (Nat.ne_of_lt hlt)

end TreePath

/-! ## The shell and the directory it stands in -/

/-- The path leads to directory `d`, and the table has its first two rows. -/
structure Stands (sh : Shell) (s : State) (live : Finset Nat) (d : Nat) : Prop where
  run   : Run Ordinary s live
  path  : TreePath s.volume live d (sh.path.map Arg.name)
  bytes : PathBytes sh.path
  heads : ∀ i : Fin 64, i.val < 2 → sh.dirTable i = s.volume.table d i

/-- The table was the directory's: since then files may have come into rows that it shows as unused, nothing else. -/
structure Recent (t : Table) (v : Volume) (d : Nat) : Prop where
  rows   : ∀ i : Fin 64, 2 ≤ i.val → (t i).Used → t i = v.table d i
  unseen : ∀ i : Fin 64, 2 ≤ i.val → ¬ (t i).Used → (t i).Blank ∧ ¬ (t i).Folder ∧ ¬ (v.table d i).Folder

section stands
variable {sh : Shell} {s s' : State} {live live' : Finset Nat} {d : Nat} {op : Op} {rep : Reply}

theorem Stands.alive (h : Stands sh s live d) : d ∈ live := h.path.mem_live h.run.inv

theorem Stands.cluster (h : Stands sh s live d) : getClusterNumber sh.dirTable = getClusterNumber (s.volume.table d) := by
  unfold getClusterNumber
  rw [h.heads 0 (by decide)]

theorem Stands.here (h : Stands sh s live d) : sh.here = d := by
  unfold Shell.here
  rw [h.cluster, getClusterNumber_table h.run.inv h.alive]

/-- A request that does not remove anything further up leaves the shell where it stands. -/
theorem Stands.step (h : Stands sh s live d) (hs : Step Ordinary (s, live) (op, rep) (s', live'))
    (hop : ∀ r, op = .delete r → r.parent = d) : Stands sh s' live' d := by
  obtain ⟨hord, ⟨fuel, hexec⟩, hlive⟩ := hs
  dsimp only at hord hexec hlive
  have hrun := h.run.step hord hexec
  have hinv := h.run.inv
  rw [← hlive] at hrun
  rcases safe_change hinv (hord.safe hinv) hexec with ⟨hv, hl⟩ | ⟨q, row, e, l, hfills, -, hch⟩
  · rw [← hlive] at hl
    refine ⟨hrun, ?_, h.bytes, ?_⟩
    · rw [hv, hl]
      exact h.path
    · rw [hv]
      exact h.heads
  · rw [← hlive] at hch
    have hq : s.volume.LiveRow live q.parent row → q.parent = d := by
      intro hr
      rcases hfills with ⟨-, hu, -⟩ | ⟨hdel, -⟩
      · exact absurd hr.2.2 hu
      · exact hop q hdel
    have hpath := h.path.change hinv hrun.inv hch hq
    have hdl : d ∉ l := by
      rcases hch.dirs d (hpath.mem_live hrun.inv) with ⟨-, hl⟩ | ⟨hno, -⟩
      · exact hl
      · exact absurd h.alive hno
    obtain ⟨h0, h1⟩ := hinv.edit_heads hch.edit h.alive hdl hch.row2
    refine ⟨hrun, hpath, h.bytes, fun i hi => ?_⟩
    have hcases : i = 0 ∨ i = 1 := by omega
    rcases hcases with rfl | rfl
    · rw [h0, h.heads 0 hi]
    · rw [h1, h.heads 1 hi]

/-- What only looks at the volume leaves it as it is. -/
theorem Step.lookup (hinv : Inv s.volume live) (hs : Step Ordinary (s, live) (op, rep) (s', live'))
    (hop : ∃ r, op = .read r ∨ op = .readDirectory r) : s'.volume = s.volume ∧ live' = live := by
  obtain ⟨hord, ⟨fuel, hexec⟩, hlive⟩ := hs
  dsimp only at hord hexec hlive
  rcases safe_change hinv (hord.safe hinv) hexec with ⟨hv, hl⟩ | ⟨q, row, e, l, hfills, -, -⟩
  · exact ⟨hv, hlive.trans hl⟩
  · obtain ⟨r, rfl | rfl⟩ := hop
    · rcases hfills with ⟨⟨_, he, -⟩, -⟩ | ⟨he, -⟩ <;> cases he
    · rcases hfills with ⟨⟨_, he, -⟩, -⟩ | ⟨he, -⟩ <;> cases he

theorem Step.readDirectory {q : Request} (ho : Ordinary s.volume live (.readDirectory q)) :
    Step Ordinary (s, live) (.readDirectory q, (MoggersOs.readDirectory s q).1) ((MoggersOs.readDirectory s q).2, live) := by
  have hexec : MoggersOs.exec 0 s (.readDirectory q) = some ((MoggersOs.readDirectory s q).1, (MoggersOs.readDirectory s q).2) := rfl
  refine ⟨ho, ⟨0, hexec⟩, ?_⟩
  rw [liveAfter_readDirectory]

/-- A `delete` takes no free cluster. -/
theorem Step.delete_free {q : Request} (hinv : Inv s.volume live)
    (hs : Step Ordinary (s, live) (.delete q, rep) (s', live')) (hfree : s.fatTable.freeClusters ≠ []) :
    s'.fatTable.freeClusters ≠ [] := by
  obtain ⟨hord, ⟨fuel, hexec⟩, -⟩ := hs
  dsimp only at hord hexec
  obtain ⟨fx, hout, -, hvol, -⟩ := exec_outcome hinv (hord.safe hinv) hexec
  have hfat : s'.fatTable = fx.fat := congrArg Volume.fat hvol
  obtain ⟨c, hc⟩ := List.exists_mem_of_ne_nil _ hfree
  have hkept : ∀ {row e l}, Edit s.volume (s.volume.apply fx) q.parent row e l → c ∉ l → c ∈ fx.fat.freeClusters := by
    intro row e l he hl
    obtain ⟨hc512, hc0⟩ := Fat.mem_freeClusters.1 hc
    refine Fat.mem_freeClusters.2 ⟨hc512, ?_⟩
    have hnext : (fx.fat.get c).toNat = (s.fatTable.get c).toNat := he.next hl
    rw [hc0] at hnext
    exact UInt32.toNat_inj.1 hnext
  rw [hfat]
  refine List.ne_nil_of_mem (a := c) ?_
  generalize liveAfter s live (.delete q) rep.code = live₁ at hout
  cases hout with
  | refused _ => exact hc
  | lookup hop => rcases hop with ⟨_, he | he⟩ <;> cases he
  | rmdir hr hf hfo hcl hempty =>
    subst hcl
    refine hkept (hinv.rmdir_change hr hf hfo rfl hempty).edit fun hl => ?_
    exact hinv.chain_notMem_free hr (hinv.folder_chain hr hfo).1 c hl hc
  | unlink hr hf hfo hl =>
    exact hkept (hinv.unlink_change hr hf hfo hl).edit fun hcl => hinv.chain_notMem_free hr hl c hcl hc

end stands

theorem directoryRequest_parent {v : Volume} {live : Finset Nat} {d : Nat} (h : Inv v live) (hd : d ∈ live)
    (name : Fin 8 → UInt8) : (directoryRequest name (getClusterNumber (v.table d))).parent = d :=
  getClusterNumber_table h hd

/-- In a run of ordinary requests every directory has a name. -/
theorem Run.own_name {s : State} {live : Finset Nat} {d : Nat} (h : Run Ordinary s live) (hd : d ∈ live) :
    (s.volume.table d 0).name ≠ fun _ => 0 := by
  by_cases hroot : d = rootClusterNumber
  · rw [hroot, h.safe.headsNamed.1]
    exact fun he => absurd (congrFun he 0) (by decide)
  · obtain ⟨p, i, hr, hf, rfl⟩ := h.inv.parent d hd hroot
    obtain ⟨-, hcopy, -, hext⟩ := h.inv.folder p i hr hf
    rw [hcopy]
    exact fun hname => h.rowsNamed p i hr ⟨hname, hext⟩

/-! ## The table of the shell -/

namespace Recent

variable {t : Table} {v : Volume} {live : Finset Nat} {d : Nat}

theorem self {s : State} (h : Run Ordinary s live) (hd : d ∈ live) : Recent (s.volume.table d) s.volume d := by
  refine ⟨fun i _ _ => rfl, fun i hi hu => ?_⟩
  obtain ⟨hplain, -⟩ := h.safe.rowsPlain.2 d hd i hi
  exact ⟨h.inv.unused d hd i hi hu, hplain hu, hplain hu⟩

variable (hr : Recent t v d) (hheads : ∀ i : Fin 64, i.val < 2 → t i = v.table d i)
include hr

/-- No folder is missing. -/
theorem folder_row {i : Fin 64} (hi : 2 ≤ i.val) (hf : (v.table d i).Folder) : t i = v.table d i := by
  by_cases hu : (t i).Used
  · exact hr.rows i hi hu
  · exact absurd hf (hr.unseen i hi hu).2.2

include hheads in
theorem hasFolder_iff {name : Fin 8 → UInt8} : HasFolder t name ↔ HasFolder (v.table d) name := by
  constructor
  · rintro ⟨i, hu, hf, hname⟩
    have hi : t i = v.table d i := by
      by_cases h2 : i.val < 2
      · exact hheads i h2
      · exact hr.rows i (Nat.le_of_not_lt h2) hu
    exact ⟨i, hi ▸ hu, hi ▸ hf, hi ▸ hname⟩
  · rintro ⟨i, hu, hf, hname⟩
    have hi : t i = v.table d i := by
      by_cases h2 : i.val < 2
      · exact hheads i h2
      · exact hr.folder_row (Nat.le_of_not_lt h2) hf
    exact ⟨i, hi ▸ hu, hi ▸ hf, hi ▸ hname⟩

end Recent

/-- What holds between two commands: the shell stands in a directory, and its table is a recent one. -/
structure Sound (x : Shell × State) (live : Finset Nat) (d : Nat) : Prop extends Stands x.1 x.2 live d where
  recent : Recent x.1.dirTable x.2.volume d

theorem Word.info_ne {w : Word} (h : w.bytes ≠ []) : w.arg.info ≠ fun _ => 0 := by
  obtain ⟨b, l, hb⟩ := List.exists_cons_of_ne_nil h
  intro hz
  have h0 : w.bytes.getD 0 0 = 0 := congrFun hz 0
  rw [hb, List.getD_cons_zero] at h0
  exact w.nonzero b (by simp [hb]) h0

section calls
variable {sh : Shell} {s s₁ : State} {live live₁ : Finset Nat} {d : Nat}

/-- `cd_refresh` reads the directory that the shell stands in. -/
theorem Stands.refresh (h : Stands sh s live d) :
    ∃ a, Step Ordinary (s, live) a ((cdRefresh sh s).2, live) ∧ takenAway a = none ∧
      Sound (cdRefresh sh s) live d ∧ (cdRefresh sh s).1.dirTable = (cdRefresh sh s).2.volume.table d := by
  have hinv := h.run.inv
  have hd := h.alive
  have h0 := h.heads 0 (by decide)
  have htab := loadTable_readDirectory hinv hd (j := 0) rfl fun j hj => absurd hj (Nat.not_lt_zero j)
  rw [if_pos (hinv.self d hd).2.1, (hinv.self d hd).2.2.1] at htab
  generalize hreq : directoryRequest (s.volume.table d 0).name (getClusterNumber (s.volume.table d)) = q at htab
  have hord : Ordinary s.volume live (.readDirectory q) := by
    rw [← hreq]
    refine ⟨?_, fun hno => h.run.own_name hd hno.1⟩
    rw [directoryRequest_parent hinv hd]
    exact hd
  have hstep := Step.readDirectory hord
  have hvol : (readDirectory s q).2.volume = s.volume := readDirectory_volume q
  have hsh : cdRefresh sh s = (⟨s.volume.table d, sh.path⟩, (readDirectory s q).2) := by
    unfold cdRefresh
    rw [h.cluster, h0, hreq]
    dsimp only
    rw [htab]
  rw [hsh]
  have hstands := h.step hstep fun r he => by cases he
  refine ⟨_, hstep, rfl, ⟨⟨hstands.run, hstands.path, h.bytes, ?_⟩, ?_⟩, ?_⟩
  · rw [hvol]
    exact fun i _ => rfl
  · rw [hvol]
    exact .self h.run hd
  · rw [hvol]

/-- The requests of a command, and the name that a `delete` among them takes away. -/
structure Calls (takes : Option (Fin 8 → UInt8)) (d : Nat) (x : State × Finset Nat) (tr : List (Op × Reply))
    (y : State × Finset Nat) : Prop where
  path  : Lib.Path (Step Ordinary) x tr y
  taken : ∀ a ∈ tr, ∀ p, takenAway a = some p → ∃ n, takes = some n ∧ p = (d, (n, fun _ => 0))

theorem Calls.snoc {takes : Option (Fin 8 → UInt8)} {x y z : State × Finset Nat} {tr : List (Op × Reply)}
    {a : Op × Reply} (h : Calls takes d x tr y) (hs : Step Ordinary y a z)
    (ha : ∀ p, takenAway a = some p → ∃ n, takes = some n ∧ p = (d, (n, fun _ => 0))) :
    Calls takes d x (tr ++ [a]) z := by
  refine ⟨h.path.snoc hs, fun b hb => ?_⟩
  rcases List.mem_append.1 hb with hb | hb
  · exact h.taken b hb
  · obtain rfl := List.mem_singleton.1 hb
    exact ha

/-- After its requests a command reads the directory anew. -/
theorem Stands.refreshed {takes : Option (Fin 8 → UInt8)} {tr : List (Op × Reply)} (h : Stands sh s₁ live₁ d)
    (hc : Calls takes d (s, live) tr (s₁, live₁)) : ∃ tr', Calls takes d (s, live) tr' ((cdRefresh sh s₁).2, live₁) ∧
      Sound (cdRefresh sh s₁) live₁ d ∧ (cdRefresh sh s₁).1.dirTable = (cdRefresh sh s₁).2.volume.table d := by
  obtain ⟨a, hstep, htaken, hsound, hexact⟩ := h.refresh
  exact ⟨_, hc.snoc hstep fun p hp => absurd (htaken.symm.trans hp) (by simp), hsound, hexact⟩

/-! ## The commands -/

variable {x y : Shell × State} {w : Word}

/-- A `cd` that meets its condition leads to the directory that the path then names. -/
theorem Sound.cd (h : Sound x live d) (hw : w.bytes ≠ []) (hk : CdKeeps ⟨x.2.volume.table d, x.1.path⟩ w)
    (hcd : cd x.1 x.2 w.arg = some y) : ∃ tr d', Calls none d (x.2, live) tr (y.2, live) ∧ Sound y live d' ∧
      (x.1.dirTable = x.2.volume.table d → y.1.dirTable = y.2.volume.table d') := by
  by_cases hhas : HasFolder x.1.dirTable w.arg.info
  swap
  · rw [cd_stays hhas] at hcd
    cases hcd
    exact ⟨[], d, ⟨.nil, fun a ha => absurd ha List.not_mem_nil⟩, h, id⟩
  -- the table on the disk has the folder too, and decides the rest
  have hhas' := (h.recent.hasFolder_iff h.heads).1 hhas
  have hout : readDirectory x.2 (directoryRequest w.arg.info (getClusterNumber x.1.dirTable)) =
      readDirectory x.2 (directoryRequest w.arg.info (getClusterNumber (x.2.volume.table d))) := by rw [h.cluster]
  have hfresh : MoggersOs.cd ⟨x.2.volume.table d, x.1.path⟩ x.2 w.arg = some y := by
    rw [cd_moves hhas _ hout] at hcd
    rw [cd_moves hhas' _ rfl]
    exact hcd
  have hagrees : Agrees x.2.volume live ⟨x.2.volume.table d, x.1.path⟩ d := ⟨h.alive, rfl, h.path⟩
  obtain ⟨d', hd'⟩ := (cd_agrees_iff h.run.safe hagrees h.bytes hfresh).2 hk
  obtain ⟨-, hvol, hbytes⟩ := cd_run h.run.safe hagrees h.bytes hfresh
  have hord : Ordinary x.2.volume live
      (.readDirectory (directoryRequest w.arg.info (getClusterNumber (x.2.volume.table d)))) := by
    refine ⟨?_, fun hno => Word.info_ne hw hno.1⟩
    rw [directoryRequest_parent h.run.inv h.alive]
    exact h.alive
  generalize hreq : directoryRequest w.arg.info (getClusterNumber (x.2.volume.table d)) = q at hord hout
  have hstate : y.2 = (readDirectory x.2 q).2 := by
    rw [cd_moves hhas _ hout] at hcd
    obtain ⟨_, -, rfl⟩ := Option.map_eq_some_iff.1 hcd
    rfl
  have hstep := Step.readDirectory hord
  rw [← hstate] at hstep
  have hrun := (h.step hstep fun r he => by cases he).run
  have hcalls : Calls none d (x.2, live) [(.readDirectory q, (readDirectory x.2 q).1)] (y.2, live) := by
    refine ⟨.cons hstep .nil, fun a ha p hp => ?_⟩
    rw [List.mem_singleton.1 ha] at hp
    cases hp
  rw [← hvol] at hd'
  refine ⟨_, d', hcalls, ⟨⟨hrun, hd'.path, hbytes, fun i _ => ?_⟩, ?_⟩, fun _ => hd'.table⟩
  · rw [hd'.table]
  · rw [hd'.table]
    exact .self hrun hd'.alive

/-- The request of `mkdir` and `rm` is about the directory of the shell, and has a name. -/
theorem Stands.mkdirRequest (h : Stands sh s live d) (hw : w.bytes ≠ []) :
    (MoggersOs.mkdirRequest sh w.arg).parent = d ∧ (MoggersOs.mkdirRequest sh w.arg).Named ∧
      (MoggersOs.mkdirRequest sh w.arg).fileName = (w.arg.info, fun _ => 0) := by
  have hname : (MoggersOs.mkdirRequest sh w.arg).name = w.arg.info := w.arg_name
  have hext : (MoggersOs.mkdirRequest sh w.arg).ext = fun _ => 0 := by
    funext i
    simp [MoggersOs.mkdirRequest, Word.arg]
  exact ⟨h.here, fun hno => Word.info_ne hw (hname.symm.trans hno.1), Prod.ext hname hext⟩

theorem Stands.mkdir_ordinary (h : Stands sh s live d) (hw : w.bytes ≠ []) (hfree : s.fatTable.freeClusters ≠ []) :
    Ordinary s.volume live (.write (MoggersOs.mkdirRequest sh w.arg)) := by
  obtain ⟨hp, hnamed, hname⟩ := h.mkdirRequest hw
  refine ⟨hp ▸ h.alive, hnamed, fun _ => congrArg Prod.snd hname, ?_⟩
  have hz : (MoggersOs.mkdirRequest sh w.arg).bufferSize = 0 := rfl
  rw [Volume.Fits, Volume.needed, if_pos hz]
  exact List.length_pos_of_ne_nil hfree

theorem Sound.mkdir (h : Sound x live d) (hw : w.bytes ≠ []) (hfree : x.2.fatTable.freeClusters ≠ [])
    (hm : mkdir x.1 x.2 w.arg = y) : ∃ tr live', Calls none d (x.2, live) tr (y.2, live') ∧ Sound y live' d ∧
      y.1.dirTable = y.2.volume.table d := by
  have hord := h.mkdir_ordinary hw hfree
  unfold MoggersOs.mkdir at hm
  generalize MoggersOs.mkdirRequest x.1 w.arg = q at hord hm
  have hstep := Step.write hord
  have hstands := h.step hstep fun r he => by cases he
  have hcall : Calls none d (x.2, live) [(.write q, ⟨(write x.2 q).1, q.buf⟩)]
      ((write x.2 q).2, liveAfter x.2 live (.write q) (write x.2 q).1) := by
    refine ⟨.cons hstep .nil, fun a ha p hp => ?_⟩
    rw [List.mem_singleton.1 ha] at hp
    cases hp
  obtain ⟨tr, hcalls, hsound, hexact⟩ := hstands.refreshed hcall
  subst hm
  exact ⟨tr, _, hcalls, hsound, hexact⟩

theorem Sound.rm {fuel : Nat} (h : Sound x live d) (hw : w.bytes ≠ []) (hrm : rm fuel x.1 x.2 w.arg = some y) :
    ∃ tr live', Calls (some w.arg.info) d (x.2, live) tr (y.2, live') ∧ Sound y live' d ∧
      y.1.dirTable = y.2.volume.table d := by
  obtain ⟨hp, hnamed, hname⟩ := h.mkdirRequest hw
  unfold MoggersOs.rm at hrm
  generalize MoggersOs.mkdirRequest x.1 w.arg = q at hp hnamed hname hrm
  obtain ⟨out, hdel, rfl⟩ := Option.map_eq_some_iff.1 hrm
  have hstep : Step Ordinary (x.2, live) (.delete q, ⟨out.1, q.buf⟩) (out.2, liveAfter x.2 live (.delete q) out.1) := by
    refine ⟨⟨hp ▸ h.alive, hnamed⟩, ⟨fuel, ?_⟩, rfl⟩
    simp only [exec, hdel, Option.map_some]
  have hstands := h.step hstep fun r he => by
    cases he
    exact hp
  have hcall : Calls (some w.arg.info) d (x.2, live) [(.delete q, ⟨out.1, q.buf⟩)]
      (out.2, liveAfter x.2 live (.delete q) out.1) := by
    refine ⟨.cons hstep .nil, fun a ha p hp' => ?_⟩
    rw [List.mem_singleton.1 ha] at hp'
    exact ⟨_, rfl, (Option.some.inj hp').symm.trans (Prod.ext hp hname)⟩
  obtain ⟨tr, hcalls, hsound, hexact⟩ := hstands.refreshed hcall
  exact ⟨tr, _, hcalls, hsound, hexact⟩

/-! ## `mv` and `cp` -/

omit x y w in
theorem retarget_eq_some {t : Table} {argument2 : Arg} {source target : Request}
    (h : retarget t argument2 source = some target) :
    getEntryRow t argument2 = none ∧ target = { source with name := argument2.info } ∨
    ∃ j, getEntryRow t argument2 = some j ∧ (t j).Folder ∧
      target = { source with parentClusterNumber := getClusterNumberSelf (t j) } := by
  unfold retarget at h
  split at h
  next hrow => exact .inl ⟨hrow, (Option.some.inj h).symm⟩
  next j hrow =>
    split at h
    next hf => exact .inr ⟨j, hrow, hf, (Option.some.inj h).symm⟩
    next => cases h

/-- What the second argument finds is in use. -/
theorem Recent.entry_used {t : Table} {v : Volume} {w₂ : Word} {j : Fin 64} (hr : Recent t v d) (hw : w₂.bytes ≠ [])
    (hj : getEntryRow t w₂.arg = some j) : 2 ≤ j.val ∧ (t j).name = w₂.arg.info ∧ (t j).Used ∧ t j = v.table d j := by
  obtain ⟨hj2, hname, -⟩ := getEntryRow_eq_some hj
  have hu : (t j).Used := by
    by_contra hu
    exact Word.info_ne hw (hname.symm.trans (hr.unseen j hj2 hu).1.1)
  exact ⟨hj2, hname, hu, hr.rows j hj2 hu⟩

section copy
variable {garbage : Nat → UInt8} {w₂ : Word} {target : Request}

theorem Stands.source (garbage : Nat → UInt8) (h : Stands sh s live d) (hw : w.bytes ≠ []) (b : Nat → UInt8) :
    ({ sourceRequest garbage sh.dirTable w.arg with buf := b } : Request).parent = d ∧
      ({ sourceRequest garbage sh.dirTable w.arg with buf := b } : Request).Named ∧
      ({ sourceRequest garbage sh.dirTable w.arg with buf := b } : Request).fileName = (w.arg.info, fun _ => 0) := by
  have hname : (sourceRequest garbage sh.dirTable w.arg).name = w.arg.info := w.arg_name
  exact ⟨h.here, fun hno => Word.info_ne hw (hname.symm.trans hno.1), Prod.ext hname rfl⟩

/-- The request that is written is an ordinary one as long as the folder that it goes to is there. -/
theorem Stands.writes (h : Stands sh s live d) (hw : w.bytes ≠ []) (hw₂ : w₂.bytes ≠ [])
    (hfree : s.fatTable.freeClusters ≠ [])
    (ht : retarget sh.dirTable w₂.arg (sourceRequest garbage sh.dirTable w.arg) = some target)
    (hrow : ∀ j, getEntryRow sh.dirTable w₂.arg = some j → (sh.dirTable j).Folder →
      s.volume.LiveRow live d j ∧ s.volume.table d j = sh.dirTable j) (b : Nat → UInt8) :
    Ordinary s.volume live (.write { target with buf := b }) := by
  have hname : (sourceRequest garbage sh.dirTable w.arg).name = w.arg.info := w.arg_name
  have hz : target.bufferSize = 2048 := by
    rcases retarget_eq_some ht with ⟨-, rfl⟩ | ⟨j, -, -, rfl⟩ <;> rfl
  refine ⟨?_, ?_, fun hzero => absurd (hz.symm.trans hzero) (by decide), ?_⟩
  · rcases retarget_eq_some ht with ⟨-, rfl⟩ | ⟨j, hj, hf, rfl⟩
    · exact (show sh.here ∈ live from h.here ▸ h.alive)
    · obtain ⟨hr, he⟩ := hrow j hj hf
      rw [← he] at hf
      obtain ⟨hlive, -⟩ := h.run.inv.folder d j hr hf
      have hc : (getClusterNumberSelf (sh.dirTable j)).toNat = (s.volume.table d j).cluster := by
        obtain ⟨-, hlt, -⟩ := h.run.inv.live_cluster hlive
        rw [getClusterNumberSelf, ← he]
        exact UInt32.toNat_ofNat_of_lt' (by simp [UInt32.size]; omega)
      exact (show (getClusterNumberSelf (sh.dirTable j)).toNat ∈ live from hc ▸ hlive)
  · rcases retarget_eq_some ht with ⟨-, rfl⟩ | ⟨j, -, -, rfl⟩
    · exact fun hno => Word.info_ne hw₂ hno.1
    · exact fun hno => Word.info_ne hw (hname.symm.trans hno.1)
  · have hbuf : ({ target with buf := b } : Request).bufferSize = 2048 := hz
    rw [Volume.Fits, Volume.needed, hbuf, if_neg (by decide)]
    exact List.length_pos_of_ne_nil hfree

/-- `read` looks the file up under its name. -/
theorem Stands.read {fuel : Nat} {out : Reply × State} (h : Stands sh s live d) (hw : w.bytes ≠ [])
    (hread : read fuel s (sourceRequest garbage sh.dirTable w.arg) = some out) :
    Step Ordinary (s, live) (.read (sourceRequest garbage sh.dirTable w.arg), out.1) (out.2, live) ∧
      Stands sh out.2 live d ∧ out.2.volume = s.volume := by
  obtain ⟨hp, hnamed, -⟩ := h.source garbage hw (sourceRequest garbage sh.dirTable w.arg).buf
  generalize sourceRequest garbage sh.dirTable w.arg = q at *
  have hstep : Step Ordinary (s, live) (.read q, out.1) (out.2, live) := by
    refine ⟨⟨hp ▸ h.alive, hnamed⟩, ⟨fuel, hread⟩, ?_⟩
    rw [liveAfter_read]
  have hstands := h.step hstep fun r he => by cases he
  exact ⟨hstep, hstands, (hstep.lookup h.run.inv ⟨q, .inl rfl⟩).1⟩

/-- A `delete` leaves the rows of other names. -/
theorem Stands.row_kept {q : Request} {rep : Reply} {j : Fin 64} (h : Stands sh s live d)
    (hs : Step Ordinary (s, live) (.delete q, rep) (s₁, live₁)) (hr : s.volume.LiveRow live d j)
    (hname : (s.volume.table d j).fileName ≠ q.fileName) :
    s₁.volume.LiveRow live₁ d j ∧ s₁.volume.table d j = s.volume.table d j := by
  obtain ⟨hord, ⟨fuel, hexec⟩, hlive⟩ := hs
  dsimp only at hord hexec hlive
  have hinv := h.run.inv
  rcases safe_change hinv (hord.safe hinv) hexec with ⟨hv, hl⟩ | ⟨q', row, e, l, hfills, -, hch⟩
  · rw [hv, hlive, hl]
    exact ⟨hr, rfl⟩
  · obtain rfl : q' = q := by
      rcases hfills with ⟨⟨_, he, -⟩, -⟩ | ⟨he, -⟩
      · cases he
      · cases he
        rfl
    have hne : ¬ (d = q'.parent ∧ j = row) := by
      rintro ⟨rfl, rfl⟩
      exact hname (fileName_eq.2 (hch.old hr.2.2))
    rw [← hlive] at hch
    exact ⟨(hch.liveRow_iff hinv hne).2 hr, hch.row_eq hinv hr hne⟩

omit w w₂ in
theorem mv_eq_some {fuel : Nat} {t : Table} {argument1 argument2 : Arg} {codes : List Int}
    (h : mv fuel garbage t s argument1 argument2 = some (codes, s₁)) :
    retarget t argument2 (sourceRequest garbage t argument1) = none ∧ s₁ = s ∨
      ∃ target out gone, retarget t argument2 (sourceRequest garbage t argument1) = some target ∧
        read fuel s (sourceRequest garbage t argument1) = some out ∧
        delete fuel out.2 { sourceRequest garbage t argument1 with buf := out.1.buf } = some gone ∧
        s₁ = (write gone.2 { target with buf := out.1.buf }).2 := by
  unfold mv at h
  dsimp only at h
  split at h
  next ht => exact .inl ⟨ht, (Prod.mk.inj (Option.some.inj h)).2.symm⟩
  next target ht =>
    obtain ⟨out, hread, h⟩ := Option.bind_eq_some_iff.1 h
    split at h
    next => cases h
    next =>
      obtain ⟨gone, hdel, h⟩ := Option.bind_eq_some_iff.1 h
      exact .inr ⟨target, out, gone, ht, hread, hdel, (Prod.mk.inj (Option.some.inj h)).2.symm⟩

omit w w₂ in
theorem cp_eq_some {fuel : Nat} {t : Table} {argument1 argument2 : Arg} {codes : List Int}
    (h : cp fuel garbage t s argument1 argument2 = some (codes, s₁)) :
    retarget t argument2 (sourceRequest garbage t argument1) = none ∧ s₁ = s ∨
      ∃ target out, retarget t argument2 (sourceRequest garbage t argument1) = some target ∧
        read fuel s (sourceRequest garbage t argument1) = some out ∧
        s₁ = (write out.2 { target with buf := out.1.buf }).2 := by
  unfold cp at h
  dsimp only at h
  split at h
  next => cases h
  next =>
    split at h
    next ht => exact .inl ⟨ht, (Prod.mk.inj (Option.some.inj h)).2.symm⟩
    next target ht =>
      obtain ⟨out, hread, h⟩ := Option.bind_eq_some_iff.1 h
      exact .inr ⟨target, out, ht, hread, (Prod.mk.inj (Option.some.inj h)).2.symm⟩

/-- The folder that `mv` writes to is not the one that it removes. -/
theorem Sound.mv {fuel : Nat} {codes : List Int} (h : Sound x live d) (hw : w.bytes ≠ []) (hw₂ : w₂.bytes ≠ [])
    (hfree : x.2.fatTable.freeClusters ≠ []) (hself : ¬ (w.arg.info = w₂.arg.info ∧ HasFolder x.1.dirTable w.arg.info))
    (hmv : mv fuel garbage x.1.dirTable x.2 w.arg w₂.arg = some (codes, s₁)) (hy : cdRefresh x.1 s₁ = y) :
    ∃ tr live', Calls (some w.arg.info) d (x.2, live) tr (y.2, live') ∧ Sound y live' d ∧
      y.1.dirTable = y.2.volume.table d := by
  subst hy
  obtain ⟨-, rfl⟩ | ⟨target, out, gone, ht, hread, hdel, rfl⟩ := mv_eq_some hmv
  · have hcall : Calls (some w.arg.info) d (x.2, live) [] (x.2, live) := ⟨.nil, fun a ha => absurd ha List.not_mem_nil⟩
    obtain ⟨tr, hcalls, hsound, hexact⟩ := h.refreshed hcall
    exact ⟨tr, live, hcalls, hsound, hexact⟩
  obtain ⟨hstep₁, hstands₁, hvol₁⟩ := h.toStands.read hw hread
  obtain ⟨hp, hnamed, hname⟩ := h.source garbage hw out.1.buf
  generalize ({ sourceRequest garbage x.1.dirTable w.arg with buf := out.1.buf } : Request) = q at hp hnamed hname hdel
  have hstep₂ : Step Ordinary (out.2, live) (.delete q, ⟨gone.1, q.buf⟩)
      (gone.2, liveAfter out.2 live (.delete q) gone.1) := by
    refine ⟨⟨hp ▸ h.alive, hnamed⟩, ⟨fuel, ?_⟩, rfl⟩
    simp only [exec, hdel, Option.map_some]
  have hstands₂ := hstands₁.step hstep₂ fun r he => by
    cases he
    exact hp
  have hfree₁ : out.2.fatTable.freeClusters ≠ [] := by
    rw [show out.2.fatTable = x.2.fatTable from congrArg Volume.fat hvol₁]
    exact hfree
  have hfree₂ := hstep₂.delete_free hstands₁.run.inv hfree₁
  generalize liveAfter out.2 live (.delete q) gone.1 = live₂ at hstep₂ hstands₂
  have hord₃ := hstands₂.writes hw hw₂ hfree₂ ht (fun j hj hf => by
    obtain ⟨hj2, hjname, hu, he⟩ := h.recent.entry_used hw₂ hj
    rw [← hvol₁] at he
    rw [he]
    refine hstands₁.row_kept hstep₂ ⟨h.alive, hj2, he ▸ hu⟩ fun hsame => hself ?_
    have hsame' : (x.1.dirTable j).name = w.arg.info := by
      rw [he]
      exact congrArg Prod.fst (hsame.trans hname)
    exact ⟨hsame'.symm.trans hjname, ⟨j, hu, hf, hsame'⟩⟩) out.1.buf
  have hstep₃ := Step.write hord₃
  have hstands₃ := hstands₂.step hstep₃ fun r he => by cases he
  have hcalls₀ : Calls (some w.arg.info) d (x.2, live) [] (x.2, live) := ⟨.nil, fun a ha => absurd ha List.not_mem_nil⟩
  have hcalls₃ := ((hcalls₀.snoc hstep₁ fun p hp' => by cases hp').snoc hstep₂ fun p hp' =>
    ⟨_, rfl, (Option.some.inj hp').symm.trans (Prod.ext hp hname)⟩).snoc hstep₃ fun p hp' => by cases hp'
  obtain ⟨tr, hcalls, hsound, hexact⟩ := hstands₃.refreshed hcalls₃
  exact ⟨tr, _, hcalls, hsound, hexact⟩

/-- The copy is the only thing that the table lacks. -/
theorem Recent.write {t : Table} {q : Request} {rep : Reply} (hr : Recent t s.volume d) (hinv : Inv s.volume live)
    (hd : d ∈ live) (hs : Step Ordinary (s, live) (.write q, rep) (s₁, live₁)) (hz : q.bufferSize ≠ 0) :
    Recent t s₁.volume d := by
  obtain ⟨hord, ⟨fuel, hexec⟩, -⟩ := hs
  dsimp only at hord hexec
  obtain ⟨fx, hout, -, hvol, -⟩ := exec_outcome hinv (hord.safe hinv) hexec
  generalize liveAfter s live (.write q) rep.code = live' at hout
  rw [hvol]
  cases hout with
  | refused _ => exact hr
  | lookup hop => rcases hop with ⟨_, he | he⟩ <;> cases he
  | mkdir _ _ hz' _ _ => exact absurd hz' hz
  | @mkfile q row c l hp _ _ hrow hfree hnd hlen =>
    have hch := hinv.mkfile_change hp hrow hfree
    have hunused := (findFreeRow_eq_some hrow).2
    refine ⟨fun i hi hu => ?_, fun i hi hu => ?_⟩
    · have hne : ¬ (d = q.parent ∧ i = row) := by
        rintro ⟨rfl, rfl⟩
        rw [hr.rows i hi hu] at hu
        exact hunused hu
      rw [hch.table_of_ne hinv hd hne]
      exact hr.rows i hi hu
    · obtain ⟨hb, hf, hvf⟩ := hr.unseen i hi hu
      refine ⟨hb, hf, ?_⟩
      by_cases hne : d = q.parent ∧ i = row
      · obtain ⟨rfl, rfl⟩ := hne
        rw [hch.edit.table_self]
        exact newFile_not_folder q c
      · rw [hch.table_of_ne hinv hd hne]
        exact hvf

theorem Sound.cp {fuel : Nat} {codes : List Int} (h : Sound x live d) (hw : w.bytes ≠ []) (hw₂ : w₂.bytes ≠ [])
    (hfree : x.2.fatTable.freeClusters ≠ [])
    (hcp : cp fuel garbage x.1.dirTable x.2 w.arg w₂.arg = some (codes, s₁)) :
    ∃ tr live', Calls none d (x.2, live) tr (s₁, live') ∧ Sound (x.1, s₁) live' d := by
  obtain ⟨-, rfl⟩ | ⟨target, out, ht, hread, rfl⟩ := cp_eq_some hcp
  · exact ⟨[], live, ⟨.nil, fun a ha => absurd ha List.not_mem_nil⟩, h⟩
  obtain ⟨hstep₁, hstands₁, hvol₁⟩ := h.toStands.read hw hread
  have hfree₁ : out.2.fatTable.freeClusters ≠ [] := by
    rw [show out.2.fatTable = x.2.fatTable from congrArg Volume.fat hvol₁]
    exact hfree
  have hrecent₁ : Recent x.1.dirTable out.2.volume d := hvol₁ ▸ h.recent
  have hord₂ := hstands₁.writes hw hw₂ hfree₁ ht (fun j hj hf => by
    obtain ⟨hj2, -, hu, he⟩ := hrecent₁.entry_used hw₂ hj
    exact ⟨⟨h.alive, hj2, he ▸ hu⟩, he.symm⟩) out.1.buf
  have hz : ({ target with buf := out.1.buf } : Request).bufferSize ≠ 0 := by
    rcases retarget_eq_some ht with ⟨-, rfl⟩ | ⟨j, -, -, rfl⟩
    · exact (by decide : (2048 : UInt32) ≠ 0)
    · exact (by decide : (2048 : UInt32) ≠ 0)
  have hstep₂ := Step.write hord₂
  have hstands₂ := hstands₁.step hstep₂ fun r he => by cases he
  refine ⟨_, _, ⟨.cons hstep₁ (.cons hstep₂ .nil), fun a ha p hp => ?_⟩, hstands₂, ?_⟩
  · simp only [List.mem_cons, List.not_mem_nil, or_false] at ha
    rcases ha with rfl | rfl <;> cases hp
  · exact hrecent₁.write hstands₁.run.inv h.alive hstep₂ hz

end copy

end calls

/-! ## Whole sessions -/

/-- The shell after `cd_root`. -/
theorem Sound.start {s : State} {live : Finset Nat} (h : Run Ordinary s live) (garbage : Fin 3 → UInt8) :
    ∃ a, Step Ordinary (s, live) a ((cdRoot garbage s).2, live) ∧ takenAway a = none ∧
      Sound (cdRoot garbage s) live rootClusterNumber ∧
      (cdRoot garbage s).1.dirTable = (cdRoot garbage s).2.volume.table rootClusterNumber := by
  obtain ⟨halive, htable, hpath⟩ := Session.start_agrees h.safe garbage
  have hord : Ordinary s.volume live (.readDirectory (directoryRequest rootName 2)) := by
    refine ⟨h.inv.root, fun hno => absurd (congrFun hno.1 0) (by decide)⟩
  have hstep := Step.readDirectory hord
  obtain ⟨s₀, tr, hrun⟩ := h
  have hrun' : Run Ordinary (cdRoot garbage s).2 live := ⟨s₀, _, hrun.snoc hstep⟩
  refine ⟨_, hstep, rfl, ⟨⟨hrun', hpath, rootArg_bytes garbage, fun i _ => congrFun htable i⟩, ?_⟩, htable⟩
  rw [show (cdRoot garbage s).1.dirTable = (cdRoot garbage s).2.volume.table rootClusterNumber from htable]
  exact .self hrun' halive

/-- **One command**: the shell stands in a directory again, and has made ordinary requests. -/
theorem Sound.step {x y : Shell × State} {c : FileCommand × ℕ} {live : Finset Nat} {d : Nat} (h : Sound x live d)
    (hg : FileCommand.Given x c y) : ∃ tr live' d', Calls c.1.takes c.2 (x.2, live) tr (y.2, live') ∧ Sound y live' d' ∧
      ∀ exact : Bool, (exact = true → x.1.dirTable = x.2.volume.table d) →
        c.1.leaves exact = true → y.1.dirTable = y.2.volume.table d' := by
  obtain ⟨c, e⟩ := c
  obtain ⟨hhere, hk, hr⟩ := hg
  dsimp only at hhere hk hr ⊢
  have hd := h.here
  rw [hhere, hd]
  cases c with
  | cd w =>
    obtain ⟨hw, hkeeps⟩ := hk
    rw [hd] at hkeeps
    obtain ⟨tr, d', hcalls, hsound, hexact⟩ := h.cd hw hkeeps hr
    exact ⟨tr, live, d', hcalls, hsound, fun _ hx hl => hexact (hx hl)⟩
  | mkdir w =>
    obtain ⟨tr, live', hcalls, hsound, hexact⟩ := h.mkdir hk.1 hk.2 hr
    exact ⟨tr, live', d, hcalls, hsound, fun _ _ _ => hexact⟩
  | rm w =>
    obtain ⟨fuel, hrm⟩ := hr
    obtain ⟨tr, live', hcalls, hsound, hexact⟩ := h.rm hk hrm
    exact ⟨tr, live', d, hcalls, hsound, fun _ _ _ => hexact⟩
  | mv garbage w w₂ =>
    obtain ⟨hw, hw₂, hfree, hself⟩ := hk
    obtain ⟨fuel, codes, s₁, hmv, hy⟩ := hr
    obtain ⟨tr, live', hcalls, hsound, hexact⟩ := h.mv hw hw₂ hfree hself hmv hy
    exact ⟨tr, live', d, hcalls, hsound, fun _ _ _ => hexact⟩
  | cp garbage w w₂ =>
    obtain ⟨hw, hw₂, hfree⟩ := hk
    obtain ⟨fuel, codes, s₁, hcp, rfl⟩ := hr
    obtain ⟨tr, live', hcalls, hsound⟩ := h.cp hw hw₂ hfree hcp
    exact ⟨tr, live', d, hcalls, hsound, fun _ _ hl => absurd hl (by simp [FileCommand.leaves])⟩

/-- What is done by `R` makes ordinary requests and leads from a directory to a directory. Of the names in directory `here`
it takes away `takes` at most, and `leaves` says whether the table is exact afterwards. -/
def Advances {ε : Type} (R : Shell × State → ε → Shell × State → Prop) (takes : ε → Option (Fin 8 → UInt8)) (here : ε → ℕ)
    (leaves : ε → Bool → Bool) : Prop :=
  ∀ ⦃x e y live d⦄, Sound x live d → R x e y → ∃ tr live' d', Calls (takes e) (here e) (x.2, live) tr (y.2, live') ∧
    Sound y live' d' ∧ ∀ exact : Bool, (exact = true → x.1.dirTable = x.2.volume.table d) → leaves e exact = true →
      y.1.dirTable = y.2.volume.table d'

theorem FileCommand.advances : Advances FileCommand.Given (fun c => c.1.takes) Prod.snd (fun c => c.1.leaves) :=
  fun _ _ _ _ _ h hg => h.step hg

namespace Advances

variable {ε : Type} {R : Shell × State → ε → Shell × State → Prop} {takes : ε → Option (Fin 8 → UInt8)} {here : ε → ℕ}
  {leaves : ε → Bool → Bool} {x y : Shell × State} {es : List ε}

/-- **Any commands in a row.** -/
theorem path (h : Advances R takes here leaves) (hpath : Lib.Path R x es y) :
    ∀ {live : Finset Nat} {d : Nat}, Sound x live d → ∀ exact : Bool,
      (exact = true → x.1.dirTable = x.2.volume.table d) →
      ∃ tr live' d', Lib.Path (Step Ordinary) (x.2, live) tr (y.2, live') ∧ Sound y live' d' ∧
        (∀ a ∈ tr, ∀ p, takenAway a = some p → ∃ e ∈ es, ∃ n, takes e = some n ∧ p = (here e, (n, fun _ => 0))) ∧
        (es.foldl (fun exact e => leaves e exact) exact = true → y.1.dirTable = y.2.volume.table d') := by
  induction hpath with
  | nil =>
    intro live d hx exact htable
    exact ⟨[], live, d, .nil, hx, fun a ha => absurd ha List.not_mem_nil, htable⟩
  | @cons x x₁ y e es hg _ ih =>
    intro live d hx exact htable
    obtain ⟨tr, live₁, d₁, hcalls, h₁, hexact⟩ := h hx hg
    obtain ⟨tr', live', d', hpath, hy, htaken, hfinal⟩ := ih h₁ (leaves e exact) (hexact exact htable)
    refine ⟨tr ++ tr', live', d', hcalls.path.append hpath, hy, fun a ha p hp => ?_, hfinal⟩
    rcases List.mem_append.1 ha with ha | ha
    · obtain ⟨n, hn, he⟩ := hcalls.taken a ha p hp
      exact ⟨e, by simp, n, hn, he⟩
    · obtain ⟨e', he', hn⟩ := htaken a ha p hp
      exact ⟨e', List.mem_cons_of_mem _ he', hn⟩

variable (h : Advances R takes here leaves) {s : State} {live : Finset Nat} (hrun : Run Ordinary s live)
  {garbage : Fin 3 → UInt8} (hpath : Lib.Path R (cdRoot garbage s) es y)
include h hrun hpath

/-- A session from `cd_root` on. -/
theorem session : ∃ tr live' d, Lib.Path (Step Ordinary) (s, live) tr (y.2, live') ∧ Sound y live' d ∧
    (∀ a ∈ tr, ∀ p, takenAway a = some p → ∃ e ∈ es, ∃ n, takes e = some n ∧ p = (here e, (n, fun _ => 0))) ∧
    (es.foldl (fun exact e => leaves e exact) true = true → y.1.dirTable = y.2.volume.table d) := by
  obtain ⟨a, hstep, ha, hstart, htable⟩ := Sound.start hrun garbage
  obtain ⟨tr, live', d, hreqs, hy, htaken, hexact⟩ := h.path hpath hstart true fun _ => htable
  refine ⟨a :: tr, live', d, .cons hstep hreqs, hy, fun b hb p hp => ?_, hexact⟩
  rcases List.mem_cons.1 hb with rfl | hb
  · rw [ha] at hp
    cases hp
  · exact htaken b hb p hp

/-- The same, seen as a store: what no command takes away is kept. -/
theorem kept {x : Files} (hx : Represents s.volume live x) {e : ℕ} {n : FileName} {a : Lib.Node ℕ (List UInt8)}
    (he : e ∈ live) (hn : x.entry e n = some a)
    (hes : ∀ c ∈ es, here c = e → takes c = some n.1 → n.2 ≠ fun _ => 0) :
    ∃ live' x', Represents y.2.volume live' x' ∧ e ∈ live' ∧ x'.entry e n = some a := by
  obtain ⟨tr, live', -, hreqs, -, htaken, -⟩ := h.session hrun hpath
  have href : Refined s live x := ⟨hrun.inv, hrun.namesUnique, hrun.safe.rowsPlain.2, hx⟩
  obtain ⟨x', hserves, hx'⟩ := href.run hreqs
  obtain ⟨hdirs, hentry⟩ := Lib.Namespace.kept (fun _ _ _ hs => hs.changes) hserves (d := e) (n := n)
    (hx.dirs.symm ▸ he) hn fun b hb htake => by
      obtain ⟨c, hc, m, hm, hp⟩ := htaken b hb _ htake
      obtain ⟨rfl, rfl⟩ := Prod.mk.inj hp
      exact hes c hc rfl hm rfl
  exact ⟨live', x', hx'.represents, hx'.represents.dirs ▸ hdirs, hentry⟩

end Advances

/-- What a table that is not up to date says about directory `d`: nothing that is not there, and every folder. -/
structure Files.Recalls (x : Files) (d : ℕ) (t : Table) : Prop where
  self    : (t 0).fileName = x.own d ∧ (t 0).cluster = d
  up      : (t 1).fileName = dotDotName ∧ (t 1).cluster = x.up d
  rows    : ∀ i : Fin 64, 2 ≤ i.val → (t i).Used → ∃ k, x.entry d (t i).fileName = some k ∧ Files.Shows (t i) k
  folders : ∀ n c, x.entry d n = some (.dir c) → ∃! i : Fin 64, 2 ≤ i.val ∧ (t i).Used ∧ (t i).fileName = n

theorem Recent.recalls {t : Table} {v : Volume} {d : Nat} {x : Files} (hr : Recent t v d)
    (hheads : ∀ i : Fin 64, i.val < 2 → t i = v.table d i) (hx : x.Describes d (v.table d)) : x.Recalls d t := by
  refine ⟨?_, ?_, fun i hi hu => ?_, fun n c hn => ?_⟩
  · rw [hheads 0 (by decide)]
    exact hx.self
  · rw [hheads 1 (by decide)]
    exact hx.up
  · have he := hr.rows i hi hu
    rw [he] at hu ⊢
    exact hx.rows i hi hu
  · obtain ⟨i, ⟨hi, hu, hname⟩, hmin⟩ := hx.listed n (by rw [hn]; simp)
    have hf : (v.table d i).Folder := by
      obtain ⟨k, hk, hshows⟩ := hx.rows i hi hu
      rw [hname, hn] at hk
      cases hk
      exact hshows.1
    have he := hr.folder_row hi hf
    refine ⟨i, ⟨hi, he ▸ hu, he ▸ hname⟩, ?_⟩
    rintro j ⟨hj, hju, hjname⟩
    have hje := hr.rows j hj hju
    exact hmin j ⟨hj, hje ▸ hju, hje ▸ hjname⟩

/-- The path through the rows is one through the entries. -/
theorem TreePath.leads {v : Volume} {live : Finset Nat} {x : Files} {d : Nat} {names : List (Fin 8 → UInt8)}
    (hp : TreePath v live d names) (hx : Represents v live x) : ∃ ns, x.Leads rootClusterNumber ns d ∧
      names = (v.table rootClusterNumber 0).name :: ns.map Prod.fst := by
  induction hp with
  | root => exact ⟨[], .here, rfl⟩
  | @child e i names _ hr hf ih =>
    obtain ⟨ns, hns, rfl⟩ := ih
    have hentry := hx.entry_of_row hr
    rw [Volume.node_folder hf] at hentry
    refine ⟨_, hns.down hentry, ?_⟩
    rw [List.map_append, List.cons_append]
    rfl

theorem cdRoot_volume (garbage : Fin 3 → UInt8) (s : State) : (cdRoot garbage s).2.volume = s.volume :=
  readDirectory_volume (directoryRequest rootName 2)

theorem cdRoot_path (garbage : Fin 3 → UInt8) (s : State) : (cdRoot garbage s).1.path = [rootArg garbage] := rfl

theorem mkdir_path (sh : Shell) (s : State) (argument : Arg) : (mkdir sh s argument).1.path = sh.path := rfl

theorem mkdir_volume (sh : Shell) (s : State) (argument : Arg) :
    (mkdir sh s argument).2.volume = (write s (mkdirRequest sh argument)).2.volume := readDirectory_volume _

/-- A path of one entry leads to the root. -/
theorem leads_root {x : Files} {d : ℕ} {ns : List FileName} {path : List Arg} (hleads : x.Leads rootClusterNumber ns d)
    (hns : path.map Arg.name = rootName :: ns.map Prod.fst) (hpath : path.length = 1) : d = rootClusterNumber := by
  have hlen := congrArg List.length hns
  rw [List.length_map, List.length_cons, List.length_map, hpath] at hlen
  cases hleads with
  | here => rfl
  | down _ _ =>
    rw [List.length_append, List.length_singleton] at hlen
    omega

/-- What no command has taken from the root is found there, except under the root's own name and `..`. -/
theorem Advances.root_look {ε : Type} {R : Shell × State → ε → Shell × State → Prop} {takes : ε → Option (Fin 8 → UInt8)}
    {here : ε → ℕ} {leaves : ε → Bool → Bool} (hadv : Advances R takes here leaves) {s : State} {live live' : Finset Nat}
    {x x' : Files} {n : FileName} {a : Lib.Node ℕ (List UInt8)} (hrun : Run Ordinary s live)
    (hx : Represents s.volume live x) (hn : x.entry rootClusterNumber n = some a) (hown : n.1 ≠ rootName) (hup : n ≠ dotDotName)
    {garbage : Fin 3 → UInt8} {es : List ε} {y : Shell × State} (h : Lib.Path R (cdRoot garbage s) es y)
    (hes : ∀ e ∈ es, here e = rootClusterNumber → takes e = some n.1 → n.2 ≠ fun _ => 0)
    (hx' : Represents y.2.volume live' x') (hroot : rootClusterNumber ∈ live') :
    x'.look dotDotName rootClusterNumber n = some a := by
  obtain ⟨-, _, _, -, hy, -⟩ := hadv.session hrun h
  obtain ⟨live₁, x₁, hx₁, hroot₁, hn₁⟩ := hadv.kept hrun h hx hrun.inv.root hn hes
  obtain ⟨i, hi, hname, hnode⟩ := (hx₁.entry _ hroot₁ n a).1 hn₁
  have hentry : x'.entry rootClusterNumber n = some a := (hx'.entry _ hroot n a).2 ⟨i, ⟨hroot, hi.2⟩, hname, hnode⟩
  refine (Lib.Namespace.look_of_ne (fun he => hown ?_) hup).trans hentry
  rw [he, hx'.own _ hroot]
  exact hy.run.safe.headsNamed.1

/-- The shell on the volume with the file `f`. -/
def besideFile : Shell × State := cdRoot (fun _ => 0) withFile

theorem besideFile_sound : Sound besideFile {rootClusterNumber} rootClusterNumber ∧
    besideFile.1.dirTable = besideFile.2.volume.table rootClusterNumber := by
  obtain ⟨-, -, -, hsound, htable⟩ := Sound.start withFile_run fun _ => 0
  exact ⟨hsound, htable⟩

theorem besideFile_free : besideFile.2.fatTable.freeClusters ≠ [] := by
  have hvol : besideFile.2.volume = withFile.volume := cdRoot_volume _ withFile
  rw [← State.volume_fat, hvol]
  exact firstFile_free blankState rfl (by decide) (by decide)

theorem besideFile_given (w : Word) (hw : w.bytes ≠ []) : Lib.Path FileCommand.Given besideFile
    [(.mkdir w, besideFile.1.here)] (mkdir besideFile.1 besideFile.2 w.arg) := .cons ⟨rfl, ⟨hw, besideFile_free⟩, rfl⟩ .nil

/-- After `mkdir g`. -/
def besideBoth : Shell × State := mkdir besideFile.1 besideFile.2 gWord.arg

theorem besideBoth_path :
    Lib.Path FileCommand.Given (cdRoot (fun _ => 0) withFile) [(.mkdir gWord, besideFile.1.here)] besideBoth :=
  besideFile_given gWord (by decide)

theorem besideBoth_here : besideBoth.1.path = [rootArg fun _ => 0] := by
  rw [besideBoth, mkdir_path, besideFile, cdRoot_path]

/-- The file is still there. -/
theorem besideBoth_look {live : Finset ℕ} {x : Files} {d : ℕ} {ns : List FileName}
    (hx : Represents besideBoth.2.volume live x) (hd : d ∈ live) (hleads : x.Leads rootClusterNumber ns d)
    (hns : besideBoth.1.path.map Arg.name = rootName :: ns.map Prod.fst) :
    ∃ b, x.look dotDotName d ((fileRequest 5).fileName) = some (.file b) := by
  obtain ⟨x₀, b, hx₀, hentry⟩ := withFile_entry
  obtain rfl := leads_root hleads hns (by rw [besideBoth_here]; rfl)
  refine ⟨b, FileCommand.advances.root_look withFile_run hx₀ hentry (by decide) (by decide) besideBoth_path ?_ hx hd⟩
  intro c hc _ htakes
  rw [List.mem_singleton.1 hc] at htakes
  cases htakes

/-- Seen as a store: the path leads through its entries. -/
theorem Advances.refined {ε : Type} {R : Shell × State → ε → Shell × State → Prop} {takes : ε → Option (Fin 8 → UInt8)}
    {here : ε → ℕ} {leaves : ε → Bool → Bool} (hadv : Advances R takes here leaves) {s : State} {live : Finset Nat}
    (hrun : Run Ordinary s live) {garbage : Fin 3 → UInt8} {es : List ε} {y : Shell × State}
    (h : Lib.Path R (cdRoot garbage s) es y) :
    ∃ live' x d ns, Sound y live' d ∧ Refined y.2 live' x ∧ x.Leads rootClusterNumber ns d ∧
      y.1.path.map Arg.name = rootName :: ns.map Prod.fst ∧
      (es.foldl (fun exact e => leaves e exact) true = true → y.1.dirTable = y.2.volume.table d) := by
  obtain ⟨-, live', d, -, hy, -, hexact⟩ := hadv.session hrun h
  obtain ⟨s₀, tr, hpath⟩ := hy.run
  obtain ⟨x, -, hx⟩ := (Refined.format s₀).run hpath
  obtain ⟨ns, hleads, hnames⟩ := hy.path.leads hx.represents
  rw [hy.run.safe.headsNamed.1] at hnames
  exact ⟨live', x, d, ns, hy, hx, hleads, hnames, hexact⟩

theorem session_refined {s : State} {live : Finset Nat} (hrun : Run Ordinary s live) {garbage : Fin 3 → UInt8}
    {cmds : List (FileCommand × ℕ)} {y : Shell × State} (h : Lib.Path FileCommand.Given (cdRoot garbage s) cmds y) :
    ∃ live' x d ns, Sound y live' d ∧ Refined y.2 live' x ∧ x.Leads rootClusterNumber ns d ∧
      y.1.path.map Arg.name = rootName :: ns.map Prod.fst ∧
      (upToDate cmds = true → y.1.dirTable = y.2.volume.table d) := FileCommand.advances.refined hrun h

/-- The table recalls the directory that the path leads to, and describes it if it is exact. -/
theorem Advances.shows {ε : Type} {R : Shell × State → ε → Shell × State → Prop} {takes : ε → Option (Fin 8 → UInt8)}
    {here : ε → ℕ} {leaves : ε → Bool → Bool} (hadv : Advances R takes here leaves) {s : State} {live : Finset Nat}
    (hrun : Run Ordinary s live) {garbage : Fin 3 → UInt8} {es : List ε} {y : Shell × State}
    (h : Lib.Path R (cdRoot garbage s) es y) :
    ∃ live' x d ns, Represents y.2.volume live' x ∧ x.Leads rootClusterNumber ns d ∧
      y.1.path.map Arg.name = rootName :: ns.map Prod.fst ∧ x.Recalls d y.1.dirTable ∧
      (es.foldl (fun exact e => leaves e exact) true = true → x.Describes d y.1.dirTable) := by
  obtain ⟨live', x, d, ns, hy, hx, hleads, hnames, hexact⟩ := hadv.refined hrun h
  have hlist := describes hx.inv hx.unique hx.represents hy.alive
  refine ⟨live', x, d, ns, hx.represents, hleads, hnames, hy.recent.recalls hy.heads hlist, fun hup => ?_⟩
  rw [hexact hup]
  exact hlist

/-- **What a session shows.** After any commands in a row, on any volume that ordinary requests have made, the path
leads to the directory that the table is about. The table says nothing of it that is not there, and all there is
unless a `cp` came last. -/
theorem session_shows {s : State} {live : Finset Nat} (hrun : Run Ordinary s live) {garbage : Fin 3 → UInt8}
    {cmds : List (FileCommand × ℕ)} {y : Shell × State} (h : Lib.Path FileCommand.Given (cdRoot garbage s) cmds y) :
    ∃ live' x d ns, Represents y.2.volume live' x ∧ x.Leads rootClusterNumber ns d ∧
      y.1.path.map Arg.name = rootName :: ns.map Prod.fst ∧ x.Recalls d y.1.dirTable ∧
      (upToDate cmds = true → x.Describes d y.1.dirTable) := FileCommand.advances.shows hrun h

/-- `mkdir g` beside the file. -/
theorem session_shows_mkdir : ∃ live' x d ns,
    Represents (mkdir besideFile.1 besideFile.2 gWord.arg).2.volume live' x ∧ x.Leads rootClusterNumber ns d ∧
    (mkdir besideFile.1 besideFile.2 gWord.arg).1.path.map Arg.name = rootName :: ns.map Prod.fst ∧
    x.Describes d (mkdir besideFile.1 besideFile.2 gWord.arg).1.dirTable := by
  have hup : upToDate [(.mkdir gWord, besideFile.1.here)] = true := rfl
  obtain ⟨live', x, d, ns, hx, hleads, hnames, -, hexact⟩ :=
    session_shows withFile_run (besideFile_given gWord (by decide))
  exact ⟨live', x, d, ns, hx, hleads, hnames, hexact hup⟩

/-- **What a session keeps.** A file or folder is there afterwards as it was, whatever the commands, if no `rm` and no
`mv` names it in its directory. -/
theorem session_keeps {s : State} {live : Finset Nat} (hrun : Run Ordinary s live) {garbage : Fin 3 → UInt8}
    {cmds : List (FileCommand × ℕ)} {y : Shell × State} (h : Lib.Path FileCommand.Given (cdRoot garbage s) cmds y)
    {x : Files} (hx : Represents s.volume live x) {e : ℕ} {n : FileName} {a : Lib.Node ℕ (List UInt8)} (he : e ∈ live)
    (hn : x.entry e n = some a) (hcmds : ∀ c ∈ cmds, c.2 = e → c.1.takes = some n.1 → n.2 ≠ fun _ => 0) :
    ∃ live' x', Represents y.2.volume live' x' ∧ e ∈ live' ∧ x'.entry e n = some a :=
  FileCommand.advances.kept hrun h hx he hn hcmds

theorem session_keeps_file : ∃ live' x' b, Represents (mkdir besideFile.1 besideFile.2 gWord.arg).2.volume live' x' ∧
    rootClusterNumber ∈ live' ∧ x'.entry rootClusterNumber (fileRequest 5).fileName = some (.file b) := by
  obtain ⟨x, b, hx, hentry⟩ := withFile_entry
  obtain ⟨live', x', hx', hlive, hn⟩ := session_keeps withFile_run (besideFile_given gWord (by decide)) hx
    (e := rootClusterNumber) (n := (fileRequest 5).fileName) (by decide) hentry fun c hc _ htakes => by
      rw [List.mem_singleton.1 hc] at htakes
      cases htakes
  exact ⟨live', x', b, hx', hlive, hn⟩

end MoggersOs
