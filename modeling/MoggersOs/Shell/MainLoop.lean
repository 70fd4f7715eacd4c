import MoggersOs.Shell.Exec
import MoggersOs.Shell.Find
import MoggersOs.Shell.Parsing
/-
# The main loop of the shell (`user_mode/user-shell.c:238-313`)

From the keys to the disk: `get_command` makes a command and its arguments of the keys, the cascade picks a branch, and
the branch works on `current_dir`, the path and the volume. All branches together are a session as in `Session.lean`,
in which the words of the lines are the commands (`typed_session`): those that only look at the volume change
nothing that the others rely on.

| here | there |
| --- | --- |
| `Leftovers`     | memory that is not initialised, or that the source does not lay out |
| `Branch`        | the branches of `main` (`user-shell.c:261-307`), as far as they go to the volume |
| `Round`         | the body of the loop of `main` (`user-shell.c:251-308`) |
| `cat`           | `cat` up to its system call (`cat.c:4-26`) |
| `catRequest`    | `request` of `cat` (`cat.c:15-23`) |
| `appleRequest`  | `request` of `apple` (`apple.c:5-11`) |
| `lineBuiltIn`   | the branch for a line, by its first word |

System call 15 does not get to its `read` if there is no room for a process. What `kill` and `ps` do to the processes, and
what is on the screen, is not part of a round here.
-/

namespace MoggersOs

/-- `args_list[n]`: `len_ext` is one byte, at 16. -/
def ArgsList.arg (m : ArgsList) (n : ℕ) : Arg where
  info := fun i => m (20 * n + i)
  ext := fun i => m (20 * n + 8 + i)
  lenInfo := m.lenInfo n
  lenExt := (m (20 * n + 16)).toNat

def catRequest (buf : ℕ → UInt8) (sh : Shell) (argument : Arg) : Request where
  buf := buf
  name := argument.name
  ext := fun i => if i.val < argument.lenExt then argument.ext i else 0
  parentClusterNumber := getClusterNumber sh.dirTable
  bufferSize := 2048

/-- `cl` is an array of one cluster, and not set to 0 for a file of none. -/
def cat (fuel : ℕ) (garbage : ℕ → UInt8) (sh : Shell) (s : State) (argument : Arg) : Option (Reply × State) :=
  let needed := clusterNeeded sh.dirTable argument
  if 1 < needed then none
  else read fuel s (catRequest (if needed = 1 then fun _ => 0 else garbage) sh argument)

def appleRequest (buf : ℕ → UInt8) : Request where
  buf := buf
  name := fun i => ['o', 's', '-', 'd', 'e', 'v'].getD i (Char.ofNat 0) |>.toUInt8
  ext := fun _ => 0
  parentClusterNumber := 2
  bufferSize := 0x8A713

structure Leftovers where
  /-- `buf` of `get_command`. -/
  buf      : UInt8
  /-- Behind the names that `main` compares with. -/
  after    : BuiltIn → ℕ → UInt8
  /-- The buffers that files are read into. -/
  clusters : ℕ → UInt8
  /-- `buffer` of `find_recursive`. -/
  tables   : List Arg → Fin 64 → ℕ → UInt8

def Branch (l : Leftovers) (command : CommandStruct) (args : ArgsList) (x y : Shell × State) : Option BuiltIn → Prop
  | some .cat =>
    if 0 < command.argumentNeff then
      ∃ fuel out, cat fuel l.clusters x.1 x.2 (args.arg 0) = some out ∧ (x.1, out.2) = y
    else x = y
  | some .mkdir => mkdir x.1 x.2 (args.arg 0) = y
  | some .cd => cd x.1 x.2 (args.arg 0) = some y
  | some .rm => ∃ fuel, rm fuel x.1 x.2 (args.arg 0) = some y
  | some .mv => ∃ fuel codes s,
      mv fuel l.clusters x.1.dirTable x.2 (args.arg 0) (args.arg 1) = some (codes, s) ∧ cdRefresh x.1 s = y
  | some .cp => ∃ fuel codes s,
      cp fuel l.clusters x.1.dirTable x.2 (args.arg 0) (args.arg 1) = some (codes, s) ∧ (x.1, s) = y
  | some .find => ∃ fuel printed s, find l.tables fuel x.1 x.2 (args.arg 0) = some (printed, s) ∧ (x.1, s) = y
  | some .exec =>
    x = y ∨ ∃ fuel out, read fuel x.2 (execRequest l.clusters x.1 (args.arg 0)) = some out ∧ (x.1, out.2) = y
  | some .apple => ∃ fuel out, read fuel x.2 (appleRequest l.clusters) = some out ∧ (x.1, out.2) = y
  | some .ls | some .clear | some .ps | some .kill | none => x = y

/-- The keys are followed by a newline. -/
def Round (l : Leftovers) (keys : List UInt8) (x y : Shell × State) : Prop :=
  ∃ command args, getCommand l.buf (keys ++ [newline]) = some (command, args) ∧
    Branch l command args x y (dispatch l.after command)

/-! ## What a line says -/

def lineBuiltIn (line : List UInt8) : Option BuiltIn := BuiltIn.cascade.find? fun k => decide (firstWord line <+: k.name)

/-- The `n`-th argument, empty if there are not so many. -/
def lineWord (line : List UInt8) (n : ℕ) : List UInt8 := (argumentWords line).getD n []

/-- The line stays within the buffers all the time. -/
structure LineFits (l : Leftovers) (keys : List UInt8) : Prop where
  buf     : l.buf ≠ newline
  newline : newline ∉ keys
  room    : ∀ pre, pre <+: keys → (typedLine pre).length ≤ 2047
  words   : WordsFit (argumentWords (typedLine keys))

/-- The memory of `args_list` after the parsing. -/
theorem HoldsLine.argsList {c : CommandStruct} {line : List UInt8} (h : HoldsLine c line) (hz : 0 ∉ line)
    (hfit : WordsFit (argumentWords line)) {command : CommandStruct} {args : ArgsList}
    (hp : MoggersOs.parseCommand c = some (command, args)) : args = argsOf (argumentWords line) := by
  obtain ⟨u, l, rfl, hu, hl⟩ := Lib.exists_word space line
  obtain ⟨-, hwords⟩ := argumentWords_append hu hl
  rw [hwords] at hfit ⊢
  have hread : Reads c.info Parse.start.i (u ++ l) := reads_of_get fun j hj => by
    rw [show Parse.start.i + j = j from Nat.zero_add j]
    exact h.info j hj
  obtain ⟨b, hb⟩ := parseLine_words c.lenInfo [] (p := .start) hu hl (fun h0 => hz (List.mem_append_right _ h0))
    hread ((Nat.zero_add _).trans h.lenInfo.symm) (Nat.le_refl _) rfl argsOf_nil.symm hfit
  unfold MoggersOs.parseCommand at hp
  rw [hb, Option.map_some] at hp
  exact (Prod.mk.inj (Option.some.inj hp)).2.symm

/-- An argument is one of the words. -/
theorem argsOf_arg {ws : List (List UInt8)} {n : ℕ} {w : Word} (hw : w.bytes = ws.getD n []) : (argsOf ws).arg n = w.arg := by
  have hle := w.le
  have hext : ∀ j, 8 ≤ j → j < 12 ∨ 16 ≤ j ∧ j < 20 → argsOf ws (20 * n + j) = 0 := by
    intro j h8 hj
    unfold argsOf
    rw [show (20 * n + j) % 20 = j by omega, if_neg (by omega), if_neg (by omega)]
  unfold ArgsList.arg Word.arg
  rw [argsOf_lenInfo ws (by rw [← hw]; exact hle), hw, hext 16 (by omega) (by omega)]
  congr 1
  · funext i
    exact argsOf_byte ws n i.isLt
  · funext i
    rw [Nat.add_assoc]
    exact hext _ (by omega) (by omega)

/-- The words of a line that fits. -/
theorem exists_lineWord {line : List UInt8} (hz : 0 ∉ line) (hfit : WordsFit (argumentWords line)) (n : ℕ) :
    ∃ w : Word, w.bytes = lineWord line n := by
  unfold lineWord
  rw [List.getD_eq_getElem?_getD]
  cases hn : (argumentWords line)[n]? with
  | none => exact ⟨⟨[], Nat.zero_le 8, fun b hb => absurd hb List.not_mem_nil⟩, rfl⟩
  | some u =>
    have hu := List.mem_of_getElem? hn
    refine ⟨⟨u, hfit.length u hu, ?_⟩, rfl⟩
    rintro b hb rfl
    exact hz (List.drop_subset _ _ (Lib.mem_of_mem_words hu hb))

/-- What `get_command` makes of a line that fits. -/
theorem LineFits.parses {l : Leftovers} {keys : List UInt8} (h : LineFits l keys) :
    ∃ command, getCommand l.buf (keys ++ [MoggersOs.newline]) = some (command, argsOf (argumentWords (typedLine keys))) ∧
      command.argumentNeff = (argumentWords (typedLine keys)).length + trailing (typedLine keys) ∧
      dispatch l.after command = lineBuiltIn (typedLine keys) := by
  have hzero : HoldsLine .zero [] := ⟨rfl, fun j hj => absurd hj (Nat.not_lt_zero j), rfl⟩
  obtain ⟨c, hc, hline⟩ := hzero.readLine h.buf h.newline (roomFor_of_forall h.room)
  have hz := zero_notMem_typedLine keys
  obtain ⟨command, args, hparse, hparsed⟩ := hline.parseCommand hz h.words
  have hget : getCommand l.buf (keys ++ [MoggersOs.newline]) = some (command, args) := (getCommand_eq hc).trans hparse
  obtain ⟨hinfo, hle, hword⟩ := parseCommand_line hparse
  have htyped : c.Typed := readLine_typed (fun j hj => absurd hj (Nat.not_lt_zero j)) hc
  have hcommand : command.Typed := fun j hj => by
    rw [hinfo]
    exact htyped j (Nat.lt_of_lt_of_le hj hle)
  rw [hline.argsList hz h.words hparse] at hget
  refine ⟨command, hget, hparsed.argumentNeff, ?_⟩
  rw [dispatch_eq hcommand, hword, hline.line]
  rfl

/-- **A round does what its line says.** -/
theorem Round.branch {l : Leftovers} {keys : List UInt8} {x y : Shell × State} (h : Round l keys x y)
    (hfit : LineFits l keys) : ∃ command, command.argumentNeff =
        (argumentWords (typedLine keys)).length + trailing (typedLine keys) ∧
      Branch l command (argsOf (argumentWords (typedLine keys))) x y (lineBuiltIn (typedLine keys)) := by
  obtain ⟨command, args, hget, hbranch⟩ := h
  obtain ⟨command', hget', hneff, hdispatch⟩ := hfit.parses
  obtain ⟨rfl, rfl⟩ := Prod.mk.inj (Option.some.inj (hget.symm.trans hget'))
  exact ⟨command, hneff, hdispatch ▸ hbranch⟩

/-! ## Commands that look -/

/-- From `s` to `s'` the volume is only read. -/
def Looks (live : Finset Nat) (s s' : State) : Prop :=
  ∃ tr, Lib.Path (fun a e b => Step Ordinary a e b ∧ ∃ r, e.1 = .read r ∨ e.1 = .readDirectory r) (s, live) tr (s', live)

section looks
variable {live : Finset Nat} {s s' s'' : State} {d : ℕ} {x : Shell × State}

theorem Looks.refl : Looks live s s := ⟨[], .nil⟩

theorem Looks.trans (h : Looks live s s') (h' : Looks live s' s'') : Looks live s s'' := by
  obtain ⟨tr, hpath⟩ := h
  obtain ⟨tr', hpath'⟩ := h'
  exact ⟨tr ++ tr', hpath.append hpath'⟩

theorem Looks.read {r : Request} {fuel : ℕ} {out : Reply × State} (ho : Ordinary s.volume live (.read r))
    (hr : MoggersOs.read fuel s r = some out) : Looks live s out.2 := by
  have hstep : Step Ordinary (s, live) (.read r, out.1) (out.2, live) := by
    refine ⟨ho, ⟨fuel, hr⟩, ?_⟩
    rw [liveAfter_read]
  exact ⟨_, .cons ⟨hstep, r, .inl rfl⟩ .nil⟩

theorem Looks.readDirectory {r : Request} (ho : Ordinary s.volume live (.readDirectory r)) :
    Looks live s (MoggersOs.readDirectory s r).2 := ⟨_, .cons ⟨Step.readDirectory ho, r, .inr rfl⟩ .nil⟩

theorem takenAway_look {a : Op × Reply} (h : ∃ r, a.1 = .read r ∨ a.1 = .readDirectory r) : takenAway a = none := by
  obtain ⟨op, rep⟩ := a
  obtain ⟨r, rfl | rfl⟩ := h
  · rfl
  · rfl

/-- The shell does not notice. -/
theorem Sound.looks (h : Sound x live d) (hl : Looks live x.2 s') :
    ∃ tr, Calls none d (x.2, live) tr (s', live) ∧ Sound (x.1, s') live d ∧ s'.volume = x.2.volume := by
  obtain ⟨sh, s⟩ := x
  obtain ⟨tr, hpath⟩ := hl
  refine ⟨tr, ?_⟩
  dsimp only at hpath ⊢
  generalize hp : (s, live) = p at hpath
  generalize hq : (s', live) = q at hpath
  induction hpath generalizing s with
  | nil =>
    obtain rfl : s' = s := (Prod.mk.inj (hq.trans hp.symm)).1
    exact ⟨⟨.nil, fun a ha => absurd ha List.not_mem_nil⟩, h, rfl⟩
  | @cons p p₁ q e tr hs _ ih =>
    obtain ⟨s₁, live₁⟩ := p₁
    subst hp
    obtain ⟨hstep, hop⟩ := hs
    obtain ⟨hvol, rfl⟩ := hstep.lookup h.run.inv hop
    have hstands := h.toStands.step hstep fun r he => by
      obtain ⟨r', hr' | hr'⟩ := hop
      · exact absurd (hr'.symm.trans he) (by simp)
      · exact absurd (hr'.symm.trans he) (by simp)
    obtain ⟨hcalls, hsound, hvol'⟩ := ih s₁ ⟨hstands, hvol ▸ h.recent⟩ rfl hq
    refine ⟨⟨.cons hstep hcalls.path, fun a ha p hp => ?_⟩, hsound, hvol'.trans hvol⟩
    rcases List.mem_cons.1 ha with rfl | ha
    · rw [takenAway_look hop] at hp
      cases hp
    · exact hcalls.taken a ha p hp

/-! ### `find` -/

section find
variable {garbage : List Arg → Fin 64 → ℕ → UInt8} {target : Arg} {v : Volume}

/-- The request for the table of a folder is an ordinary one. -/
theorem folderTableRequest_ordinary (h : Inv v live) (hn : RowsNamed v live) {i : Fin 64} (hr : v.LiveRow live d i)
    (hf : (v.table d i).Folder) (buffer : ℕ → UInt8) :
    Ordinary v live (.readDirectory (folderTableRequest buffer (v.table d i))) := by
  obtain ⟨hc, -, -, hext⟩ := h.folder d i hr hf
  have hparent : (folderTableRequest buffer (v.table d i)).parent = (v.table d i).cluster := by
    have h512 := (h.folder_chain hr hf).2.2
    exact UInt32.toNat_ofNat_of_lt' (by simp [UInt32.size]; omega)
  exact ⟨hparent ▸ hc, fun hzero => hn d i hr ⟨hzero.1, hext⟩⟩

/-- The table shows no row in use that is not on the volume. -/
theorem findRows_looks (h : Inv v live) (hn : RowsNamed v live)
    {search : List Arg → Table → State → List Arg → Option Found} (hd : d ∈ live)
    (hcall : ∀ c ∈ live, ∀ path s ansPath f, s.volume = v → search path (v.table c) s ansPath = some f →
      Looks live s f.state ∧ f.state.volume = v) {path : List Arg} {t : Table}
    (ht : ∀ i : Fin 64, 2 ≤ i.val → (t i).Used → t i = v.table d i) :
    ∀ (is : List (Fin 64)), (∀ i ∈ is, 2 ≤ i.val) → ∀ {s : State} {ansPath : List Arg} {f : Found}, s.volume = v →
      findRows garbage target search path t is s ansPath = some f → Looks live s f.state ∧ f.state.volume = v := by
  intro is
  induction is with
  | nil =>
    intro _ s ansPath f hs hf
    obtain rfl := Option.some.inj hf
    exact ⟨.refl, hs⟩
  | cons i is ih =>
    intro his s ansPath f hs hf
    obtain ⟨hi, his⟩ := List.forall_mem_cons.1 his
    unfold findRows at hf
    split at hf
    · next hu =>
      have hrow := ht i hi hu
      rw [hrow] at hu hf
      split at hf
      · obtain rfl := Option.some.inj hf
        exact ⟨.refl, hs⟩
      · split at hf
        · next hfo =>
          have hr : v.LiveRow live d i := ⟨hd, hi, hu⟩
          subst hs
          have hlook := Looks.readDirectory (folderTableRequest_ordinary h hn hr hfo (garbage path i))
          have hvol : (readDirectory s (folderTableRequest (garbage path i) (s.volume.table d i))).2.volume = s.volume :=
            readDirectory_volume (s := s) _
          dsimp only at hf
          rw [loadTable_folder h hr hfo] at hf
          generalize (readDirectory s (folderTableRequest (garbage path i) (s.volume.table d i))).2 = s₁ at hf hlook hvol
          split at hf
          · obtain ⟨g, hg, hf⟩ := Option.bind_eq_some_iff.1 hf
            obtain ⟨hlook', hvol'⟩ := hcall _ (h.folder d i hr hfo).1 _ _ _ _ hvol hg
            split at hf
            · obtain rfl := Option.some.inj hf
              exact ⟨hlook.trans hlook', hvol'⟩
            · obtain ⟨hlook'', hvol''⟩ := ih his hvol' hf
              exact ⟨(hlook.trans hlook').trans hlook'', hvol''⟩
          · cases hf
        · exact ih his hs hf
    · exact ih his hs hf

/-- Below a directory of the volume `find_recursive` only reads directories. -/
theorem findRecursive_looks (h : Inv v live) (hn : RowsNamed v live) : ∀ (fuel : ℕ) {d : ℕ}, d ∈ live →
    ∀ {t : Table}, (∀ i : Fin 64, 2 ≤ i.val → (t i).Used → t i = v.table d i) →
    ∀ (path : List Arg) (s : State) (ansPath : List Arg) (f : Found), s.volume = v →
      findRecursive garbage target fuel path t s ansPath = some f → Looks live s f.state ∧ f.state.volume = v := by
  intro fuel
  induction fuel with
  | zero =>
    intro d _ t _ path s ansPath f _ hf
    cases hf
  | succ fuel ih =>
    intro d hd t ht path s ansPath f hs hf
    refine findRows_looks h hn hd (fun c hc => ?_) ht entryRows (fun i hi => mem_entryRows.1 hi) hs hf
    exact ih hc fun i _ _ => rfl

end find

end looks

/-! ## Sessions of typed lines -/

/-- The name that a branch takes away, if it is called with `name`. -/
def builtInTakes : Option BuiltIn → (Fin 8 → UInt8) → Option (Fin 8 → UInt8)
  | some .rm, name | some .mv, name => some name
  | _, _ => none

/-- The table is the directory's after a branch, if it was before (`true`). -/
def builtInLeaves : Option BuiltIn → Bool → Bool
  | some .mkdir, _ | some .rm, _ | some .mv, _ => true
  | some .cp, _ => false
  | _, exact => exact

/-- A line, what is in memory when it is typed, and the directory in which it is. -/
structure TypedLine where
  left : Leftovers
  keys : List UInt8
  here : ℕ

namespace TypedLine

def line (t : TypedLine) : List UInt8 := typedLine t.keys

def builtIn (t : TypedLine) : Option BuiltIn := lineBuiltIn t.line

/-- The name that the line takes away in the directory of the shell. -/
def takes (t : TypedLine) : Option (Fin 8 → UInt8) := builtInTakes t.builtIn fun i => (lineWord t.line 0).getD i 0

/-- The table is the directory's after the line, if it was before (`true`). -/
def leaves (t : TypedLine) : Bool → Bool := builtInLeaves t.builtIn

/-- `FileCommand.Keeps` for the words of the line; `cat` and `exec` are to have a name. -/
def Keeps (t : TypedLine) (x : Shell × State) (w w₂ : Word) : Prop :=
  match t.builtIn with
  | some .cd => (FileCommand.cd w).Keeps x
  | some .mkdir => (FileCommand.mkdir w).Keeps x
  | some .rm => (FileCommand.rm w).Keeps x
  | some .mv => (FileCommand.mv t.left.clusters w w₂).Keeps x
  | some .cp => (FileCommand.cp t.left.clusters w w₂).Keeps x
  | some .cat => (argumentWords t.line).length + trailing t.line = 0 ∨ w.bytes ≠ []
  | some .exec => w.bytes ≠ []
  | _ => True

structure Given (x : Shell × State) (t : TypedLine) (y : Shell × State) : Prop where
  here  : t.here = x.1.here
  fits  : LineFits t.left t.keys
  keeps : ∀ w w₂ : Word, w.bytes = lineWord t.line 0 → w₂.bytes = lineWord t.line 1 → t.Keeps x w w₂
  round : Round t.left t.keys x y

section advances
variable {x y : Shell × State} {live : Finset Nat} {d : ℕ} {t : TypedLine}

/-- What a line is to do. -/
def Advanced (x : Shell × State) (t : TypedLine) (y : Shell × State) (live : Finset Nat) (d : ℕ) : Prop :=
  ∃ tr live' d', Calls t.takes t.here (x.2, live) tr (y.2, live') ∧ Sound y live' d' ∧
    ∀ exact : Bool, (exact = true → x.1.dirTable = x.2.volume.table d) → t.leaves exact = true →
      y.1.dirTable = y.2.volume.table d'

theorem Advanced.of_command {c : FileCommand} (h : Sound x live d) (hg : FileCommand.Given x (c, t.here) y)
    (htakes : t.takes = c.takes) (hleaves : ∀ exact, t.leaves exact = c.leaves exact) : Advanced x t y live d := by
  obtain ⟨tr, live', d', hcalls, hy, hexact⟩ := h.step hg
  refine ⟨tr, live', d', htakes ▸ hcalls, hy, fun exact hx hl => hexact exact hx ?_⟩
  rw [← hleaves]
  exact hl

theorem Advanced.of_look {s : State} (h : Sound x live d) (hl : Looks live x.2 s) (hy : (x.1, s) = y)
    (hleaves : ∀ exact, t.leaves exact = exact) : Advanced x t y live d := by
  obtain ⟨tr, hcalls, hsound, hvol⟩ := h.looks hl
  subst hy
  refine ⟨tr, live, d, ⟨hcalls.path, fun a ha p hp => ?_⟩, hsound, fun exact hx hexact => ?_⟩
  · obtain ⟨n, hn, -⟩ := hcalls.taken a ha p hp
    cases hn
  · rw [hleaves] at hexact
    rw [hvol]
    exact hx hexact

theorem read_ordinary {q : Request} (h : Sound x live d) (hp : q.parent = x.1.here) {w : Word} (hw : w.bytes ≠ [])
    (hname : q.name = w.arg.info) : Ordinary x.2.volume live (.read q) := by
  refine ⟨?_, fun hzero => Word.info_ne hw (hname.symm.trans hzero.1)⟩
  rw [hp, h.here]
  exact h.alive

theorem appleRequest_ordinary {v : Volume} {live : Finset Nat} (h : Inv v live) (buf : ℕ → UInt8) :
    Ordinary v live (.read (appleRequest buf)) := by
  have hparent : (appleRequest buf).parent = rootClusterNumber := rfl
  have hname : (appleRequest buf).name 0 = 111 := rfl
  refine ⟨hparent ▸ h.root, fun hzero => ?_⟩
  have h0 := congrFun hzero.1 0
  rw [hname] at h0
  exact absurd h0 (by decide)

/-- `cat` reads, and does nothing else to the volume. -/
theorem cat_eq_some {fuel : ℕ} {garbage : ℕ → UInt8} {sh : Shell} {s : State} {argument : Arg} {out : Reply × State}
    (h : cat fuel garbage sh s argument = some out) : ∃ cl, read fuel s (catRequest cl sh argument) = some out := by
  unfold cat at h
  dsimp only at h
  split at h
  · cases h
  · exact ⟨_, h⟩

/-- **A typed line is a command of a session.** -/
theorem Given.advanced (hg : t.Given x y) (h : Sound x live d) : Advanced x t y live d := by
  obtain ⟨hhere, hfits, hkeeps, hround⟩ := hg
  have hz := zero_notMem_typedLine t.keys
  obtain ⟨w, hw⟩ := exists_lineWord hz hfits.words 0
  obtain ⟨w₂, hw₂⟩ := exists_lineWord hz hfits.words 1
  have hk := hkeeps w w₂ hw hw₂
  obtain ⟨command, hneff, hbranch⟩ := hround.branch hfits
  have harg : (argsOf (argumentWords (typedLine t.keys))).arg 0 = w.arg := argsOf_arg hw
  have harg₂ : (argsOf (argumentWords (typedLine t.keys))).arg 1 = w₂.arg := argsOf_arg hw₂
  have htakes : t.takes = builtInTakes t.builtIn w.arg.info := by
    unfold takes line
    rw [← hw]
    rfl
  have hleaves : ∀ exact, t.leaves exact = builtInLeaves t.builtIn exact := fun _ => rfl
  have hsame : (∀ exact, t.leaves exact = exact) → x = y → Advanced x t y live d := fun hl hxy =>
    .of_look h .refl hxy hl
  unfold Branch at hbranch
  rw [harg, harg₂, show lineBuiltIn (typedLine t.keys) = t.builtIn from rfl] at hbranch
  unfold Keeps at hk
  rcases hb : t.builtIn with _ | k
  · rw [hb] at hbranch hleaves
    exact hsame hleaves hbranch
  rw [hb] at hbranch hk hleaves htakes
  cases k with
  | cat =>
    dsimp only at hbranch hk
    split at hbranch
    next hpos =>
      obtain ⟨fuel, out, hcat, hy⟩ := hbranch
      obtain ⟨cl, hread⟩ := cat_eq_some hcat
      have hne := hk.resolve_left fun h0 => Nat.ne_of_gt hpos (hneff.trans h0)
      exact .of_look h (.read (read_ordinary h rfl hne w.arg_name) hread) hy hleaves
    next => exact hsame hleaves hbranch
  | ls => exact hsame hleaves hbranch
  | mkdir => exact .of_command (c := .mkdir w) h ⟨hhere, hk, hbranch⟩ htakes hleaves
  | cd => exact .of_command (c := .cd w) h ⟨hhere, hk, hbranch⟩ htakes hleaves
  | rm => exact .of_command (c := .rm w) h ⟨hhere, hk, hbranch⟩ htakes hleaves
  | mv => exact .of_command (c := .mv t.left.clusters w w₂) h ⟨hhere, hk, hbranch⟩ htakes hleaves
  | find =>
    obtain ⟨fuel, printed, s, hfind, hy⟩ := hbranch
    obtain ⟨f, hf, hrest⟩ := Option.bind_eq_some_iff.1 hfind
    obtain ⟨path, -, hrest⟩ := Option.bind_eq_some_iff.1 hrest
    obtain ⟨text, -, he⟩ := Option.map_eq_some_iff.1 hrest
    have hlook := findRecursive_looks h.run.inv h.run.rowsNamed fuel h.alive h.recent.rows _ _ _ _ rfl hf
    rw [(Prod.mk.inj he).2] at hlook
    exact .of_look h hlook.1 hy hleaves
  | clear => exact hsame hleaves hbranch
  | exec =>
    rcases hbranch with hxy | ⟨fuel, out, hread, hy⟩
    · exact hsame hleaves hxy
    · exact .of_look h (.read (read_ordinary h rfl hk rfl) hread) hy hleaves
  | ps => exact hsame hleaves hbranch
  | kill => exact hsame hleaves hbranch
  | apple =>
    obtain ⟨fuel, out, hread, hy⟩ := hbranch
    exact .of_look h (.read (appleRequest_ordinary h.run.inv _) hread) hy hleaves
  | cp => exact .of_command (c := .cp t.left.clusters w w₂) h ⟨hhere, hk, hbranch⟩ htakes hleaves

end advances

theorem advances : Advances (fun x t y => Given x t y) takes here leaves := fun _ _ _ _ _ h hg => hg.advanced h

end TypedLine

/-- `mkdir g` -/
def mkdirLine : TypedLine where
  left := ⟨0, fun _ _ => 0, fun _ => 0, fun _ _ _ => 0⟩
  keys := [109, 107, 100, 105, 114, 32, 103]
  here := besideFile.1.here

/-- The same line in another directory. -/
def TypedLine.typedIn (t : TypedLine) (here : ℕ) : TypedLine := ⟨t.left, t.keys, here⟩

theorem TypedLine.typedIn_builtIn (t : TypedLine) (here : ℕ) : (t.typedIn here).builtIn = t.builtIn := rfl

theorem TypedLine.typedIn_line (t : TypedLine) (here : ℕ) : (t.typedIn here).line = t.line := rfl

theorem mkdirLine_builtIn : mkdirLine.builtIn = some .mkdir := by decide +kernel

/-- The line, wherever it is typed. -/
theorem mkdirLine_typed {x : Shell × State} (hfree : x.2.fatTable.freeClusters ≠ []) :
    (mkdirLine.typedIn x.1.here).Given x (mkdir x.1 x.2 gWord.arg) := by
  have hwords : argumentWords mkdirLine.line = [[103]] := by decide +kernel
  have hfits : LineFits mkdirLine.left mkdirLine.keys := by
    refine ⟨by decide, by decide, fun pre hpre => (typedLine_length_le hpre).trans (by decide), ?_⟩
    rw [show argumentWords (typedLine mkdirLine.keys) = [[103]] from hwords]
    exact ⟨by decide, by decide⟩
  have harg : (argsOf (argumentWords (typedLine mkdirLine.keys))).arg 0 = gWord.arg := argsOf_arg (by
    rw [show argumentWords (typedLine mkdirLine.keys) = [[103]] from hwords]
    rfl)
  refine ⟨rfl, hfits, fun w w₂ hw _ => ?_, ?_⟩
  · have hne : w.bytes ≠ [] := by
      rw [hw, TypedLine.typedIn_line, lineWord, hwords]
      decide
    rw [TypedLine.Keeps, TypedLine.typedIn_builtIn, mkdirLine_builtIn]
    exact ⟨hne, hfree⟩
  · obtain ⟨command, hget, -, hdispatch⟩ := hfits.parses
    rw [show lineBuiltIn (typedLine mkdirLine.keys) = some .mkdir from mkdirLine_builtIn] at hdispatch
    have hbranch : Branch mkdirLine.left command (argsOf (argumentWords (typedLine mkdirLine.keys))) x
        (mkdir x.1 x.2 gWord.arg) (dispatch mkdirLine.left.after command) := by
      rw [hdispatch]
      exact congrArg (mkdir x.1 x.2) harg
    exact ⟨command, _, hget, hbranch⟩

theorem mkdirLine_given : mkdirLine.Given besideFile (mkdir besideFile.1 besideFile.2 gWord.arg) :=
  mkdirLine_typed besideFile_free

theorem mkdirLine_takes (here : ℕ) : (mkdirLine.typedIn here).takes = none := by
  rw [TypedLine.takes, TypedLine.typedIn_builtIn, mkdirLine_builtIn]
  rfl

theorem mkdirLine_leaves (here : ℕ) (exact : Bool) : (mkdirLine.typedIn here).leaves exact = true := by
  rw [TypedLine.leaves, TypedLine.typedIn_builtIn, mkdirLine_builtIn]
  rfl

end MoggersOs
