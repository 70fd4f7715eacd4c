import MoggersOs.Lib.Traced
import MoggersOs.Shell.Parsing
/-
# The stores of `get_command` (`user_mode/user-shell.c:88-161`)

`get_command` once more, with the list of the places it stores a typed byte to. Forgetting the list gives back the
function of `Input.lean` (`getCommand_out`). Neither the length of the line nor the number of the arguments nor their
length is compared with the size of what they go into; `stores_inRange_iff` says which lines stay inside.

A store past `info` of an argument but inside `args_list` lands on the argument's `ext` or on its `len_info`, and goes
on from there as the memory says; one past the arrays is the last event.

| here | there |
| --- | --- |
| `Store`   | `command->info[i] = ...` (`user-shell.c:99-108`) and `args_list[n].info[i] = ...` (`user-shell.c:152`) |
| `InRange` | `char info[2048]`, `char info[8]` and `DEFAULT_ARGS_COUNT` (`user-shell.h:7-37`) |
-/

namespace MoggersOs

namespace Overrun

open Lib (Traced)

inductive Store where
  | info (i : Nat)
  | arg (n i : Nat)

def Store.InRange : Store → Prop
  | .info i => i < 2048
  | .arg n i => n < 10 ∧ i < 8

def setInfo (c : CommandStruct) (i : Nat) (b : UInt8) : Traced Store (Option CommandStruct) := .note (.info i) (c.setInfo i b)

def push (m : ArgsList) (n : Nat) (b : UInt8) : Traced Store (Option ArgsList) := .note (.arg n (m.lenInfo n)) (m.push n b)

def typeKey (c : CommandStruct) (key : UInt8) : Traced Store (Option CommandStruct) :=
  if key = backspace then
    if 0 < c.lenInfo then do
      let c ← setInfo c c.lenInfo 0
      pure (c.map fun c => { c with lenInfo := c.lenInfo - 1 })
    else pure (some c)
  else do
    let c ← setInfo c c.lenInfo key
    pure (c.map fun c => { c with lenInfo := c.lenInfo + 1 })

def readLine (buf : UInt8) : List UInt8 → CommandStruct → Traced Store (Option CommandStruct)
  | [], c => pure (if buf = newline then some c else none)
  | key :: keys, c =>
    if buf = newline then pure (some c)
    else if key ≠ 0 ∧ key ≠ newline then do
      let typed ← typeKey c key
      match typed with
      | none => pure none
      | some c => readLine key keys c
    else readLine key keys c

section
variable (info : Nat → UInt8)

def parseArg : Nat → Parse → Traced Store (Option Parse)
  | 0, p => pure (some p)
  | n + 1, p =>
    if p.buf ≠ space ∧ p.buf ≠ 0 then do
      let stored ← push p.args p.neff p.buf
      match stored with
      | none => pure none
      | some args => parseArg n { p with args := args, i := p.i + 1, buf := info (p.i + 1) }
    else pure (some p)

def parseLine (len : Nat) : Nat → Parse → Traced Store (Option Parse)
  | 0, p => pure (some p)
  | n + 1, p =>
    if p.i < len then do
      let p := findSpace info (len - p.i) p
      let q := findLetter info (len - p.i) p false
      let parsed ← parseArg info (len - q.1.i) q.1
      match parsed with
      | none => pure none
      | some p => parseLine len n (if q.2 then { p with neff := p.neff + 1 } else p)
    else pure (some p)

end

def parseCommand (c : CommandStruct) : Traced Store (Option (CommandStruct × ArgsList)) := do
  let parsed ← parseLine c.info c.lenInfo c.lenInfo .start
  pure (parsed.map fun p => ({ c with lenInfo := p.firstSpace.getD p.i, argumentNeff := p.neff }, p.args))

def getCommand (garbage : UInt8) (keys : List UInt8) : Traced Store (Option (CommandStruct × ArgsList)) := do
  let typed ← readLine garbage keys .zero
  match typed with
  | none => pure none
  | some c => parseCommand c

/-! ## The list does not change the function -/

@[simp] theorem setInfo_out (c : CommandStruct) (i : Nat) (b : UInt8) : (setInfo c i b).out = c.setInfo i b := rfl
@[simp] theorem push_out (m : ArgsList) (n : Nat) (b : UInt8) : (push m n b).out = m.push n b := rfl

@[simp] theorem typeKey_out (c : CommandStruct) (key : UInt8) : (typeKey c key).out = MoggersOs.typeKey c key := by
  simp only [typeKey, MoggersOs.typeKey, Traced.out_ite, Traced.out_bind, Traced.out_pure, setInfo_out]

@[simp] theorem readLine_out : ∀ (keys : List UInt8) (buf : UInt8) (c : CommandStruct),
    (readLine buf keys c).out = MoggersOs.readLine buf keys c
  | [], _, _ => rfl
  | key :: keys, buf, c => by
    rw [readLine, MoggersOs.readLine, Traced.out_ite, Traced.out_ite, Traced.out_bind, typeKey_out, readLine_out keys]
    cases MoggersOs.typeKey c key with
    | none => rfl
    | some c' => simp only [Option.bind_some, readLine_out keys, Traced.out_pure]

@[simp] theorem parseArg_out (info : Nat → UInt8) : ∀ (n : Nat) (p : Parse),
    (parseArg info n p).out = MoggersOs.parseArg info n p
  | 0, _ => rfl
  | n + 1, p => by
    rw [parseArg, MoggersOs.parseArg, Traced.out_ite, Traced.out_bind, push_out]
    cases p.args.push p.neff p.buf with
    | none => rfl
    | some args => simp only [Option.bind_some, parseArg_out info n, Traced.out_pure]

@[simp] theorem parseLine_out (info : Nat → UInt8) (len : Nat) : ∀ (n : Nat) (p : Parse),
    (parseLine info len n p).out = MoggersOs.parseLine info len n p
  | 0, _ => rfl
  | n + 1, p => by
    rw [parseLine, MoggersOs.parseLine, Traced.out_ite]
    dsimp only
    rw [Traced.out_bind, parseArg_out]
    cases MoggersOs.parseArg info (len - (findLetter info (len - (findSpace info (len - p.i) p).i)
      (findSpace info (len - p.i) p) false).1.i) (findLetter info (len - (findSpace info (len - p.i) p).i)
      (findSpace info (len - p.i) p) false).1 with
    | none => rfl
    | some q => simp only [Option.bind_some, parseLine_out info len n, Traced.out_pure]

@[simp] theorem parseCommand_out (c : CommandStruct) : (parseCommand c).out = MoggersOs.parseCommand c := by
  simp only [parseCommand, MoggersOs.parseCommand, Traced.out_bind, Traced.out_pure, parseLine_out]

/-- **The traced function is the function.** -/
theorem getCommand_out (garbage : UInt8) (keys : List UInt8) :
    (getCommand garbage keys).out = MoggersOs.getCommand garbage keys := by
  rw [getCommand, MoggersOs.getCommand, Traced.out_bind, readLine_out]
  cases MoggersOs.readLine garbage keys .zero with
  | none => rfl
  | some c => exact parseCommand_out c

/-! ## The line -/

section Line
variable {c : CommandStruct} {line : List UInt8} {key : UInt8}

/-- A `backspace` on an empty line stores nothing. -/
theorem typeKey_all (h : HoldsLine c line) : (typeKey c key).All Store.InRange ↔ line.length ≤ 2047 := by
  have hlen := h.lenInfo
  have hstore : Store.InRange (.info c.lenInfo) ↔ line.length ≤ 2047 := by
    rw [hlen]
    exact Nat.lt_succ_iff
  unfold typeKey
  by_cases hb : key = backspace
  · rw [if_pos hb]
    by_cases hpos : 0 < c.lenInfo
    · rw [if_pos hpos]
      simpa [setInfo] using hstore
    · rw [if_neg hpos]
      exact iff_of_true (Traced.all_pure _) (by omega)
  · rw [if_neg hb]
    simpa [setInfo] using hstore

theorem readLine_all {keys : List UInt8} : ∀ {buf : UInt8} {c : CommandStruct} {line : List UInt8}, HoldsLine c line →
    buf ≠ newline → newline ∉ keys → ((readLine buf (keys ++ [newline]) c).All Store.InRange ↔ RoomFor line keys) := by
  induction keys with
  | nil =>
    intro buf c line _ hbuf _
    refine iff_of_true ?_ trivial
    simp [readLine, hbuf]
  | cons key keys ih =>
    intro buf c line h hbuf hkeys
    obtain ⟨hkey, hkeys⟩ := not_or.mp (List.mem_cons.not.mp hkeys)
    rw [List.cons_append, RoomFor]
    unfold readLine
    rw [if_neg hbuf]
    by_cases hzero : key = 0
    · have hsame : editLine line key = line := if_pos hzero
      rw [if_neg (fun hk => hk.1 hzero), hsame, ih h (Ne.symm hkey) hkeys]
      simp [hzero]
    · rw [if_pos ⟨hzero, Ne.symm hkey⟩, Traced.all_bind, typeKey_all h, typeKey_out]
      refine Iff.trans (and_congr_right fun hle => ?_) (and_congr_left' (by simp [hzero]))
      obtain ⟨c', hc', h'⟩ := h.typeKey hzero hle
      rw [hc']
      exact ih h' (Ne.symm hkey) hkeys

end Line

/-! ## The arguments -/

section
variable {info : Nat → UInt8} {len : Nat} {ws : List (List UInt8)}

/-- `x` are the bytes of the word that are taken already. -/
theorem parseArg_all {w v : List UInt8} (hv : v = [] ∨ ∃ v', v = space :: v') : ∀ {p : Parse} {x : List UInt8},
    space ∉ w → 0 ∉ w → Reads info p.i (w ++ v) → p.buf = info p.i → p.neff = ws.length → p.args = argsOf (ws ++ [x]) →
    x.length ≤ 8 → ((parseArg info (w ++ v).length p).All Store.InRange ↔
      (w ≠ [] → ws.length < 10) ∧ x.length + w.length ≤ 8) := by
  induction w with
  | nil =>
    intro p x _ _ h hbuf _ _ hx
    refine iff_of_true ?_ ⟨fun hne => absurd rfl hne, hx⟩
    obtain rfl | ⟨v', rfl⟩ := hv
    · exact Traced.all_pure _
    · rw [List.nil_append, List.length_cons]
      unfold parseArg
      rw [if_neg (fun hb => hb.1 (hbuf.trans h.1))]
      exact Traced.all_pure _
  | cons b w ih =>
    intro p x hsp hz h hbuf hneff hargs hx
    obtain ⟨hb, hsp⟩ := not_or.mp (List.mem_cons.not.mp hsp)
    obtain ⟨hb0, hz⟩ := not_or.mp (List.mem_cons.not.mp hz)
    have hbyte : p.buf = b := hbuf.trans h.1
    have hidx : p.args.lenInfo p.neff = x.length := by
      rw [hargs, hneff, argsOf_lenInfo _ (by rw [getD_snoc, if_pos rfl]; exact hx), getD_snoc, if_pos rfl]
    have hstore : Store.InRange (.arg p.neff (p.args.lenInfo p.neff)) ↔ ws.length < 10 ∧ x.length < 8 := by
      rw [hidx, hneff]
      exact Iff.rfl
    rw [List.cons_append, List.length_cons]
    unfold parseArg
    rw [if_pos (by rw [hbyte]; exact ⟨Ne.symm hb, Ne.symm hb0⟩), Traced.all_bind, push_out, push, Traced.all_note, hstore]
    refine Iff.trans (and_congr_right (b := _) (c := x.length + 1 + w.length ≤ 8) fun ⟨hws, hx'⟩ => ?_) ?_
    · have hpush : p.args.push p.neff p.buf = some (argsOf (ws ++ [x ++ [b]])) := by
        rw [hneff, hargs, hbyte]
        exact argsOf_push b hws hx'
      have hlen : (x ++ [b]).length = x.length + 1 := by rw [List.length_append, List.length_singleton]
      rw [hpush]
      refine (ih (p := { p with args := argsOf (ws ++ [x ++ [b]]), i := p.i + 1, buf := info (p.i + 1) })
        hsp hz h.2 rfl hneff rfl (by omega)).trans ?_
      rw [hlen]
      exact and_iff_right fun _ => hws
    · rw [List.length_cons]
      have hne : b :: w ≠ [] := List.cons_ne_nil b w
      constructor
      · rintro ⟨⟨hws, -⟩, hle⟩
        exact ⟨fun _ => hws, by omega⟩
      · rintro ⟨hws, hle⟩
        exact ⟨⟨hws hne, by omega⟩, by omega⟩

theorem parseLine_round {n : Nat} {p : Parse} (h : p.i < len) :
    (parseLine info len (n + 1) p).All Store.InRange ↔
      (parseArg info (len - (roundStart info len p).1.i) (roundStart info len p).1).All Store.InRange ∧
      ∀ q, MoggersOs.parseArg info (len - (roundStart info len p).1.i) (roundStart info len p).1 = some q →
        (parseLine info len n (if (roundStart info len p).2 then { q with neff := q.neff + 1 } else q)).All Store.InRange := by
  rw [parseLine, if_pos h]
  dsimp only
  rw [Traced.all_bind, parseArg_out]
  refine and_congr_right fun _ => ?_
  rw [← roundStart]
  cases MoggersOs.parseArg info (len - (roundStart info len p).1.i) (roundStart info len p).1 with
  | none => simp
  | some q => simp

theorem parseLine_stop (n : Nat) {p : Parse} (h : len ≤ p.i) : (parseLine info len n p).All Store.InRange := by
  cases n with
  | zero => exact Traced.all_pure _
  | succ n =>
    rw [parseLine, if_neg (Nat.not_lt.mpr h)]
    exact Traced.all_pure _

/-- With nothing left to read a round stores nothing. -/
theorem parseLine_last {n : Nat} {p q : Parse} {isArgs : Bool} (hin : p.i < len) (h : roundStart info len p = (q, isArgs))
    (hend : q.i = len) : (parseLine info len (n + 1) p).All Store.InRange := by
  rw [parseLine_round hin, h]
  dsimp only
  rw [hend, Nat.sub_self]
  refine ⟨Traced.all_pure _, fun q' hq' => parseLine_stop n ?_⟩
  obtain rfl : q = q' := Option.some.inj hq'
  split
  · exact hend.ge
  · exact hend.ge

/-- From a place in the first word, or from a space after it: `ws` are the arguments before it. -/
theorem parseLine_all : ∀ (n : Nat) (ws : List (List UInt8)) {p : Parse} {u l : List UInt8}, space ∉ u →
    (l = [] ∨ ∃ v, l = space :: v) → 0 ∉ l → Reads info p.i (u ++ l) → p.i + (u ++ l).length = len → len ≤ n + p.i →
    p.neff = ws.length → p.args = argsOf ws → WordsFit ws →
    ((parseLine info len n p).All Store.InRange ↔ WordsFit (ws ++ Lib.words space l)) := by
  intro n
  induction n with
  | zero =>
    intro ws p u l _ _ _ _ hlen hn _ _ hws
    rw [List.length_append] at hlen
    have hl : l = [] := List.eq_nil_of_length_eq_zero (by omega)
    subst hl
    rw [Lib.words_nil, List.append_nil]
    exact iff_of_true (Traced.all_pure _) hws
  | succ n ih =>
    intro ws p u l hu hl hz h hlen hn hneff hargs hws
    by_cases hin : p.i < len
    · obtain rfl | ⟨v, rfl⟩ := hl
      · rw [List.append_nil] at h hlen
        obtain ⟨b, hb⟩ := roundStart_end hu h hlen
        rw [Lib.words_nil, List.append_nil]
        exact iff_of_true (parseLine_last hin hb rfl) hws
      · obtain ⟨i, b, hb, hi, ⟨hend, hwords, -⟩ | ⟨w, r, hne, hsp, hr, hsub, hwords, -, rfl, hread, hend⟩⟩ :=
          roundStart_space hu h hlen
        · rw [hwords, List.append_nil]
          exact iff_of_true (parseLine_last hin hb hend) hws
        · -- a word and the rest of the line
          have hz' : 0 ∉ w ++ r := fun h0 => hz (hsub h0)
          obtain ⟨hzw, hzr⟩ := not_or.mp (List.mem_append.not.mp hz')
          rw [hwords, parseLine_round hin, hb]
          dsimp only
          rw [show len - i = (w ++ r).length by omega]
          have harg := parseArg_all hr (x := [])
            (p := { p with i := i, buf := info i, firstSpace := some (p.firstSpace.getD (p.i + u.length)) }) hsp hzw hread rfl
            hneff (hargs.trans (argsOf_snoc_nil ws).symm) (Nat.zero_le 8)
          rw [harg, List.length_nil, Nat.zero_add]
          refine Iff.trans (and_congr_right (c := WordsFit (ws ++ w :: Lib.words space r)) fun ⟨hcount, hlast⟩ => ?_) ?_
          · -- the argument fits, and the line goes on behind it
            have hword := parseArg_next hr
              (p := { p with i := i, buf := info i, firstSpace := some (p.firstSpace.getD (p.i + u.length)) }) hsp hzw hread
              rfl hneff hargs (hcount hne) hlast
            rw [hword]
            simp only [Option.some.injEq, forall_eq', if_true]
            rw [List.length_append] at hend
            have hall := ih (ws ++ [w]) (u := []) (l := r)
              (p := { p with
                i := i + w.length, buf := info (i + w.length), neff := p.neff + 1, args := argsOf (ws ++ [w])
                firstSpace := some (p.firstSpace.getD (p.i + u.length)) })
              List.not_mem_nil hr hzr hread.right (by dsimp only [List.nil_append]; omega) (by dsimp only; omega)
              (by simp [hneff]) rfl ((wordsFit_snoc hws).2 ⟨hcount hne, hlast⟩)
            rwa [← List.append_cons] at hall
          · refine and_iff_right_of_imp fun hfit => ?_
            have hfit' : WordsFit (ws ++ [w]) := by
              rw [List.append_cons] at hfit
              exact hfit.left
            obtain ⟨hcount, hlast⟩ := (wordsFit_snoc hws).1 hfit'
            exact ⟨fun _ => hcount, hlast⟩
    · rw [List.length_append] at hlen
      have hl : l = [] := List.eq_nil_of_length_eq_zero (by omega)
      subst hl
      rw [Lib.words_nil, List.append_nil]
      exact iff_of_true (parseLine_stop _ (Nat.le_of_not_lt hin)) hws

end

/-! ## The whole of `get_command` -/

theorem parseCommand_all {c : CommandStruct} {line : List UInt8} (h : HoldsLine c line) (hz : 0 ∉ line) :
    (parseCommand c).All Store.InRange ↔ WordsFit (argumentWords line) := by
  obtain ⟨u, l, rfl, hu, hl⟩ := Lib.exists_word space line
  have hread : Reads c.info Parse.start.i (u ++ l) := reads_of_get fun j hj => by
    rw [show Parse.start.i + j = j from Nat.zero_add j]
    exact h.info j hj
  have hparse := parseLine_all c.lenInfo [] (p := .start) hu hl (fun h0 => hz (List.mem_append_right _ h0)) hread
    ((Nat.zero_add _).trans h.lenInfo.symm) (Nat.le_refl _) rfl argsOf_nil.symm ⟨Nat.zero_le 10, fun _ => nofun⟩
  rw [(argumentWords_append hu hl).2, parseCommand, Traced.all_bind, hparse]
  exact and_iff_left (Traced.all_pure _)

theorem getCommand_all {garbage : UInt8} {keys : List UInt8} (hgarbage : garbage ≠ newline) (hkeys : newline ∉ keys) :
    (getCommand garbage (keys ++ [newline])).All Store.InRange ↔
      RoomFor [] keys ∧ WordsFit (argumentWords (typedLine keys)) := by
  have hzero : HoldsLine .zero [] := ⟨rfl, fun j hj => absurd hj (Nat.not_lt_zero j), rfl⟩
  rw [getCommand, Traced.all_bind, readLine_all hzero hgarbage hkeys, readLine_out]
  refine and_congr_right fun hroom => ?_
  obtain ⟨c, hc, hline⟩ := hzero.readLine hgarbage hkeys hroom
  rw [hc]
  exact parseCommand_all hline (zero_notMem_typedLine keys)

/-- The loop over the keyboard does not run if `buf` happens to hold the newline. -/
theorem getCommand_newline (keys : List UInt8) : (getCommand newline keys).All Store.InRange := by
  have hline : readLine newline keys .zero = pure (some .zero) := by
    cases keys with
    | nil => rfl
    | cons key keys => exact if_pos rfl
  have hparse : parseCommand .zero = pure (some (.zero, Parse.start.args)) := rfl
  rw [getCommand, hline]
  refine Traced.all_bind.2 ⟨Traced.all_pure _, ?_⟩
  rw [Traced.out_pure]
  dsimp only
  rw [hparse]
  exact Traced.all_pure _

end Overrun

/-- **When no line overruns the buffers**: before every key that is typed the line has at most 2047 characters, at most
ten words come after its first space, and each of them has at most eight characters. -/
theorem stores_inRange_iff (garbage : UInt8) {keys : List UInt8} (hkeys : newline ∉ keys) :
    (Overrun.getCommand garbage (keys ++ [newline])).All Overrun.Store.InRange ↔
      garbage = newline ∨ RoomFor [] keys ∧ WordsFit (argumentWords (typedLine keys)) := by
  by_cases hgarbage : garbage = newline
  · subst hgarbage
    exact iff_of_true (Overrun.getCommand_newline _) (.inl rfl)
  · rw [Overrun.getCommand_all hgarbage hkeys]
    exact (or_iff_right hgarbage).symm

theorem stores_inRange_edited : (Overrun.getCommand 0 (editedKeys ++ [newline])).All Overrun.Store.InRange := by
  refine (stores_inRange_iff 0 (by decide)).2 (.inr ⟨roomFor_of_forall fun pre hpre => ?_, ?_⟩)
  · exact (typedLine_length_le hpre).trans (by decide)
  · rw [show argumentWords (typedLine editedKeys) = [[97], [98]] by decide +kernel]
    exact ⟨by decide, by decide⟩

/-- `a 123456789`. -/
def longArgument : List UInt8 := [97, 32, 49, 50, 51, 52, 53, 54, 55, 56, 57]

/-- The ninth byte of the argument goes to its `ext`. -/
theorem not_stores_inRange_long :
    ¬ ∀ garbage keys, newline ∉ keys → (Overrun.getCommand garbage (keys ++ [newline])).All Overrun.Store.InRange := by
  intro hall
  have hfit := ((Overrun.getCommand_all (by decide) (by decide)).1 (hall 0 longArgument (by decide))).2
  have hlen := hfit.length [49, 50, 51, 52, 53, 54, 55, 56, 57] (by decide +kernel)
  exact absurd hlen (by decide)

end MoggersOs
