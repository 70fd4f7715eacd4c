import MoggersOs.Filesystem.Disk
/-
# From the keyboard to a built-in command (`user_mode/user-shell.c`)

| here | there |
| --- | --- |
| `CommandStruct`                 | `CommandStruct` (`user-shell.h:32-36`), zeroed before every line (`user-shell.c:255-256`) |
| `ArgsList`                      | `args_list`, ten `Arg`s of 20 bytes: `info` at 0, `ext` at 8, `len_info` at 12 (`user-shell.h:25-30`) |
| `typeKey`, `readLine`           | the loop of `get_command` over the keyboard (`user-shell.c:91-112`) |
| `findSpace`, `findLetter`, `parseArg`, `parseLine` | the parsing loops (`user-shell.c:120-161`) |
| `getCommand`                    | `get_command` |
| `BuiltIn.cascade`, `dispatch`   | the `else if` cascade of `main` (`user-shell.c:261-307`) |

A byte typed is stored where `len_info` of the command or of the argument says. A store past `info` or past
`args_list` has no meaning the source gives it, so the result is `none` then, as it is when the keyboard stops
before a newline. A short argument list says nothing about the `len_info` of an argument: its thirteenth byte
already falls on it. All counters of the loops only grow up to `len_info`, so each loop runs on the number of
rounds that are left.
-/

namespace MoggersOs

def newline : UInt8 := 10
def backspace : UInt8 := 8
def space : UInt8 := 32

structure CommandStruct where
  info         : Nat → UInt8
  lenInfo      : Nat
  argumentNeff : Nat

def CommandStruct.zero : CommandStruct := ⟨fun _ => 0, 0, 0⟩

/-- `command->info[i] = b`. -/
def CommandStruct.setInfo (c : CommandStruct) (i : Nat) (b : UInt8) : Option CommandStruct :=
  if i < 2048 then some { c with info := Function.update c.info i b } else none

/-! ## Reading a line -/

/-- What a key other than 0 and the newline does (`user-shell.c:97-110`): a space is stored like any other byte. -/
def typeKey (c : CommandStruct) (key : UInt8) : Option CommandStruct :=
  if key = backspace then
    if 0 < c.lenInfo then (c.setInfo c.lenInfo 0).map fun c => { c with lenInfo := c.lenInfo - 1 } else some c
  else (c.setInfo c.lenInfo key).map fun c => { c with lenInfo := c.lenInfo + 1 }

/-- `buf` is tested before the first key is read, when it is still uninitialised. -/
def readLine (buf : UInt8) : List UInt8 → CommandStruct → Option CommandStruct
  | [], c => if buf = newline then some c else none
  | key :: keys, c =>
    if buf = newline then some c
    else if key ≠ 0 ∧ key ≠ newline then (typeKey c key).bind (readLine key keys)
    else readLine key keys c

/-! ## Parsing it -/

abbrev ArgsList := Nat → UInt8

namespace ArgsList

/-- `args_list[n].len_info`. -/
def lenInfo (m : ArgsList) (n : Nat) : Nat :=
  Lib.ofLe [m (20 * n + 12), m (20 * n + 13), m (20 * n + 14), m (20 * n + 15)]

def setLenInfo (m : ArgsList) (n v : Nat) : ArgsList := fun a =>
  if 20 * n + 12 ≤ a ∧ a < 20 * n + 16 then Lib.leByte v (a - (20 * n + 12)) else m a

/-- `args_list[n].info[*idx] = b; (*idx)++` with `idx = &args_list[n].len_info` (`user-shell.c:151-153`). -/
def push (m : ArgsList) (n : Nat) (b : UInt8) : Option ArgsList :=
  if n < 10 ∧ 20 * n + m.lenInfo n < 200 then
    let m : ArgsList := Function.update m (20 * n + m.lenInfo n) b
    some (m.setLenInfo n (m.lenInfo n + 1))
  else none

end ArgsList

/-- The variables of the parsing loops; `firstSpace` is `first_space_location`, `none` for `-1`. -/
structure Parse where
  i          : Nat
  buf        : UInt8
  firstSpace : Option Nat
  neff       : Nat
  args       : ArgsList

section
variable (info : Nat → UInt8)

/-- Up to the next space, with `n` bytes left (`user-shell.c:126-136`). -/
def findSpace : Nat → Parse → Parse
  | 0, p => p
  | n + 1, p =>
    if info p.i = space then { p with buf := info p.i, firstSpace := some (p.firstSpace.getD p.i) }
    else findSpace n { p with buf := info p.i, i := p.i + 1 }

/-- Past the spaces (`user-shell.c:139-147`); the flag is `isArgs`. -/
def findLetter : Nat → Parse → Bool → Parse × Bool
  | 0, p, isArgs => (p, isArgs)
  | n + 1, p, isArgs =>
    if p.buf ≠ space then (p, isArgs)
    else if info p.i ≠ space then ({ p with buf := info p.i }, true)
    else findLetter n { p with buf := info p.i, i := p.i + 1 } true

/-- The bytes of an argument (`user-shell.c:150-156`). -/
def parseArg : Nat → Parse → Option Parse
  | 0, p => some p
  | n + 1, p =>
    if p.buf ≠ space ∧ p.buf ≠ 0 then
      (p.args.push p.neff p.buf).bind fun args => parseArg n { p with args := args, i := p.i + 1, buf := info (p.i + 1) }
    else some p

/-- The outer loop. Every round goes past one byte at least (`parseLine_end`). -/
def parseLine (len : Nat) : Nat → Parse → Option Parse
  | 0, p => some p
  | n + 1, p =>
    if p.i < len then
      let p := findSpace info (len - p.i) p
      let q := findLetter info (len - p.i) p false
      (parseArg info (len - q.1.i) q.1).bind fun p =>
        parseLine len n (if q.2 then { p with neff := p.neff + 1 } else p)
    else some p

end

def Parse.start : Parse := ⟨0, 0, none, 0, fun _ => 0⟩

/-- The parsing half of `get_command`, the clean up included (`user-shell.c:164`). -/
def parseCommand (c : CommandStruct) : Option (CommandStruct × ArgsList) :=
  (parseLine c.info c.lenInfo c.lenInfo .start).map fun p =>
    ({ c with lenInfo := p.firstSpace.getD p.i, argumentNeff := p.neff }, p.args)

/-- `garbage` is what the local `buf` holds at the start. -/
def getCommand (garbage : UInt8) (keys : List UInt8) : Option (CommandStruct × ArgsList) :=
  (readLine garbage keys .zero).bind parseCommand

/-! ## The cascade -/

inductive BuiltIn where
  | cat | ls | mkdir | cd | rm | mv | find | clear | exec | ps | kill | apple | cp
deriving DecidableEq

namespace BuiltIn

def name : BuiltIn → List UInt8
  | cat => [99, 97, 116]
  | ls => [108, 115]
  | mkdir => [109, 107, 100, 105, 114]
  | cd => [99, 100]
  | rm => [114, 109]
  | mv => [109, 118]
  | find => [102, 105, 110, 100]
  | clear => [99, 108, 101, 97, 114]
  | exec => [101, 120, 101, 99]
  | ps => [112, 115]
  | kill => [107, 105, 108, 108]
  | apple => [97, 112, 112, 108, 101]
  | cp => [99, 112]

/-- In the order in which `main` compares. -/
def cascade : List BuiltIn := [cat, ls, mkdir, cd, rm, mv, find, clear, exec, ps, kill, apple, cp]

end BuiltIn

/-- The memory of a string literal: its bytes, the terminating 0 and whatever the linker put after it. -/
def literal (s : List UInt8) (after : Nat → UInt8) : Nat → UInt8 := fun i =>
  if h : i < s.length then s[i] else if i = s.length then 0 else after i

/-- The branch `main` takes; `none` is `print_unknown`. The branch of `cat` looks at the number of arguments next. -/
def dispatch (after : BuiltIn → Nat → UInt8) (c : CommandStruct) : Option BuiltIn :=
  BuiltIn.cascade.find? fun k =>
    memcmp (fun i : Fin c.lenInfo => c.info i) (fun i => literal k.name (after k) i) == 0

/-! ## The line that is typed -/

/-- The bytes of `info` that count. -/
def CommandStruct.line (c : CommandStruct) : List UInt8 := (List.range c.lenInfo).map c.info

def firstWord (line : List UInt8) : List UInt8 := line.takeWhile (· ≠ space)

/-- Every byte of the line was typed, so it is not 0. -/
def CommandStruct.Typed (c : CommandStruct) : Prop := ∀ j < c.lenInfo, c.info j ≠ 0

theorem typeKey_typed {c c' : CommandStruct} {key : UInt8} (h : c.Typed) (hkey : key ≠ 0)
    (ht : typeKey c key = some c') : c'.Typed := by
  unfold typeKey CommandStruct.setInfo at ht
  split at ht
  · split at ht
    · split at ht
      · cases ht
        intro j hj
        -- the byte stored is the one behind the line
        have hne : j ≠ c.lenInfo := by simp only at hj; omega
        simp only [Function.update_of_ne hne]
        exact h j (by simp only at hj; omega)
      · simp at ht
    · cases ht
      exact h
  · split at ht
    · cases ht
      intro j hj
      by_cases he : j = c.lenInfo
      · simpa [he] using hkey
      · simp only [Function.update_of_ne he]
        exact h j (by simp only at hj; omega)
    · simp at ht

theorem readLine_typed {keys : List UInt8} : ∀ {buf : UInt8} {c c' : CommandStruct}, c.Typed →
    readLine buf keys c = some c' → c'.Typed := by
  induction keys with
  | nil =>
    intro buf c c' h hr
    unfold readLine at hr
    split at hr
    · cases hr
      exact h
    · simp at hr
  | cons key keys ih =>
    intro buf c c' h hr
    unfold readLine at hr
    split at hr
    · cases hr
      exact h
    · split at hr
      · next hkey =>
        obtain ⟨c₁, hc₁, hr⟩ := Option.bind_eq_some_iff.1 hr
        exact ih (typeKey_typed h hkey.1 hc₁) hr
      · exact ih h hr

/-! ## Where the first word ends -/

/-- The first space of the line, or its end. -/
structure WordEnd (info : Nat → UInt8) (len w : Nat) : Prop where
  le     : w ≤ len
  before : ∀ j < w, info j ≠ space
  at_end : w < len → info w = space

theorem WordEnd.firstWord {info : Nat → UInt8} {len w : Nat} (h : WordEnd info len w) :
    firstWord ((List.range len).map info) = (List.range w).map info := by
  obtain ⟨k, rfl⟩ := Nat.exists_eq_add_of_le h.le
  have hword : ∀ x ∈ (List.range w).map info, decide (x ≠ space) = true := by
    intro x hx
    obtain ⟨j, hj, rfl⟩ := List.mem_map.1 hx
    simpa using h.before j (List.mem_range.1 hj)
  rw [MoggersOs.firstWord, List.range_add, List.map_append, List.takeWhile_append_of_pos hword]
  cases k with
  | zero => simp
  | succ k =>
    have hsp : info w = space := h.at_end (by omega)
    simp [List.range_succ_eq_map, hsp]

section
variable {info : Nat → UInt8} {len : Nat}

/-- Once the first space is known it stays. -/
theorem findSpace_keeps {s : Nat} : ∀ (n : Nat) (p : Parse), p.firstSpace = some s →
    (findSpace info n p).firstSpace = some s
  | 0, _, h => h
  | n + 1, p, h => by
    unfold findSpace
    split
    · simp [h]
    · exact findSpace_keeps n _ h

/-- The scan finds the first space, or there is none and it ends at the end of the line. -/
theorem findSpace_first : ∀ (n : Nat) (p : Parse), p.i + n = len → p.firstSpace = none →
    (∀ j < p.i, info j ≠ space) →
    (∃ w, (findSpace info n p).firstSpace = some w ∧ WordEnd info len w) ∨
      (findSpace info n p).firstSpace = none ∧ (findSpace info n p).i = len ∧ WordEnd info len len
  | 0, p, hi, hnone, hbefore => by
    have hlen : p.i = len := by omega
    exact .inr ⟨hnone, hlen, ⟨Nat.le_refl _, hlen ▸ hbefore, fun hlt => absurd hlt (Nat.lt_irrefl _)⟩⟩
  | n + 1, p, hi, hnone, hbefore => by
    unfold findSpace
    split
    · next hsp => exact .inl ⟨p.i, by simp [hnone], ⟨by omega, hbefore, fun _ => hsp⟩⟩
    · next hsp =>
      refine findSpace_first n _ (by simp only; omega) hnone fun j hj => ?_
      by_cases he : j = p.i
      · rw [he]
        exact hsp
      · exact hbefore j (by simp only at hj; omega)

theorem findLetter_firstSpace : ∀ (n : Nat) (p : Parse) (isArgs : Bool),
    (findLetter info n p isArgs).1.firstSpace = p.firstSpace
  | 0, _, _ => rfl
  | n + 1, p, isArgs => by
    unfold findLetter
    split
    · rfl
    · split
      · rfl
      · exact findLetter_firstSpace n _ true

theorem parseArg_firstSpace : ∀ (n : Nat) {p p' : Parse}, parseArg info n p = some p' →
    p'.firstSpace = p.firstSpace
  | 0, p, p', h => by
    cases h
    rfl
  | n + 1, p, p', h => by
    unfold parseArg at h
    split at h
    · obtain ⟨args, -, h⟩ := Option.bind_eq_some_iff.1 h
      have hrest := parseArg_firstSpace n h
      exact hrest
    · cases h
      rfl

theorem parseLine_keeps {s : Nat} : ∀ (n : Nat) {p p' : Parse}, p.firstSpace = some s →
    parseLine info len n p = some p' → p'.firstSpace = some s
  | 0, p, p', hs, h => by
    cases h
    exact hs
  | n + 1, p, p', hs, h => by
    unfold parseLine at h
    split at h
    · obtain ⟨q, hq, h⟩ := Option.bind_eq_some_iff.1 h
      have hqs : q.firstSpace = some s := by
        rw [parseArg_firstSpace _ hq, findLetter_firstSpace]
        exact findSpace_keeps _ p hs
      refine parseLine_keeps n ?_ h
      split
      · exact hqs
      · exact hqs
    · cases h
      exact hs

/-- What `len_info` is set to after the parsing loops. -/
theorem parseLine_wordEnd {p : Parse} (h : parseLine info len len .start = some p) :
    WordEnd info len (p.firstSpace.getD p.i) := by
  cases len with
  | zero =>
    cases h
    exact ⟨Nat.le_refl 0, fun j hj => absurd hj (Nat.not_lt_zero j), fun hlt => absurd hlt (Nat.lt_irrefl 0)⟩
  | succ n =>
    unfold parseLine at h
    rw [if_pos (show Parse.start.i < n + 1 from Nat.succ_pos n)] at h
    have hfirst := @findSpace_first info (n + 1) (n + 1) .start (Nat.zero_add _) rfl
      fun j hj => absurd hj (Nat.not_lt_zero j)
    simp only [show Parse.start.i = 0 from rfl, Nat.sub_zero] at h
    generalize findSpace info (n + 1) .start = p₁ at h hfirst
    obtain ⟨q, hq, h⟩ := Option.bind_eq_some_iff.1 h
    rcases hfirst with ⟨w, hw, hend⟩ | ⟨hnone, hlast, hend⟩
    · have hqs : q.firstSpace = some w := by rw [parseArg_firstSpace _ hq, findLetter_firstSpace, hw]
      have hp : p.firstSpace = some w := by
        refine parseLine_keeps n ?_ h
        split
        · exact hqs
        · exact hqs
      rw [hp]
      exact hend
    · -- no space: the other loops of the round have nothing left to look at
      rw [hlast, Nat.sub_self] at hq h
      have hq' : q = p₁ := by
        simp only [findLetter, hlast, Nat.sub_self, parseArg, Option.some.injEq] at hq
        exact hq.symm
      simp only [findLetter, Bool.false_eq_true, if_false, hq'] at h
      have hstop : p = p₁ := by
        cases n with
        | zero =>
          cases h
          rfl
        | succ n =>
          unfold parseLine at h
          rw [if_neg (by omega)] at h
          cases h
          rfl
      rw [hstop, hnone, hlast]
      exact hend

/-! ## The rounds suffice -/

theorem findSpace_stops : ∀ (n : Nat) (p : Parse), p.i + n = len → p.i ≤ (findSpace info n p).i ∧
    ((findSpace info n p).i = len ∨ (findSpace info n p).i < len ∧ (findSpace info n p).buf = space ∧
      info (findSpace info n p).i = space)
  | 0, p, hi => ⟨Nat.le_refl _, .inl hi⟩
  | n + 1, p, hi => by
    unfold findSpace
    split
    · next hsp => exact ⟨Nat.le_refl _, .inr ⟨by simp only; omega, hsp, hsp⟩⟩
    · obtain ⟨hle, hstop⟩ := findSpace_stops n { p with buf := info p.i, i := p.i + 1 } (by simp only; omega)
      exact ⟨Nat.le_of_succ_le hle, hstop⟩

theorem findLetter_le : ∀ (n : Nat) (p : Parse) (isArgs : Bool), p.i ≤ (findLetter info n p isArgs).1.i
  | 0, p, _ => Nat.le_refl p.i
  | n + 1, p, isArgs => by
    unfold findLetter
    split
    · exact Nat.le_refl p.i
    · split
      · exact Nat.le_refl p.i
      · exact Nat.le_of_succ_le (findLetter_le n { p with buf := info p.i, i := p.i + 1 } true)

theorem parseArg_le : ∀ (n : Nat) {p p' : Parse}, parseArg info n p = some p' → p.i ≤ p'.i
  | 0, p, p', h => by
    cases h
    exact Nat.le_refl p.i
  | n + 1, p, p', h => by
    unfold parseArg at h
    split at h
    · obtain ⟨args, -, h⟩ := Option.bind_eq_some_iff.1 h
      have hrest := parseArg_le n h
      exact Nat.le_of_succ_le hrest
    · cases h
      exact Nat.le_refl p.i

/-- The outer loop ends because its condition fails: a round that starts inside the line goes past a byte. -/
theorem parseLine_end : ∀ (n : Nat) {p p' : Parse}, len ≤ n + p.i → parseLine info len n p = some p' → len ≤ p'.i
  | 0, p, p', hn, h => by
    cases h
    omega
  | n + 1, p, p', hn, h => by
    unfold parseLine at h
    split at h
    · next hlt =>
      obtain ⟨q, hq, h⟩ := Option.bind_eq_some_iff.1 h
      obtain ⟨hle, hstop⟩ := @findSpace_stops info len (len - p.i) p (show p.i + (len - p.i) = len by omega)
      generalize findSpace info (len - p.i) p = p₁ at hq h hle hstop
      have hqi := parseArg_le _ hq
      have hpast : p.i < (findLetter info (len - p₁.i) p₁ false).1.i := by
        rcases hstop with hend | ⟨hin, hbuf, hsp⟩
        · have hmono := @findLetter_le info (len - p₁.i) p₁ false
          omega
        · obtain ⟨k, hk⟩ := Nat.exists_eq_succ_of_ne_zero (show len - p₁.i ≠ 0 by omega)
          rw [hk, findLetter, if_neg (by simp [hbuf]), if_neg (by simp [hsp])]
          have hmono := @findLetter_le info k { p₁ with buf := info p₁.i, i := p₁.i + 1 } true
          simp only at hmono
          omega
      refine parseLine_end n ?_ h
      split
      · simp only
        omega
      · omega
    · cases h
      omega

end

/-! ## The cascade -/

theorem parseCommand_line {c c' : CommandStruct} {args : ArgsList} (h : parseCommand c = some (c', args)) :
    c'.info = c.info ∧ c'.lenInfo ≤ c.lenInfo ∧ c'.line = firstWord c.line := by
  obtain ⟨p, hp, he⟩ := Option.map_eq_some_iff.1 h
  obtain ⟨rfl, rfl⟩ := Prod.mk.inj he
  have hend := parseLine_wordEnd hp
  exact ⟨rfl, hend.le, hend.firstWord.symm⟩

/-- A `memcmp` on the length of the word typed is 0 exactly if the word is the beginning of the literal. -/
theorem memcmp_literal {info : Nat → UInt8} {w : Nat} (hinfo : ∀ j < w, info j ≠ 0) (s : List UInt8)
    (after : Nat → UInt8) :
    memcmp (fun i : Fin w => info i) (fun i => literal s after i) = 0 ↔ (List.range w).map info <+: s := by
  rw [memcmp_eq_zero, List.prefix_iff_eq_take]
  constructor
  · intro h
    have hbyte : ∀ j < w, info j = literal s after j := fun j hj => congrFun h ⟨j, hj⟩
    have hle : w ≤ s.length := by
      by_contra hlt
      -- the terminating 0 is not in the word
      refine hinfo s.length (by omega) ((hbyte s.length (by omega)).trans ?_)
      simp [literal]
    refine List.ext_getElem (by simp [hle]) fun j hj _ => ?_
    have hjw : j < w := by simpa using hj
    have hjs : j < s.length := by omega
    simp [hbyte j hjw, literal, hjs]
  · intro h
    have hle : w ≤ s.length := by
      have hlen := congrArg List.length h
      simp only [List.length_map, List.length_range, List.length_take] at hlen
      omega
    funext i
    have hi : i.val < s.length := by have := i.isLt; omega
    have hget := congrArg (fun l => l[i.val]?) h
    simp only [List.length_map, List.length_range, List.getElem?_map, List.getElem?_range i.isLt, Option.map_some,
      List.getElem?_take_of_lt i.isLt, List.getElem?_eq_getElem hi, Option.some.injEq] at hget
    simp only [hget, literal, dif_pos hi]

theorem dispatch_eq {after : BuiltIn → Nat → UInt8} {c : CommandStruct} (h : c.Typed) :
    dispatch after c = BuiltIn.cascade.find? fun k => decide (c.line <+: k.name) := by
  unfold dispatch CommandStruct.line
  congr 1
  funext k
  have hk := memcmp_literal h k.name (after k)
  by_cases hp : (List.range c.lenInfo).map c.info <+: k.name
  · simp [hk.2 hp, hp]
  · have hne := mt hk.1 hp
    simp [hne, hp]

namespace BuiltIn

theorem mem_cascade (k : BuiltIn) : k ∈ cascade := by cases k <;> simp [cascade]

/-- No name begins another one. -/
theorem eq_of_begins {k k' : BuiltIn} (h : k.name <+: k'.name) : k = k' := by
  cases k <;> cases k' <;> first | rfl | exact absurd h (by decide)

end BuiltIn

/-- The branch is the one of the first word, and `print_unknown` if no command has that name. -/
def DispatchExact (after : BuiltIn → Nat → UInt8) (c : CommandStruct) (w : List UInt8) : Prop :=
  (∀ k, dispatch after c = some k ↔ w = k.name) ∧ (dispatch after c = none ↔ ∀ k : BuiltIn, w ≠ k.name)

/-- The beginning of a command's name, short of the whole; the empty word among them. -/
def Abbreviates (w : List UInt8) : Prop := ∃ k : BuiltIn, w <+: k.name ∧ w ≠ k.name

theorem BuiltIn.not_abbreviates (k : BuiltIn) : ¬ Abbreviates k.name := fun ⟨_, hk, hne⟩ =>
  hne (congrArg name (eq_of_begins hk))

theorem find?_exact_iff (w : List UInt8) :
    ((∀ k, BuiltIn.cascade.find? (fun k => decide (w <+: k.name)) = some k ↔ w = k.name) ∧
      (BuiltIn.cascade.find? (fun k => decide (w <+: k.name)) = none ↔ ∀ k : BuiltIn, w ≠ k.name)) ↔
      ¬ Abbreviates w := by
  rcases hf : BuiltIn.cascade.find? fun k => decide (w <+: k.name) with _ | k₀
  · have hall : ∀ k : BuiltIn, ¬ w <+: k.name := fun k => by
      simpa using List.find?_eq_none.1 hf k k.mem_cascade
    have hne : ∀ k : BuiltIn, w ≠ k.name := fun k he => hall k (he ▸ List.prefix_rfl)
    rw [hf]
    refine iff_of_true ⟨fun k => ?_, iff_of_true rfl hne⟩ fun ⟨k, hk, _⟩ => hall k hk
    simp [hne k]
  · have hpre : w <+: k₀.name := by simpa using List.find?_some hf
    rw [hf]
    constructor
    · rintro ⟨hexact, -⟩
      rw [(hexact k₀).1 rfl]
      exact k₀.not_abbreviates
    · intro habb
      have hw : w = k₀.name := by
        by_contra hne
        exact habb ⟨k₀, hpre, hne⟩
      refine ⟨fun k => ?_, ?_⟩
      · constructor
        · rintro ⟨⟩
          exact hw
        · intro hk
          have heq : k₀.name = k.name := hw.symm.trans hk
          have hpre' : k₀.name <+: k.name := heq ▸ List.prefix_rfl
          rw [BuiltIn.eq_of_begins hpre']
      · simp only [reduceCtorEq, false_iff, not_forall, not_not]
        exact ⟨k₀, hw⟩

theorem getCommand_eq {garbage : UInt8} {keys : List UInt8} {typed : CommandStruct}
    (h : readLine garbage keys .zero = some typed) : getCommand garbage keys = parseCommand typed := by
  rw [getCommand, h, Option.bind_some]

/-- **When dispatch is exact.** Whatever is typed, in whatever memory: if the line stays within its buffers, `main`
goes by its first word exactly if that word is no abbreviation of a command. -/
theorem dispatch_exact_iff (after : BuiltIn → Nat → UInt8) {garbage : UInt8} {keys : List UInt8}
    {typed command : CommandStruct} {args : ArgsList} (hline : readLine garbage keys .zero = some typed)
    (hget : getCommand garbage keys = some (command, args)) :
    DispatchExact after command (firstWord typed.line) ↔ ¬ Abbreviates (firstWord typed.line) := by
  have htyped : typed.Typed := readLine_typed (fun j hj => absurd hj (Nat.not_lt_zero j)) hline
  rw [getCommand_eq hline] at hget
  obtain ⟨hinfo, hle, hword⟩ := parseCommand_line hget
  have hcommand : command.Typed := fun j hj => by
    rw [hinfo]
    exact htyped j (Nat.lt_of_lt_of_le hj hle)
  rw [DispatchExact, dispatch_eq hcommand, hword]
  exact find?_exact_iff _

/-- `cd x` and the newline. -/
def cdKeys : List UInt8 := [99, 100, 32, 120, 10]

def cdTyped : CommandStruct := (readLine 0 cdKeys .zero).getD .zero

def cdCommand : CommandStruct × ArgsList := (getCommand 0 cdKeys).getD (.zero, fun _ => 0)

theorem dispatch_exact_cd : DispatchExact (fun _ _ => 0) cdCommand.1 (firstWord cdTyped.line) := by
  have hline : readLine 0 cdKeys .zero = some cdTyped := rfl
  have hget : getCommand 0 cdKeys = some (cdCommand.1, cdCommand.2) := rfl
  have hword : firstWord cdTyped.line = BuiltIn.cd.name := by decide
  refine (dispatch_exact_iff (fun _ _ => 0) hline hget).2 ?_
  rw [hword]
  exact BuiltIn.cd.not_abbreviates

/-- The line `c` runs `cat`. -/
theorem not_dispatch_exact_c : ¬ ∀ after garbage keys typed command args,
    readLine garbage keys .zero = some typed → getCommand garbage keys = some (command, args) →
    DispatchExact after command (firstWord typed.line) := by
  intro hall
  have hexact := hall (fun _ _ => 0) 0 [99, 10] _ _ _ rfl rfl
  have hcat := (hexact.1 .cat).1 (by decide)
  exact absurd hcat (by decide)

end MoggersOs
