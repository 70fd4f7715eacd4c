import MoggersOs.Lib.Words
import MoggersOs.Shell.Input
/-
# What `get_command` makes of a line (`user_mode/user-shell.c:88-161`)

The three loops of the parser share one index and the byte `buf`, which is the one at the index, one behind it, or
left over from the loop before. Taken on a line that is known to be in `info` (`Reads`), each of them is one step
of a scan: up to the next space, past the spaces, and through a word (`findSpace_word`, `findLetter_gap`,
`parseArg_word`). A round of the outer loop is the three of them, and `parseLine_words` is the induction over the
rounds. What `backspace` leaves behind the line is read after the last word and tested only together with the end
of the line.

| here | there |
| --- | --- |
| `editLine`, `typedLine` | the line on the screen: a character is added, `backspace` takes the last one |
| `argsOf`                | `args_list` with the words of a list in it, and zeros elsewhere |
| `argumentWords`         | the words after the first space |
-/

namespace MoggersOs

open Lib (words)

/-! ## The line -/

/-- 0 is a poll that found no key. -/
def editLine (line : List UInt8) (key : UInt8) : List UInt8 :=
  if key = 0 then line else if key = backspace then line.dropLast else line ++ [key]

def typedLine (keys : List UInt8) : List UInt8 := keys.foldl editLine []

/-- Before every key there is room for one more character. -/
def RoomFor : List UInt8 → List UInt8 → Prop
  | _, [] => True
  | line, key :: keys => (key ≠ 0 → line.length ≤ 2047) ∧ RoomFor (editLine line key) keys

theorem roomFor_of_forall {keys : List UInt8} : ∀ {line : List UInt8},
    (∀ pre, pre <+: keys → (pre.foldl editLine line).length ≤ 2047) → RoomFor line keys := by
  induction keys with
  | nil => exact fun _ => trivial
  | cons key keys ih =>
    intro line h
    exact ⟨fun _ => h [] List.nil_prefix, ih fun pre hpre => h (key :: pre) (List.cons_prefix_cons.mpr ⟨rfl, hpre⟩)⟩

/-- The command holds the line, and nothing is parsed yet. -/
structure HoldsLine (c : CommandStruct) (l : List UInt8) : Prop where
  lenInfo      : c.lenInfo = l.length
  info         : ∀ j (h : j < l.length), c.info j = l[j]
  argumentNeff : c.argumentNeff = 0

theorem HoldsLine.line {c : CommandStruct} {l : List UInt8} (h : HoldsLine c l) : c.line = l := by
  unfold CommandStruct.line
  refine List.ext_getElem (by rw [List.length_map, List.length_range, h.lenInfo]) fun j _ hj => ?_
  rw [List.getElem_map, List.getElem_range, h.info j hj]

theorem HoldsLine.typeKey {c : CommandStruct} {line : List UInt8} {key : UInt8} (h : HoldsLine c line) (hkey : key ≠ 0)
    (hroom : line.length ≤ 2047) : ∃ c', typeKey c key = some c' ∧ HoldsLine c' (editLine line key) := by
  have hlen := h.lenInfo
  unfold MoggersOs.typeKey CommandStruct.setInfo editLine
  rw [if_neg hkey]
  by_cases hb : key = backspace
  · rw [if_pos hb, if_pos hb]
    by_cases hpos : 0 < c.lenInfo
    · rw [if_pos hpos, if_pos (by omega), Option.map_some]
      refine ⟨_, rfl, by simp [hlen], fun j hj => ?_, h.argumentNeff⟩
      -- the byte behind the line is cleared, not the one taken away
      rw [List.length_dropLast] at hj
      simp only [Function.update_of_ne (show j ≠ c.lenInfo by omega), List.getElem_dropLast]
      exact h.info j (by omega)
    · rw [if_neg hpos]
      have hnil : line = [] := List.eq_nil_of_length_eq_zero (by omega)
      subst hnil
      exact ⟨c, rfl, h⟩
  · rw [if_neg hb, if_neg hb, if_pos (by omega), Option.map_some]
    refine ⟨_, rfl, by simp [hlen], fun j hj => ?_, h.argumentNeff⟩
    rw [List.length_append, List.length_singleton] at hj
    by_cases hlast : j = line.length
    · subst hlast
      simp [hlen]
    · simp only [Function.update_of_ne (show j ≠ c.lenInfo by omega)]
      rw [List.getElem_append_left (by omega)]
      exact h.info j (by omega)

/-- The newline ends the loop. -/
theorem HoldsLine.readLine {keys : List UInt8} : ∀ {buf : UInt8} {c : CommandStruct} {line : List UInt8},
    HoldsLine c line → buf ≠ newline → newline ∉ keys → RoomFor line keys →
    ∃ c', MoggersOs.readLine buf (keys ++ [newline]) c = some c' ∧ HoldsLine c' (keys.foldl editLine line) := by
  induction keys with
  | nil =>
    intro buf c line h hbuf _ _
    refine ⟨c, ?_, h⟩
    simp [MoggersOs.readLine, hbuf]
  | cons key keys ih =>
    intro buf c line h hbuf hkeys hroom
    obtain ⟨hkey, hkeys⟩ := not_or.mp (List.mem_cons.not.mp hkeys)
    obtain ⟨hle, hroom⟩ := hroom
    rw [List.cons_append, List.foldl_cons]
    unfold MoggersOs.readLine
    rw [if_neg hbuf]
    by_cases hzero : key = 0
    · have hsame : editLine line key = line := if_pos hzero
      rw [if_neg (fun hk => hk.1 hzero), hsame]
      rw [hsame] at hroom
      exact ih h (Ne.symm hkey) hkeys hroom
    · obtain ⟨c', hc', h'⟩ := h.typeKey hzero (hle hzero)
      rw [if_pos ⟨hzero, Ne.symm hkey⟩, hc', Option.bind_some]
      exact ih h' (Ne.symm hkey) hkeys hroom

/-! ## What the loops read -/

/-- The bytes of `l` are in `info` from `i` on. -/
def Reads (info : Nat → UInt8) : Nat → List UInt8 → Prop
  | _, [] => True
  | i, b :: l => info i = b ∧ Reads info (i + 1) l

section

variable {info : Nat → UInt8}

theorem reads_of_get {l : List UInt8} : ∀ {i : Nat}, (∀ j (h : j < l.length), info (i + j) = l[j]) → Reads info i l := by
  induction l with
  | nil => exact fun _ => trivial
  | cons b l ih =>
    intro i h
    refine ⟨h 0 (Nat.zero_lt_succ _), ih fun j hj => ?_⟩
    have hj' := h (j + 1) (Nat.succ_lt_succ hj)
    rwa [show i + 1 + j = i + (j + 1) by omega]

theorem Reads.right {l r : List UInt8} : ∀ {i : Nat}, Reads info i (l ++ r) → Reads info (i + l.length) r := by
  induction l with
  | nil => exact fun h => h
  | cons b l ih =>
    intro i h
    rw [List.length_cons, show i + (l.length + 1) = i + 1 + l.length by omega]
    exact ih h.2

theorem findSpace_word {u v : List UInt8} (hu : space ∉ u) : ∀ {p : Parse}, Reads info p.i (u ++ space :: v) →
    findSpace info (u ++ space :: v).length p =
      { p with i := p.i + u.length, buf := space, firstSpace := some (p.firstSpace.getD (p.i + u.length)) } := by
  induction u with
  | nil =>
    intro p h
    rw [List.nil_append, List.length_cons]
    unfold findSpace
    rw [if_pos h.1, h.1]
    rfl
  | cons b u ih =>
    intro p h
    obtain ⟨hb, hu⟩ := not_or.mp (List.mem_cons.not.mp hu)
    rw [List.cons_append, List.length_cons]
    unfold findSpace
    rw [if_neg (by rw [h.1]; exact Ne.symm hb), ih hu h.2]
    simp only [List.length_cons, Nat.add_assoc, Nat.add_comm 1]

/-- Without a space the scan ends at the end of the line. -/
theorem findSpace_end {u : List UInt8} (hu : space ∉ u) : ∀ {p : Parse}, Reads info p.i u →
    ∃ b, findSpace info u.length p = { p with i := p.i + u.length, buf := b } := by
  induction u with
  | nil => exact fun _ => ⟨_, rfl⟩
  | cons b u ih =>
    intro p h
    obtain ⟨hb, hu⟩ := not_or.mp (List.mem_cons.not.mp hu)
    obtain ⟨b', hb'⟩ := ih hu (p := { p with buf := info p.i, i := p.i + 1 }) h.2
    refine ⟨b', ?_⟩
    rw [List.length_cons]
    unfold findSpace
    rw [if_neg (by rw [h.1]; exact Ne.symm hb), hb']
    simp only [Nat.add_assoc, Nat.add_comm 1]

theorem findLetter_gap {c : UInt8} (hc : c ≠ space) {v : List UInt8} (m : Nat) : ∀ {p : Parse} {isArgs : Bool},
    p.buf = space → Reads info p.i (List.replicate m space ++ c :: v) →
    findLetter info (List.replicate m space ++ c :: v).length p isArgs = ({ p with i := p.i + m, buf := c }, true) := by
  induction m with
  | zero =>
    intro p isArgs hbuf h
    rw [List.replicate_zero, List.nil_append, List.length_cons]
    unfold findLetter
    rw [if_neg (not_not_intro hbuf), if_pos (by rw [h.1]; exact hc), h.1]
    rfl
  | succ m ih =>
    intro p isArgs hbuf h
    rw [List.replicate_succ, List.cons_append, List.length_cons]
    unfold findLetter
    rw [if_neg (not_not_intro hbuf), if_neg (not_not_intro h.1), ih h.1 h.2]
    simp only [Nat.add_assoc, Nat.add_comm 1]

/-- Spaces up to the end of the line count as an argument. -/
theorem findLetter_end (m : Nat) : ∀ {p : Parse} {isArgs : Bool}, p.buf = space →
    Reads info p.i (List.replicate (m + 1) space) →
    findLetter info (m + 1) p isArgs = ({ p with i := p.i + (m + 1) }, true) := by
  induction m with
  | zero =>
    intro p isArgs hbuf h
    unfold findLetter
    rw [if_neg (not_not_intro hbuf), if_neg (not_not_intro h.1), h.1, ← hbuf]
    rfl
  | succ m ih =>
    intro p isArgs hbuf h
    unfold findLetter
    rw [if_neg (not_not_intro hbuf), if_neg (not_not_intro h.1), ih h.1 h.2, h.1, ← hbuf]
    simp only [Nat.add_assoc, Nat.add_comm 1]

end

/-! ## The arguments -/

def argsOf (ws : List (List UInt8)) : ArgsList := fun a =>
  if a % 20 < 8 then (ws.getD (a / 20) []).getD (a % 20) 0
  else if 12 ≤ a % 20 ∧ a % 20 < 16 then Lib.leByte (ws.getD (a / 20) []).length (a % 20 - 12)
  else 0

theorem argsOf_nil : argsOf [] = fun _ => 0 := by
  funext a
  simp [argsOf, Lib.leByte]

theorem getD_snoc {α : Type} (l : List α) (y d : α) (n : Nat) :
    (l ++ [y]).getD n d = if n = l.length then y else l.getD n d := by
  rw [List.getD_eq_getElem?_getD, List.getD_eq_getElem?_getD]
  obtain hlt | rfl | hgt := Nat.lt_trichotomy n l.length
  · rw [if_neg hlt.ne, List.getElem?_append_left hlt]
  · simp
  · rw [if_neg hgt.ne', List.getElem?_eq_none (by simpa using Nat.succ_le_of_lt hgt),
      List.getElem?_eq_none hgt.le]

/-- An argument that has no bytes yet is not there. -/
theorem argsOf_snoc_nil (ws : List (List UInt8)) : argsOf (ws ++ [[]]) = argsOf ws := by
  funext a
  have hget : (ws ++ [[]]).getD (a / 20) [] = ws.getD (a / 20) [] := by
    rw [getD_snoc]
    split
    next he => rw [he, List.getD_eq_getElem?_getD, List.getElem?_eq_none (Nat.le_refl _)]; rfl
    next => rfl
  unfold argsOf
  rw [hget]

theorem argsOf_byte (ws : List (List UInt8)) (n : Nat) {j : Nat} (hj : j < 8) :
    argsOf ws (20 * n + j) = (ws.getD n []).getD j 0 := by
  unfold argsOf
  rw [show (20 * n + j) % 20 = j by omega, show (20 * n + j) / 20 = n by omega, if_pos hj]

theorem argsOf_lenInfo (ws : List (List UInt8)) {n : Nat} (h : (ws.getD n []).length ≤ 8) :
    (argsOf ws).lenInfo n = (ws.getD n []).length := by
  have hbyte : ∀ j, 12 ≤ j → j < 16 → argsOf ws (20 * n + j) = Lib.leByte (ws.getD n []).length (j - 12) := by
    intro j h12 h16
    unfold argsOf
    rw [show (20 * n + j) % 20 = j by omega, show (20 * n + j) / 20 = n by omega, if_neg (by omega),
      if_pos ⟨h12, h16⟩]
  unfold ArgsList.lenInfo
  rw [hbyte 12 (by omega) (by omega), hbyte 13 (by omega) (by omega), hbyte 14 (by omega) (by omega),
    hbyte 15 (by omega) (by omega)]
  have hle := Lib.ofLe_leBytes (ws.getD n []).length 0 4
  simp only [Lib.leBytes, Nat.pow_zero, Nat.div_one] at hle
  exact hle.trans (Nat.mod_eq_of_lt (by omega))

/-- A byte typed goes behind the bytes of its argument. -/
theorem argsOf_push {ws : List (List UInt8)} {x : List UInt8} (b : UInt8) (hws : ws.length < 10) (hx : x.length < 8) :
    (argsOf (ws ++ [x])).push ws.length b = some (argsOf (ws ++ [x ++ [b]])) := by
  have hlen : (argsOf (ws ++ [x])).lenInfo ws.length = x.length := by
    rw [argsOf_lenInfo _ (by rw [getD_snoc, if_pos rfl]; omega), getD_snoc, if_pos rfl]
  unfold ArgsList.push
  rw [hlen, if_pos ⟨hws, by omega⟩]
  -- the byte is stored before `len_info`, so the length read back is the old one
  have hkept : ArgsList.lenInfo (Function.update (argsOf (ws ++ [x])) (20 * ws.length + x.length) b) ws.length =
      x.length := by
    refine Eq.trans ?_ hlen
    unfold ArgsList.lenInfo
    rw [Function.update_of_ne (by omega), Function.update_of_ne (by omega), Function.update_of_ne (by omega),
      Function.update_of_ne (by omega)]
  simp only [hkept]
  refine congrArg some (funext fun a => ?_)
  unfold ArgsList.setLenInfo argsOf
  rw [getD_snoc]
  by_cases hn : a / 20 = ws.length
  · rw [if_pos hn]
    by_cases hfield : 12 ≤ a % 20 ∧ a % 20 < 16
    · rw [if_pos (by omega), if_neg (by omega), if_pos hfield, List.length_append, List.length_singleton,
        show a - (20 * ws.length + 12) = a % 20 - 12 by omega]
    · rw [if_neg (by omega), if_neg hfield, getD_snoc]
      by_cases hlast : a = 20 * ws.length + x.length
      · rw [hlast, Function.update_self, if_pos (by omega), if_pos (by omega)]
      · rw [Function.update_of_ne hlast, getD_snoc, if_pos hn, if_neg hfield]
        by_cases hbyte : a % 20 < 8
        · rw [if_pos hbyte, if_pos hbyte, if_neg (by omega)]
        · rw [if_neg hbyte, if_neg hbyte]
  · rw [if_neg hn, if_neg (by omega), Function.update_of_ne (by omega), getD_snoc, if_neg hn]

/-! ## A word -/

section

variable {info : Nat → UInt8} {len : Nat} {ws : List (List UInt8)}

/-- The loop takes a word that ends at a space or at the end of the line; `x` are the bytes it has taken already. -/
theorem parseArg_word {w v : List UInt8} (hv : v = [] ∨ ∃ v', v = space :: v') : ∀ {p : Parse} {x : List UInt8},
    space ∉ w → 0 ∉ w → Reads info p.i (w ++ v) → p.buf = info p.i → p.neff = ws.length → p.args = argsOf (ws ++ [x]) →
    ws.length < 10 → x.length + w.length ≤ 8 →
    parseArg info (w ++ v).length p = some { p with
      i := p.i + w.length, buf := info (p.i + w.length), args := argsOf (ws ++ [x ++ w]) } := by
  induction w with
  | nil =>
    intro p x _ _ h hbuf _ hargs _ _
    have hsame : { p with i := p.i + 0, buf := info (p.i + 0), args := argsOf (ws ++ [x ++ []]) } = p := by
      rw [List.append_nil, ← hargs, Nat.add_zero, ← hbuf]
    obtain rfl | ⟨v', rfl⟩ := hv
    · exact congrArg some hsame.symm
    · rw [List.nil_append, List.length_cons]
      unfold parseArg
      rw [if_neg (fun hb => hb.1 (hbuf.trans h.1))]
      exact congrArg some hsame.symm
  | cons b w ih =>
    intro p x hsp hz h hbuf hneff hargs hws hlen
    obtain ⟨hb, hsp⟩ := not_or.mp (List.mem_cons.not.mp hsp)
    obtain ⟨hb0, hz⟩ := not_or.mp (List.mem_cons.not.mp hz)
    have hbyte : p.buf = b := hbuf.trans h.1
    rw [List.length_cons] at hlen
    have hpush : p.args.push p.neff p.buf = some (argsOf (ws ++ [x ++ [b]])) := by
      rw [hneff, hargs, hbyte]
      exact argsOf_push b hws (by omega)
    rw [List.cons_append, List.length_cons]
    unfold parseArg
    rw [if_pos (by rw [hbyte]; exact ⟨Ne.symm hb, Ne.symm hb0⟩), hpush, Option.bind_some]
    refine (ih (p := { p with args := argsOf (ws ++ [x ++ [b]]), i := p.i + 1, buf := info (p.i + 1) }) (x := x ++ [b])
      hsp hz h.2 rfl hneff rfl hws ?_).trans ?_
    · rw [List.length_append, List.length_singleton]
      omega
    · simp only [List.length_cons, Nat.add_assoc, Nat.add_comm 1, List.append_assoc, List.singleton_append]

/-- A whole word goes into the next argument. -/
theorem parseArg_next {w v : List UInt8} (hv : v = [] ∨ ∃ v', v = space :: v') {p : Parse} (hsp : space ∉ w) (hz : 0 ∉ w)
    (h : Reads info p.i (w ++ v)) (hbuf : p.buf = info p.i) (hneff : p.neff = ws.length) (hargs : p.args = argsOf ws)
    (hws : ws.length < 10) (hw : w.length ≤ 8) : parseArg info (w ++ v).length p = some { p with
      i := p.i + w.length, buf := info (p.i + w.length), args := argsOf (ws ++ [w]) } := by
  have hempty : p.args = argsOf (ws ++ [[]]) := hargs.trans (argsOf_snoc_nil ws).symm
  have hlen : ([] : List UInt8).length + w.length ≤ 8 := by rwa [List.length_nil, Nat.zero_add]
  exact parseArg_word hv hsp hz h hbuf hneff hempty hws hlen

/-! ## A line -/

/-- A space at the end of the line counts as one more argument. -/
def trailing (l : List UInt8) : Nat := if l.getLast? = some space then 1 else 0

theorem trailing_append {r : List UInt8} (l : List UInt8) (hr : r ≠ []) : trailing (l ++ r) = trailing r := by
  unfold trailing
  rw [List.getLast?_append_of_ne_nil _ hr]

theorem trailing_of_notMem {l : List UInt8} (h : space ∉ l) : trailing l = 0 :=
  if_neg fun hl => h (List.mem_of_getLast? hl)

/-- The arguments that go into `args_list`. -/
structure WordsFit (ws : List (List UInt8)) : Prop where
  count  : ws.length ≤ 10
  length : ∀ w ∈ ws, w.length ≤ 8

theorem WordsFit.left {vs : List (List UInt8)} (h : WordsFit (ws ++ vs)) : WordsFit ws := by
  have hcount := h.count
  rw [List.length_append] at hcount
  exact ⟨by omega, fun w hw => h.length w (List.mem_append_left _ hw)⟩

theorem wordsFit_snoc {w : List UInt8} (h : WordsFit ws) : WordsFit (ws ++ [w]) ↔ ws.length < 10 ∧ w.length ≤ 8 := by
  constructor
  · intro hsnoc
    have hcount := hsnoc.count
    rw [List.length_append, List.length_singleton] at hcount
    exact ⟨by omega, hsnoc.length w (by simp)⟩
  · rintro ⟨hcount, hlast⟩
    refine ⟨by rw [List.length_append, List.length_singleton]; omega, fun w' hw' => ?_⟩
    rcases List.mem_append.1 hw' with hw' | hw'
    · exact h.length w' hw'
    · rw [List.mem_singleton.1 hw']
      exact hlast

theorem parseLine_stop (n : Nat) {p : Parse} (h : len ≤ p.i) : parseLine info len n p = some p := by
  cases n with
  | zero => rfl
  | succ n => exact if_neg (Nat.not_lt.mpr h)

/-- Where a round stands before its third loop: the flag is `isArgs`. -/
def roundStart (info : Nat → UInt8) (len : Nat) (p : Parse) : Parse × Bool :=
  findLetter info (len - (findSpace info (len - p.i) p).i) (findSpace info (len - p.i) p) false

theorem parseLine_round {n : Nat} {p : Parse} (h : p.i < len) : parseLine info len (n + 1) p =
    (parseArg info (len - (roundStart info len p).1.i) (roundStart info len p).1).bind fun q =>
      parseLine info len n (if (roundStart info len p).2 then { q with neff := q.neff + 1 } else q) := if_pos h

/-- The first word is all there is. -/
theorem roundStart_end {p : Parse} {u : List UInt8} (hu : space ∉ u) (h : Reads info p.i u) (hlen : p.i + u.length = len) :
    ∃ b, roundStart info len p = ({ p with i := len, buf := b }, false) := by
  obtain ⟨b, hb⟩ := findSpace_end hu h
  refine ⟨b, ?_⟩
  unfold roundStart
  rw [show len - p.i = u.length by omega, hb, hlen]
  dsimp only
  rw [Nat.sub_self]
  rfl

/-- The round stands in front of a word, `w`, or at the end of the line. -/
theorem roundStart_space {p : Parse} {u v : List UInt8} (hu : space ∉ u) (h : Reads info p.i (u ++ space :: v))
    (hlen : p.i + (u ++ space :: v).length = len) : ∃ i b,
    roundStart info len p =
      ({ p with i := i, buf := b, firstSpace := some (p.firstSpace.getD (p.i + u.length)) }, true) ∧ p.i < i ∧
    (i = len ∧ words space (space :: v) = [] ∧ trailing (space :: v) = 1 ∨
      ∃ w r, w ≠ [] ∧ space ∉ w ∧ (r = [] ∨ ∃ r', r = space :: r') ∧ w ++ r ⊆ space :: v ∧
        words space (space :: v) = w :: words space r ∧ trailing (space :: v) = trailing r ∧
        b = info i ∧ Reads info i (w ++ r) ∧ i + (w ++ r).length = len) := by
  have hrest := h.right
  rw [List.length_append, List.length_cons] at hlen
  obtain ⟨m, r, hgap, hr⟩ := Lib.exists_gap space (space :: v)
  have hm : m ≠ 0 := by
    rintro rfl
    obtain rfl | ⟨a, r', rfl, ha⟩ := hr
    · cases hgap
    · exact ha (List.cons.inj hgap).1.symm
  have hlens := congrArg List.length hgap
  rw [List.length_cons, List.length_append, List.length_replicate] at hlens
  have hwords : words space (space :: v) = words space r := by rw [hgap, Lib.words_replicate_append]
  rw [hgap] at hrest
  unfold roundStart
  rw [show len - p.i = (u ++ space :: v).length by simp; omega, findSpace_word hu h]
  dsimp only
  obtain rfl | ⟨a, r', rfl, ha⟩ := hr
  · obtain ⟨k, rfl⟩ := Nat.exists_eq_succ_of_ne_zero hm
    rw [List.append_nil] at hrest hgap
    rw [List.length_nil] at hlens
    have htrail : trailing (space :: v) = 1 := by
      rw [hgap]
      simp [trailing, List.getLast?_replicate]
    refine ⟨p.i + u.length + (k + 1), space, ?_, by omega, .inl ⟨by omega, hwords, htrail⟩⟩
    rw [show len - (p.i + u.length) = k + 1 by omega]
    exact findLetter_end k rfl hrest
  · obtain ⟨w, r₂, hw, hsp, hr₂⟩ := Lib.exists_word space (a :: r')
    have hne : w ≠ [] := by
      rintro rfl
      obtain rfl | ⟨v', rfl⟩ := hr₂
      · cases hw
      · exact ha (List.cons.inj hw).1
    have htrail : trailing (space :: v) = trailing r₂ := by
      rw [hgap, hw]
      by_cases hnil : r₂ = []
      · subst hnil
        rw [List.append_nil, trailing_append _ hne, trailing_of_notMem hsp]
        rfl
      · rw [← List.append_assoc, trailing_append _ hnil]
    have hread := hrest.right
    rw [List.length_replicate] at hread
    refine ⟨p.i + u.length + m, a, ?_, by omega, .inr ⟨w, r₂, hne, hsp, hr₂, ?_, ?_, htrail, hread.1.symm, ?_, ?_⟩⟩
    · rw [show len - (p.i + u.length) = (List.replicate m space ++ a :: r').length by
        rw [List.length_append, List.length_replicate]
        omega]
      exact findLetter_gap ha m rfl hrest
    · rw [hgap, hw]
      exact List.subset_append_right ..
    · rw [hwords, hw, Lib.words_word_append hne hsp hr₂]
    · rwa [← hw]
    · rw [← hw]
      omega

/-- From a place in the first word, or from a space after it, to the end of the line. -/
theorem parseLine_words : ∀ (n : Nat) (ws : List (List UInt8)) {p : Parse} {u l : List UInt8}, space ∉ u →
    (l = [] ∨ ∃ v, l = space :: v) → 0 ∉ l → Reads info p.i (u ++ l) → p.i + (u ++ l).length = len → len ≤ n + p.i →
    p.neff = ws.length → p.args = argsOf ws → WordsFit (ws ++ words space l) →
    ∃ b, parseLine info len n p = some
      { i := len
        buf := b
        firstSpace := if l = [] then p.firstSpace else some (p.firstSpace.getD (p.i + u.length))
        neff := ws.length + (words space l).length + trailing l
        args := argsOf (ws ++ words space l) } := by
  intro n
  induction n with
  | zero =>
    intro ws p u l _ _ _ _ hlen hn hneff hargs _
    -- nothing is left
    rw [List.length_append] at hlen
    have hl : l = [] := List.eq_nil_of_length_eq_zero (by omega)
    subst hl
    refine ⟨p.buf, ?_⟩
    simp [parseLine, trailing, ← hneff, ← hargs, show len = p.i by omega]
  | succ n ih =>
    intro ws p u l hu hl hz h hlen hn hneff hargs hfit
    obtain rfl | ⟨v, rfl⟩ := hl
    · rw [List.append_nil] at h hlen
      by_cases hin : p.i < len
      · obtain ⟨b, hb⟩ := roundStart_end hu h hlen
        rw [parseLine_round hin, hb]
        dsimp only
        rw [Nat.sub_self, parseArg, Option.bind_some, if_neg Bool.false_ne_true, parseLine_stop n (by dsimp only; omega)]
        exact ⟨b, by simp [trailing, ← hneff, ← hargs]⟩
      · rw [parseLine_stop _ (Nat.le_of_not_lt hin)]
        exact ⟨p.buf, by simp [trailing, ← hneff, ← hargs, show len = p.i by omega]⟩
    · have hin : p.i < len := by
        rw [List.length_append, List.length_cons] at hlen
        omega
      obtain ⟨i, b, hb, hi, ⟨rfl, hwords, htrail⟩ | ⟨w, r, hne, hsp, hr, hsub, hwords, htrail, rfl, hread, hend⟩⟩ :=
        roundStart_space hu h hlen
      · -- only spaces are left
        rw [parseLine_round hin, hb]
        dsimp only
        rw [Nat.sub_self, parseArg, Option.bind_some, if_pos rfl, parseLine_stop n (by dsimp only; omega), hwords, htrail]
        exact ⟨b, by simp [← hneff, ← hargs]⟩
      · rw [hwords] at hfit ⊢
        have hwpos : 0 < w.length := List.length_pos_of_ne_nil hne
        have hfit' : WordsFit (ws ++ [w]) := by
          rw [List.append_cons] at hfit
          exact hfit.left
        obtain ⟨hcount, hlast⟩ := (wordsFit_snoc hfit'.left).1 hfit'
        rw [parseLine_round hin, hb]
        dsimp only
        rw [show len - i = (w ++ r).length by omega]
        have hword := parseArg_next hr
          (p := { p with i := i, buf := info i, firstSpace := some (p.firstSpace.getD (p.i + u.length)) }) hsp
          (fun h0 => hz (hsub (List.mem_append_left _ h0))) hread rfl hneff hargs hcount hlast
        rw [hword, Option.bind_some, if_pos rfl]
        rw [List.length_append] at hend
        obtain ⟨b', hb'⟩ := ih (ws ++ [w]) (u := []) (l := r)
          (p := { p with
            i := i + w.length, buf := info (i + w.length), neff := p.neff + 1, args := argsOf (ws ++ [w])
            firstSpace := some (p.firstSpace.getD (p.i + u.length)) })
          List.not_mem_nil hr (fun h0 => hz (hsub (List.mem_append_right _ h0))) hread.right
          (by dsimp only [List.nil_append]; omega) (by dsimp only; omega) (by simp [hneff]) rfl
          (by rw [List.append_assoc]; exact hfit)
        refine ⟨b', hb'.trans (congrArg some ?_)⟩
        simp [htrail]
        omega

end

/-! ## The whole of `get_command` -/

/-- The words after the first space. -/
def argumentWords (line : List UInt8) : List (List UInt8) := words space (line.drop (line.idxOf space + 1))

/-- The line is in the command, its first word is marked off, and every argument has one of the words after it. -/
structure Parsed (l : List UInt8) (command : CommandStruct) (args : ArgsList) : Prop where
  info         : ∀ j (h : j < l.length), command.info j = l[j]
  lenInfo      : command.lenInfo = l.idxOf space
  argLenInfo   : ∀ k < 10, args.lenInfo k = ((argumentWords l).getD k []).length
  argInfo      : ∀ k < 10, ∀ j < 8, args (20 * k + j) = ((argumentWords l).getD k []).getD j 0
  argumentNeff : command.argumentNeff = (argumentWords l).length + trailing l

theorem zero_notMem_editLine {line : List UInt8} (h : 0 ∉ line) (key : UInt8) : 0 ∉ editLine line key := by
  unfold editLine
  split
  · exact h
  next hkey =>
    split
    · exact fun hmem => h (List.dropLast_subset line hmem)
    · simpa [h] using Ne.symm hkey

theorem zero_notMem_typedLine (keys : List UInt8) : 0 ∉ typedLine keys :=
  List.foldlRecOn (motive := fun line => 0 ∉ line) keys editLine List.not_mem_nil fun _ h key _ => zero_notMem_editLine h key

/-- The first word and what comes after it. -/
theorem argumentWords_append {u l : List UInt8} (hu : space ∉ u) (hl : l = [] ∨ ∃ v, l = space :: v) :
    (u ++ l).idxOf space = u.length ∧ argumentWords (u ++ l) = words space l := by
  have hidx : (u ++ l).idxOf space = u.length := by
    rw [List.idxOf_append_of_notMem hu]
    obtain rfl | ⟨v, rfl⟩ := hl
    · rfl
    · rw [List.idxOf_cons_self, Nat.add_zero]
  refine ⟨hidx, ?_⟩
  unfold argumentWords
  rw [hidx, ← List.drop_drop, List.drop_left]
  obtain rfl | ⟨v, rfl⟩ := hl
  · rfl
  · rw [List.drop_one, List.tail_cons, Lib.words_cons_self]

/-- A line in the command is parsed. -/
theorem HoldsLine.parseCommand {c : CommandStruct} {line : List UInt8} (h : HoldsLine c line) (hz : 0 ∉ line)
    (hfit : WordsFit (argumentWords line)) :
    ∃ command args, MoggersOs.parseCommand c = some (command, args) ∧ Parsed line command args := by
  obtain ⟨u, l, rfl, hu, hl⟩ := Lib.exists_word space line
  obtain ⟨hidx, hwords⟩ := argumentWords_append hu hl
  rw [hwords] at hfit
  have hread : Reads c.info Parse.start.i (u ++ l) := reads_of_get fun j hj => by
    rw [show Parse.start.i + j = j from Nat.zero_add j]
    exact h.info j hj
  obtain ⟨b, hb⟩ := parseLine_words c.lenInfo [] (p := .start) hu hl (fun h0 => hz (List.mem_append_right _ h0))
    hread ((Nat.zero_add _).trans h.lenInfo.symm) (Nat.le_refl _) rfl argsOf_nil.symm hfit
  have htrail : trailing (u ++ l) = trailing l := by
    by_cases hnil : l = []
    · rw [hnil, List.append_nil, trailing_of_notMem hu]
      rfl
    · exact trailing_append u hnil
  have hlen : ∀ k, ((words space l).getD k []).length ≤ 8 := by
    intro k
    rw [List.getD_eq_getElem?_getD]
    cases hk : (words space l)[k]? with
    | none => exact Nat.zero_le 8
    | some w => exact hfit.length w (List.mem_of_getElem? hk)
  unfold MoggersOs.parseCommand
  rw [hb, Option.map_some]
  refine ⟨_, _, rfl, h.info, ?_, fun k _ => ?_, fun k _ j hj => ?_, ?_⟩
  · obtain rfl | ⟨v, rfl⟩ := hl
    · rw [hidx]
      simpa [Parse.start] using h.lenInfo
    · rw [hidx]
      simp [Parse.start]
  · rw [hwords]
    exact argsOf_lenInfo _ (hlen k)
  · rw [hwords]
    exact argsOf_byte _ k hj
  · rw [hwords, htrail]
    exact congrArg (· + trailing l) (Nat.zero_add _)

/-- A key adds one character at most. -/
theorem foldl_editLine_length (keys : List UInt8) : ∀ line : List UInt8,
    (keys.foldl editLine line).length ≤ line.length + keys.length := by
  induction keys with
  | nil => exact fun _ => Nat.le_refl _
  | cons key keys ih =>
    intro line
    have hle := ih (editLine line key)
    have hstep : (editLine line key).length ≤ line.length + 1 := by
      unfold editLine
      split
      · exact Nat.le_succ _
      · split
        · simp only [List.length_dropLast]
          omega
        · simp
    rw [List.foldl_cons, List.length_cons]
    omega

theorem typedLine_length_le {keys pre : List UInt8} (h : pre <+: keys) : (typedLine pre).length ≤ keys.length :=
  (foldl_editLine_length pre []).trans (by simpa using h.length_le)

/-- **Command line parsing**: for any keys before the newline, polls without a key among them, as long as the line and
its arguments fit. -/
theorem get_command_parses {garbage : UInt8} {keys : List UInt8} (hgarbage : garbage ≠ newline) (hkeys : newline ∉ keys)
    (hroom : ∀ pre, pre <+: keys → (typedLine pre).length ≤ 2047)
    (hcount : (argumentWords (typedLine keys)).length + trailing (typedLine keys) ≤ 10)
    (hlength : ∀ w ∈ argumentWords (typedLine keys), w.length ≤ 8) :
    ∃ command args, getCommand garbage (keys ++ [newline]) = some (command, args) ∧
      Parsed (typedLine keys) command args := by
  have hzero : HoldsLine .zero [] := ⟨rfl, fun j hj => absurd hj (Nat.not_lt_zero j), rfl⟩
  obtain ⟨c, hc, hline⟩ := hzero.readLine hgarbage hkeys (roomFor_of_forall hroom)
  rw [getCommand_eq hc]
  exact hline.parseCommand (zero_notMem_typedLine keys) ⟨Nat.le_trans (Nat.le_add_right ..) hcount, hlength⟩

/-- `cp x`, a backspace, `a`, two spaces and `b`. -/
def editedKeys : List UInt8 := [99, 112, 32, 120, 8, 97, 32, 32, 98]

theorem get_command_parses_edited :
    ∃ command args, getCommand 0 (editedKeys ++ [newline]) = some (command, args) ∧ Parsed (typedLine editedKeys) command args := by
  have hwords : argumentWords (typedLine editedKeys) = [[97], [98]] := by decide +kernel
  refine get_command_parses (by decide) (by decide) (fun pre hpre => ?_) ?_ ?_
  · exact (typedLine_length_le hpre).trans (by decide)
  · rw [hwords]
    decide
  · rw [hwords]
    decide

end MoggersOs
