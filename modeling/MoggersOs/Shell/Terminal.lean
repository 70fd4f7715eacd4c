import MoggersOs.Devices.Display
import MoggersOs.Shell.Listing
import MoggersOs.Shell.Parsing
/-
# The prompt and the line that is typed (`user_mode/user-shell.c`)

The shell echoes a key and edits `command->info` in two places, and each has its own idea of where the line begins and
ends: on the screen it is the column, in the buffer `len_info`. They agree as long as the line does not reach the last
columns: from the 77th character on the cursor is in the next row, where a backspace finds column 0 and takes nothing
from the screen. With at most 76 characters the screen shows the line that is parsed (`Echoes.echoLine`), behind a prompt
that names the directory of the shell (`session_prompt`).

| here | there |
| --- | --- |
| `handleKeyboardInput` | `handle_keyboard_input` (`user-shell.c:75-86`); `atZero` is the byte at address 0 of the process, which a backspace prints before the cell is cleared |
| `echoLine`            | what `get_command` does to the screen (`user-shell.c:91-112`, `163-168`) |
| `pathString`          | `path` in `print_template` (`user-shell.c:182-191`) |
| `printTemplate`       | `print_template` (`user-shell.c:171-207`) |
| `Echoes`, `Prompted`  | the line on the screen while it is typed and afterwards |
-/

namespace MoggersOs

def biosWhite : UInt32 := 0xF

def handleKeyboardInput (atZero buf : UInt8) (d : Display) : Display :=
  let d :=
    if buf = backspace then
      if 3 < d.screen.cursor.col then
        let s := { d.screen with cursor := ⟨d.screen.cursor.row, d.screen.cursor.col - 1⟩ }
        { d with screen := (putchar atZero biosWhite s).2 }
      else d
    else
      let s := (putchar buf biosWhite d.screen).2
      { d with screen := { s with cursor := ⟨s.cursor.row, s.cursor.col + 1⟩ } }
  moveTextCursor d.screen.cursor.row.toUInt32.toUInt16 d.screen.cursor.col.toUInt32.toUInt16 biosWhite d

/-- `cursor_position.col = 0; cursor_position.row++`. -/
def Screen.nextRow (s : Screen) : Screen := { s with cursor := ⟨s.cursor.row + 1, 0⟩ }

def Display.nextRow (d : Display) : Display := { d with screen := d.screen.nextRow }

/-- As `readLine` goes through the keys; the clean up at the end goes to the next row. -/
def echoLine (atZero buf : UInt8) : List UInt8 → Display → Option Display
  | [], d => if buf = newline then some d.nextRow else none
  | key :: keys, d =>
    if buf = newline then some d.nextRow
    else if key ≠ 0 ∧ key ≠ newline then echoLine atZero key keys (handleKeyboardInput atZero key d)
    else echoLine atZero key keys d

/-- The bytes of a name that `len_info` counts. -/
def Arg.shown (a : Arg) : List UInt8 := ((List.finRange 8).take a.lenInfo).map a.info

def pathString (path : List Arg) : List UInt8 := path.flatMap fun a => a.shown ++ [slash]

/-- `Moggers@OS-IF2230`. -/
def banner : List UInt8 :=
  [77, 111, 103, 103, 101, 114, 115, 64, 79, 83, 45, 73, 70, 50, 50, 51, 48]

def colon : List UInt8 := [58]

/-- `:$ `. -/
def promptText : List UInt8 := [58, 36, 32]

/-- `garbage` is what lies behind the texts. -/
def printTemplate (garbage : ℕ → UInt8) (path : List Arg) (d : Display) : Display :=
  let s := (puts (Lib.overlay 0 banner garbage) ⟨17, 0xA⟩ d.screen).2
  let s := (puts (Lib.overlay 0 colon garbage) ⟨1, biosWhite⟩ s).2
  let index := (pathString path).length
  let s := (puts (Lib.overlay 0 (pathString path) garbage) ⟨UInt32.ofNat index - 1, 0xC⟩ s).2
  let s := (puts (Lib.overlay 0 promptText garbage) ⟨3, 0x7⟩ s.nextRow).2
  moveTextCursor s.cursor.row.toUInt32.toUInt16 s.cursor.col.toUInt32.toUInt16 biosWhite { d with screen := s }

/-! ## The line on the screen -/

def blankCell : Cell := textCell biosWhite ' '.toUInt8

/-- The line, and the cells that the cursor has cleared behind it. -/
def lineCells (line : List UInt8) (m : ℕ) : List Cell := line.map (textCell biosWhite) ++ List.replicate m blankCell

/-- Behind the prompt in row `r` the screen shows the line, and the cursor behind it; `f` is what the screen showed
without them. -/
structure Echoes (r : ℕ) (line : List UInt8) (f : ℕ → Cell) (d : Display) : Prop where
  row   : d.screen.cursor.row.toInt = r
  col   : d.screen.cursor.col.toInt = 3 + line.length
  cells : ∃ m, 1 ≤ m ∧ line.length + m ≤ 77 ∧ d.cells = Lib.overlay (80 * r + 3) (lineCells line m) f
  shown : d.shown = 80 * r + 3 + line.length

theorem lineCells_length (line : List UInt8) (m : ℕ) : (lineCells line m).length = line.length + m := by
  simp [lineCells]

/-- A character in place of the first cleared cell. -/
theorem lineCells_set (line : List UInt8) (m : ℕ) (b : UInt8) :
    (lineCells line (m + 1)).set line.length (textCell biosWhite b) = lineCells (line ++ [b]) m := by
  unfold lineCells
  rw [List.set_append_right _ _ (by simp), List.length_map, Nat.sub_self, List.replicate_succ, List.set_cons_zero,
    List.map_append, List.append_assoc]
  rfl

/-- The first cleared cell is cleared again. -/
theorem lineCells_blank (line : List UInt8) (m : ℕ) :
    (lineCells line (m + 1)).set line.length blankCell = lineCells line (m + 1) := by
  unfold lineCells
  rw [List.set_append_right _ _ (by simp), List.length_map, Nat.sub_self, List.replicate_succ, List.set_cons_zero]

/-- The last character is cleared. -/
theorem lineCells_clear (line : List UInt8) (m : ℕ) (b : UInt8) :
    (lineCells (line ++ [b]) m).set line.length blankCell = lineCells line (m + 1) := by
  rw [← lineCells_set, List.set_set]
  exact lineCells_blank line m

theorem toInt_pred {x : Int32} (h : 0 < x.toInt) : (x - 1).toInt = x.toInt - 1 := by
  have hhigh := x.toInt_lt
  rw [Int32.toInt_sub]
  exact Int.bmod_eq_of_le (by simp; omega) (by simp; omega)

/-- `move_text_cursor` makes the line end where the cursor is. -/
theorem echoes_move {r : ℕ} {line : List UInt8} {f : ℕ → Cell} {d : Display} {l : List Cell} {m : ℕ} (hr : r < 25)
    (hrow : d.screen.cursor.row.toInt = r) (hcol : d.screen.cursor.col.toInt = 3 + line.length) (hm : 1 ≤ m)
    (hle : line.length + m ≤ 77) (hcells : d.cells = Lib.overlay (80 * r + 3) l f)
    (hl : Function.update (Lib.overlay (80 * r + 3) l f) (80 * r + 3 + line.length) blankCell =
      Lib.overlay (80 * r + 3) (lineCells line m) f) :
    Echoes r line f (moveTextCursor d.screen.cursor.row.toUInt32.toUInt16 d.screen.cursor.col.toUInt32.toUInt16 biosWhite d) := by
  have hc : d.screen.cursor.InRow := ⟨by omega, by omega, by omega⟩
  have hindex : d.screen.cursor.index = 80 * r + 3 + line.length := by
    unfold Cp.index
    omega
  obtain ⟨hcursor, hcells', hshown⟩ := moveTextCursor_cells (d := d) biosWhite hc (by omega)
  refine ⟨?_, ?_, ⟨m, hm, hle, ?_⟩, hshown.trans hindex⟩
  · rw [hcursor, hrow]
  · rw [hcursor, hcol]
  · rw [hcells', hindex, hcells]
    exact hl

/-- A cell of the line is stored to. -/
theorem update_lineCells {i k : ℕ} {line line' : List UInt8} {m m' : ℕ} {f : ℕ → Cell} {x : Cell}
    (hk : k < line.length + m) (hset : (lineCells line m).set k x = lineCells line' m') :
    Function.update (Lib.overlay i (lineCells line m) f) (i + k) x = Lib.overlay i (lineCells line' m') f := by
  rw [← hset]
  exact Lib.update_overlay_set (by rwa [lineCells_length])

namespace Echoes

variable {r : ℕ} {line : List UInt8} {f : ℕ → Cell} {d : Display}

theorem inRow (h : Echoes r line f d) (hlen : line.length ≤ 76) :
    d.screen.cursor.InRow ∧ d.screen.cursor.index = 80 * r + 3 + line.length := by
  obtain ⟨hrow, hcol, -, -⟩ := h
  refine ⟨⟨by omega, by omega, by omega⟩, ?_⟩
  unfold Cp.index
  omega

/-- A backspace in front of the first character. -/
theorem backspace_nil (hr : r < 25) (h : Echoes r [] f d) (atZero : UInt8) :
    Echoes r [] f (handleKeyboardInput atZero backspace d) := by
  obtain ⟨hrow, hcol, ⟨m, hm, hle, hcells⟩, -⟩ := h
  obtain ⟨k, rfl⟩ := Nat.exists_eq_succ_of_ne_zero (Nat.ne_of_gt hm)
  have hstay : ¬ 3 < d.screen.cursor.col := by
    rw [Int32.lt_iff_toInt_lt, hcol]
    decide
  unfold handleKeyboardInput
  rw [if_pos rfl, if_neg hstay]
  exact echoes_move hr hrow hcol hm hle hcells
    (update_lineCells (Nat.lt_add_left _ (Nat.succ_pos k)) (lineCells_blank [] k))

/-- A backspace takes the last character from the screen. -/
theorem backspace_snoc {b : UInt8} (hr : r < 25) (h : Echoes r (line ++ [b]) f d) (hlen : line.length ≤ 75) (atZero : UInt8) :
    Echoes r line f (handleKeyboardInput atZero backspace d) := by
  obtain ⟨hrow, hcol, ⟨m, hm, hle, hcells⟩, -⟩ := h
  have hline : (line ++ [b]).length = line.length + 1 := List.length_append
  rw [hline] at hcol hle
  push_cast at hcol
  have hmove : 3 < d.screen.cursor.col := by
    rw [Int32.lt_iff_toInt_lt, hcol]
    exact (by omega : (3 : ℤ) < 3 + (line.length + 1))
  have hleft : (d.screen.cursor.col - 1).toInt = 3 + line.length := by
    rw [toInt_pred (by omega), hcol]
    omega
  unfold handleKeyboardInput
  rw [if_pos rfl, if_pos hmove]
  -- `s` is the screen with the cursor on the character
  obtain ⟨s, hs⟩ : ∃ s : Screen, s = { d.screen with cursor := ⟨d.screen.cursor.row, d.screen.cursor.col - 1⟩ } := ⟨_, rfl⟩
  rw [← hs]
  dsimp only
  have hsrow : s.cursor.row.toInt = r := by rw [hs, hrow]
  have hscol : s.cursor.col.toInt = 3 + line.length := by rw [hs, hleft]
  have hscells : s.framebuffer.cell = d.cells := by rw [hs]; rfl
  have hindex : s.cursor.index = 80 * r + 3 + line.length := by
    unfold Cp.index
    omega
  obtain ⟨hcur, hput⟩ := putchar_cells atZero biosWhite (s := s) ⟨by omega, by omega, by omega⟩ (by omega) (by omega)
  generalize (putchar atZero biosWhite s).2 = s₁ at hcur hput
  refine @echoes_move r line f { d with screen := s₁ } ((lineCells (line ++ [b]) m).set line.length (textCell biosWhite atZero))
    (m + 1) hr ?_ ?_ (Nat.le_add_left 1 m) (by omega) ?_ ?_
  · rw [← hsrow, ← hcur]
  · rw [← hscol, ← hcur]
  · refine Eq.trans hput ?_
    rw [hscells, hcells, hindex]
    exact Lib.update_overlay_set (by rw [lineCells_length, hline]; omega)
  · rw [Lib.update_overlay_set (by rw [List.length_set, lineCells_length, hline]; omega), List.set_set, lineCells_clear]

/-- A character is shown behind the line. -/
theorem char {b : UInt8} (hb : b ≠ backspace) (hr : r < 25) (h : Echoes r line f d) (hlen : line.length ≤ 75)
    (atZero : UInt8) : Echoes r (line ++ [b]) f (handleKeyboardInput atZero b d) := by
  obtain ⟨hc, hindex⟩ := h.inRow (Nat.le_succ_of_le hlen)
  obtain ⟨hrow, hcol, ⟨m, hm, hle, hcells⟩, -⟩ := h
  obtain ⟨k, rfl⟩ := Nat.exists_eq_succ_of_ne_zero (Nat.ne_of_gt hm)
  have hline : (line ++ [b]).length = line.length + 1 := List.length_append
  obtain ⟨hcur, hput⟩ := putchar_cells b biosWhite hc (by omega) (by omega)
  unfold handleKeyboardInput
  rw [if_neg hb]
  dsimp only
  generalize (putchar b biosWhite d.screen).2 = s₁ at hcur hput
  have hright : (s₁.cursor.col + 1).toInt = 3 + (line ++ [b]).length := by
    rw [hcur, toInt_succ (by omega), hcol, hline]
    push_cast
    omega
  have hcells₁ : s₁.framebuffer.cell = Lib.overlay (80 * r + 3) (lineCells (line ++ [b]) k) f := by
    rw [hput, hindex, show d.screen.framebuffer.cell = _ from hcells]
    exact update_lineCells (by omega) (lineCells_set line k b)
  refine echoes_move (d := { d with screen := { s₁ with cursor := ⟨s₁.cursor.row, s₁.cursor.col + 1⟩ } })
    (m := max k 1) hr ?_ hright (Nat.le_max_right k 1) (by omega) hcells₁ ?_
  · rw [← hrow, ← hcur]
  · cases k with
    | zero =>
      -- one cell behind the line was cleared, and the cursor clears the next
      have hfull : (lineCells (line ++ [b]) 0).length = (line ++ [b]).length := lineCells_length _ 0
      rw [← hfull, Lib.update_overlay_snoc]
      simp [lineCells]
    | succ k =>
      rw [Nat.max_eq_left (Nat.succ_pos k)]
      exact update_lineCells (Nat.lt_add_of_pos_right (Nat.succ_pos k)) (lineCells_blank (line ++ [b]) k)

/-- **One key.** -/
theorem key {key : UInt8} (hkey : key ≠ 0) (hr : r < 25) (h : Echoes r line f d) (hlen : line.length ≤ 76)
    (hlen' : (editLine line key).length ≤ 76) (atZero : UInt8) :
    Echoes r (editLine line key) f (handleKeyboardInput atZero key d) := by
  unfold editLine at hlen' ⊢
  rw [if_neg hkey] at hlen' ⊢
  by_cases hb : key = backspace
  · subst hb
    rw [if_pos rfl]
    rcases List.eq_nil_or_concat line with rfl | ⟨line, b, rfl⟩
    · exact h.backspace_nil hr atZero
    · rw [List.concat_eq_append] at h hlen ⊢
      rw [List.dropLast_concat]
      rw [List.length_append, List.length_singleton] at hlen
      exact h.backspace_snoc hr (Nat.le_of_succ_le_succ hlen) atZero
  · rw [if_neg hb] at hlen' ⊢
    rw [List.length_append, List.length_singleton] at hlen'
    exact h.char hb hr (Nat.le_of_succ_le_succ hlen') atZero

/-- **The keys of a line**, as `readLine` goes through them. -/
theorem echoLine (atZero : UInt8) {keys : List UInt8} (hr : r < 25) : ∀ {buf : UInt8} {line : List UInt8} {d : Display},
    buf ≠ newline → newline ∉ keys → (∀ pre, pre <+: keys → (pre.foldl editLine line).length ≤ 76) → Echoes r line f d →
    ∃ d₁, Echoes r (keys.foldl editLine line) f d₁ ∧
      MoggersOs.echoLine atZero buf (keys ++ [newline]) d = some d₁.nextRow := by
  induction keys with
  | nil =>
    intro buf line d hbuf _ _ h
    refine ⟨d, h, ?_⟩
    simp [MoggersOs.echoLine, hbuf]
  | cons key keys ih =>
    intro buf line d hbuf hkeys hroom h
    obtain ⟨hkey, hkeys⟩ := not_or.mp (List.mem_cons.not.mp hkeys)
    have hroom' : ∀ pre, pre <+: keys → (pre.foldl editLine (editLine line key)).length ≤ 76 :=
      fun pre hpre => hroom (key :: pre) (List.cons_prefix_cons.mpr ⟨rfl, hpre⟩)
    rw [List.cons_append, List.foldl_cons]
    unfold MoggersOs.echoLine
    rw [if_neg hbuf]
    by_cases hzero : key = 0
    · have hsame : editLine line key = line := if_pos hzero
      rw [hsame] at hroom' ⊢
      rw [if_neg fun hk => hk.1 hzero]
      exact ih (Ne.symm hkey) hkeys hroom' h
    · rw [if_pos ⟨hzero, Ne.symm hkey⟩]
      exact ih (Ne.symm hkey) hkeys hroom' (h.key hzero hr (hroom [] List.nil_prefix) (hroom' [] List.nil_prefix) atZero)

end Echoes

/-! ## The prompt -/

/-- From cell `i` on the screen shows `c`, and the cursor behind it. -/
structure Screen.Shows (i : ℕ) (c : List Cell) (f : ℕ → Cell) (s : Screen) : Prop where
  inRow : s.cursor.InRow
  index : s.cursor.index = i + c.length
  cells : s.framebuffer.cell = Lib.overlay i c f

namespace Screen.Shows

variable {i : ℕ} {c : List Cell} {f : ℕ → Cell} {s : Screen}

/-- `puts` of a text that is in memory. -/
theorem puts (h : s.Shows i c f) {l t : List UInt8} (garbage : ℕ → UInt8) {p : PutsExtraAttribute}
    (hp : p.count.toNat = t.length) (ht : t <+: l) (hfit : i + c.length + t.length ≤ 2000) :
    (MoggersOs.puts (Lib.overlay 0 l garbage) p s).2.Shows i (c ++ t.map (textCell p.textColor)) f := by
  obtain ⟨hc, hindex, hcells⟩ := h
  obtain ⟨hrow, hindex', hcells'⟩ := puts_cells (Lib.overlay 0 l garbage) p hc (by omega)
  have htext : (List.range p.count.toNat).map (fun k => textCell p.textColor (Lib.overlay 0 l garbage k)) =
      t.map (textCell p.textColor) := by
    refine List.ext_getElem (by simpa using hp) fun k hk hk' => ?_
    rw [List.length_map] at hk'
    have hlt : k < l.length := hk'.trans_le ht.length_le
    have hget : Lib.overlay 0 l garbage (0 + k) = l[k] := Lib.overlay_get hlt
    rw [Nat.zero_add] at hget
    rw [List.getElem_map, List.getElem_range, List.getElem_map, hget, ht.getElem hk']
  refine ⟨hrow, ?_, ?_⟩
  · rw [hindex', hindex, hp, List.length_append, List.length_map]
    omega
  · rw [hcells', htext, hindex, hcells, Lib.overlay_append]

theorem place (h : s.Shows i c f) : s.cursor.row.toInt = ((i + c.length) / 80 : ℕ) ∧
    s.cursor.col.toInt = ((i + c.length) % 80 : ℕ) := by
  obtain ⟨⟨hrow, hcol, hedge⟩, hindex, -⟩ := h
  rw [← hindex]
  unfold Cp.index
  omega

theorem nextRow (h : s.Shows i c f) (hlt : i + c.length < 2000) :
    s.nextRow.Shows (80 * ((i + c.length) / 80 + 1)) [] (Lib.overlay i c f) := by
  obtain ⟨hrow, -⟩ := h.place
  have hnext : s.nextRow.cursor.row.toInt = s.cursor.row.toInt + 1 := toInt_succ (by omega)
  have hstart : s.nextRow.cursor.AtStart := ⟨by omega, rfl⟩
  refine ⟨hstart.inRow, ?_, ?_⟩
  · rw [hstart.index, List.length_nil]
    omega
  · rw [Lib.overlay_nil]
    exact h.cells

end Screen.Shows

theorem CdEntry.shown {a : Arg} (h : CdEntry a) : a.shown = nameText a.name := by
  obtain ⟨garbage, rfl⟩ | ⟨w, rfl⟩ := h
  · rfl
  · rw [w.arg_name]
    exact w.arg_bytes.trans (Option.some.inj (w.text.symm.trans (Arg.text_of_ext rfl)))

/-- A `/` stands behind every name. -/
theorem pathString_eq {path : List Arg} (h : ∀ a ∈ path, CdEntry a) (hne : path ≠ []) :
    pathString path = joined (path.map Arg.name) ++ [slash] := by
  induction path with
  | nil => exact absurd rfl hne
  | cons a path ih =>
    obtain ⟨ha, hpath⟩ := List.forall_mem_cons.1 h
    unfold pathString joined at ih ⊢
    rw [List.flatMap_cons, List.map_cons, List.map_cons, ha.shown]
    by_cases hnil : path = []
    · subst hnil
      rw [List.flatMap_nil, List.append_nil, List.map_nil, List.map_nil, List.intercalate_singleton]
    · rw [ih hpath hnil, List.intercalate_cons_of_ne_nil (by simpa using hnil)]
      simp only [List.append_assoc]

/-- Who and where: the path without its last `/`. -/
def headerCells (names : List (Fin 8 → UInt8)) : List Cell :=
  banner.map (textCell 0xA) ++ colon.map (textCell biosWhite) ++ (joined names).map (textCell 0xC)

theorem headerCells_length (names : List (Fin 8 → UInt8)) : (headerCells names).length = 18 + (joined names).length := by
  unfold headerCells
  rw [List.length_append, List.length_append, List.length_map, List.length_map, List.length_map]
  rfl

/-- The row of the prompt, if the header begins in row `r`. -/
def promptRow (r : ℕ) (names : List (Fin 8 → UInt8)) : ℕ := r + (headerCells names).length / 80 + 1

/-- The screen with the header and the prompt. -/
def templateCells (r : ℕ) (names : List (Fin 8 → UInt8)) (f : ℕ → Cell) : ℕ → Cell :=
  Lib.overlay (80 * promptRow r names) (promptText.map (textCell 0x7)) (Lib.overlay (80 * r) (headerCells names) f)

/-- **The prompt.** -/
theorem printTemplate_echoes {r : ℕ} {path : List Arg} {d : Display} (garbage : ℕ → UInt8) (hpath : ∀ a ∈ path, CdEntry a)
    (hne : path ≠ []) (hc : d.screen.cursor.AtStart) (hrow : d.screen.cursor.row.toInt = r)
    (hfit : promptRow r (path.map Arg.name) < 25) :
    Echoes (promptRow r (path.map Arg.name)) [] (templateCells r (path.map Arg.name) d.cells)
      (printTemplate garbage path d) := by
  have hstring := pathString_eq hpath hne
  generalize path.map Arg.name = names at hfit hstring ⊢
  have hheader := headerCells_length names
  have hR : promptRow r names = r + (headerCells names).length / 80 + 1 := rfl
  have hlen : (pathString path).length = (joined names).length + 1 := by
    rw [hstring, List.length_append]
    rfl
  have hcount : (UInt32.ofNat (pathString path).length - 1).toNat = (joined names).length := by
    rw [hlen, UInt32.ofNat_add]
    refine (congrArg UInt32.toNat (UInt32.add_sub_cancel _ 1)).trans ?_
    exact UInt32.toNat_ofNat_of_lt' (by simp [UInt32.size]; omega)
  have hstart : d.screen.Shows (80 * r) [] d.cells :=
    ⟨hc.inRow, by rw [hc.index, hrow]; rfl, (Lib.overlay_nil (i := 80 * r)).symm⟩
  -- the header
  have h₁ := hstart.puts (l := banner) (t := banner) garbage (p := ⟨17, 0xA⟩) (by decide) (List.prefix_refl _)
    (by simp [banner]; omega)
  have h₂ := h₁.puts (l := colon) (t := colon) garbage (p := ⟨1, biosWhite⟩) (by decide) (List.prefix_refl _)
    (by simp [banner, colon]; omega)
  have h₃ := h₂.puts (l := pathString path) (t := joined names) garbage
    (p := ⟨UInt32.ofNat (pathString path).length - 1, 0xC⟩) hcount (hstring ▸ List.prefix_append _ _)
    (by simp [banner, colon]; omega)
  change Screen.Shows (80 * r) (headerCells names) d.cells _ at h₃
  -- the prompt
  have h₄ := h₃.nextRow (by omega)
  rw [show (80 * r + (headerCells names).length) / 80 + 1 = promptRow r names by omega] at h₄
  have h₅ := h₄.puts (l := promptText) (t := promptText) garbage (p := ⟨3, 0x7⟩) (by decide)
    (List.prefix_refl _) (by simp [promptText]; omega)
  obtain ⟨hrow₅, hcol₅⟩ := h₅.place
  have hplace : 80 * promptRow r names + ([] ++ promptText.map (textCell 0x7)).length = 80 * promptRow r names + 3 := rfl
  rw [hplace] at hrow₅ hcol₅
  unfold printTemplate
  dsimp only
  generalize (puts (Lib.overlay 0 promptText garbage) _ _).2 = s₅ at h₅ hrow₅ hcol₅
  refine echoes_move (d := { d with screen := s₅ }) (l := []) (m := 1) hfit ?_ ?_ (Nat.le_refl 1) (by decide) ?_ ?_
  · exact hrow₅.trans (congrArg Nat.cast ((by omega : ∀ k, (80 * k + 3) / 80 = k) _))
  · exact hcol₅.trans (congrArg Nat.cast ((by omega : ∀ k, (80 * k + 3) % 80 = 3) _))
  · rw [Lib.overlay_nil]
    exact h₅.cells
  · exact Lib.update_overlay_snoc

/-! ## The prompt and the line -/

/-- Whatever the commands, the entries of the path are those that `cd_root` and `cd` put there. -/
theorem FileCommand.cdEntries {s : State} {garbage : Fin 3 → UInt8} {cmds : List (FileCommand × ℕ)} {y : Shell × State}
    (h : Lib.Path FileCommand.Given (cdRoot garbage s) cmds y) : ∀ a ∈ y.1.path, CdEntry a := by
  refine h.invariant (I := fun x => ∀ a ∈ x.1.path, CdEntry a) (fun x c y hx hg => ?_) fun a ha => ?_
  · obtain ⟨c, e⟩ := c
    obtain ⟨-, -, hr⟩ := hg
    cases c with
    | cd w => exact cd_forall hx (.inr ⟨w, rfl⟩) hr
    | mkdir w =>
      have hy : MoggersOs.mkdir x.1 x.2 w.arg = y := hr
      rw [← hy]
      exact hx
    | rm w =>
      obtain ⟨fuel, hrm⟩ := hr
      obtain ⟨out, -, rfl⟩ := Option.map_eq_some_iff.1 hrm
      exact hx
    | mv garbage w w₂ =>
      obtain ⟨fuel, codes, s₁, -, rfl⟩ := hr
      exact hx
    | cp garbage w w₂ =>
      obtain ⟨fuel, codes, s₁, -, rfl⟩ := hr
      exact hx
  · exact .inl ⟨garbage, List.mem_singleton.1 ha⟩

/-- On the screen of `d` there are, from row `r` on, the header, the prompt, the line and cleared cells behind it, and the
cursor is at the beginning of the next row. -/
structure Prompted (r : ℕ) (names : List (Fin 8 → UInt8)) (line : List UInt8) (d d' : Display) : Prop where
  cells : ∃ m, 1 ≤ m ∧ line.length + m ≤ 77 ∧ d'.cells = Lib.overlay (80 * promptRow r names)
    (promptText.map (textCell 0x7) ++ lineCells line m) (Lib.overlay (80 * r) (headerCells names) d.cells)
  start : d'.screen.cursor.AtStart
  row   : d'.screen.cursor.row.toInt = promptRow r names + 1

theorem Echoes.prompted {r : ℕ} {names : List (Fin 8 → UInt8)} {line : List UInt8} {d d' : Display}
    (h : Echoes (promptRow r names) line (templateCells r names d.cells) d') (hr : promptRow r names < 25) :
    Prompted r names line d d'.nextRow := by
  obtain ⟨hrow, -, ⟨m, hm, hle, hcells⟩, -⟩ := h
  have hnext : d'.nextRow.screen.cursor.row.toInt = d'.screen.cursor.row.toInt + 1 := toInt_succ (by omega)
  refine ⟨⟨m, hm, hle, ?_⟩, ⟨by omega, rfl⟩, by rw [hnext, hrow]⟩
  rw [Lib.overlay_append]
  exact hcells

/-- **What is on the screen is what is parsed.** After any session, and whatever was on the screen, the prompt shows the
path to the directory that the shell is in, and behind it stands the line that `get_command` has in its buffer when the
newline comes, if the line has never had more than 76 characters. Nothing else on the screen has changed. -/
theorem session_prompt {s : State} {live : Finset Nat} (hrun : Run Ordinary s live) {garbage : Fin 3 → UInt8}
    {cmds : List (FileCommand × ℕ)} {y : Shell × State} (h : Lib.Path FileCommand.Given (cdRoot garbage s) cmds y)
    {d : Display} {r : ℕ} (hc : d.screen.cursor.AtStart) (hrow : d.screen.cursor.row.toInt = r)
    (hfit : promptRow r (y.1.path.map Arg.name) < 25) {buf : UInt8} {keys : List UInt8} (hbuf : buf ≠ newline)
    (hkeys : newline ∉ keys) (hroom : ∀ pre, pre <+: keys → (typedLine pre).length ≤ 76) (behind : ℕ → UInt8)
    (atZero : UInt8) :
    ∃ live' x e ns command d', Represents y.2.volume live' x ∧ x.Leads rootClusterNumber ns e ∧
      readLine buf (keys ++ [newline]) .zero = some command ∧
      echoLine atZero buf (keys ++ [newline]) (printTemplate behind y.1.path d) = some d' ∧
      command.line = typedLine keys ∧ Prompted r (rootName :: ns.map Prod.fst) command.line d d' := by
  obtain ⟨live', x, e, ns, hy, hx, hleads, hnames, -⟩ := session_refined hrun h
  have hne : y.1.path ≠ [] := fun hnil => by
    rw [hnil] at hnames
    cases hnames
  have hprompt := printTemplate_echoes behind (FileCommand.cdEntries h) hne hc hrow hfit
  rw [hnames] at hprompt hfit
  have hzero : HoldsLine .zero [] := ⟨rfl, fun j hj => absurd hj (Nat.not_lt_zero j), rfl⟩
  obtain ⟨command, hread, hholds⟩ := hzero.readLine hbuf hkeys
    (roomFor_of_forall fun pre hpre => (hroom pre hpre).trans (by decide))
  obtain ⟨d₁, hechoes, hecho⟩ := Echoes.echoLine atZero hfit hbuf hkeys hroom hprompt
  refine ⟨live', x, e, ns, command, d₁.nextRow, hx.represents, hleads, hread, hecho, hholds.line, ?_⟩
  rw [hholds.line]
  exact hechoes.prompted hfit

/-- After `mkdir g`: `cp x`, a backspace, `a  b` on a clear screen. -/
theorem session_prompt_edited : ∃ live' x e ns command d', Represents besideBoth.2.volume live' x ∧
    x.Leads rootClusterNumber ns e ∧ readLine 0 (editedKeys ++ [newline]) .zero = some command ∧
    echoLine 0x55 0 (editedKeys ++ [newline]) (printTemplate (fun _ => 0) besideBoth.1.path ⟨blankScreen, ⟨0, fun _ => 0⟩⟩) =
      some d' ∧
    command.line = typedLine editedKeys ∧
    Prompted 0 (rootName :: ns.map Prod.fst) command.line ⟨blankScreen, ⟨0, fun _ => 0⟩⟩ d' := by
  have hfit : promptRow 0 (besideBoth.1.path.map Arg.name) < 25 := by
    rw [besideBoth_here]
    decide
  exact session_prompt withFile_run besideBoth_path blankScreen_start rfl hfit (by decide) (by decide)
    (fun pre hpre => (typedLine_length_le hpre).trans (by decide)) _ _

end MoggersOs
