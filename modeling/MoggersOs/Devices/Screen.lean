import MoggersOs.Lib.Stores
/-
# Text on the screen (`interrupt/syscall_command.c`, `framebuffer/framebuffer.c`)

`puts` writes a character and then moves the cursor on. At the right edge it is `putchar` that begins the next row:
it leaves the column at `-1`, which the increment of `puts` makes 0. The rows follow one another in memory, so a text
that fits the screen is laid out as in one long row (`puts_linear`), although the coordinates go through 8 bits and
the offset through 16.

| here | there |
| --- | --- |
| `Framebuffer`      | the bytes from `FRAMEBUFFER_MEMORY_OFFSET` on (`framebuffer.h:8`), by their offset |
| `framebufferWrite` | `framebuffer.c:27-34` |
| `Cp`, `PutsExtraAttribute` | `syscall_command.h:7-15` |
| `putchar`, `puts`  | `syscall_command.c:6-21`, system calls 5 and 6 (`interrupt.c:88-103`) |
| `Cell`, `Cp.index` | the screen as one row of characters, and the cursor's place in it |

The text, the attributes and the cursor lie apart from one another and from the screen, as they do in every program
that makes the call. A count from `2^31` on would overflow the loop's `int32_t i`.
-/

namespace MoggersOs

abbrev Framebuffer := ℕ → UInt8

def framebufferWrite (fb : Framebuffer) (row col c fg bg : UInt8) : Framebuffer :=
  let pos : UInt16 := row.toUInt16 * (80 * 2) + col.toUInt16 * 2
  let colourBit : UInt16 := bg.toUInt16 <<< 4 ||| fg.toUInt16 &&& 0xF
  Function.update (Function.update fb pos.toNat c) (pos.toNat + 1) colourBit.toUInt8

structure Cp where
  row : Int32
  col : Int32
deriving DecidableEq

structure PutsExtraAttribute where
  count     : UInt32
  textColor : UInt32

structure Screen where
  framebuffer : Framebuffer
  cursor      : Cp

/-- The return code and the screen. -/
def putchar (buffer : UInt8) (textColor : UInt32) (s : Screen) : Int8 × Screen :=
  let fb := framebufferWrite s.framebuffer s.cursor.row.toUInt32.toUInt8 s.cursor.col.toUInt32.toUInt8 buffer
    textColor.toUInt8 0
  if 80 - 1 ≤ s.cursor.col then (0, ⟨fb, ⟨s.cursor.row + 1, -1⟩⟩) else (0, ⟨fb, s.cursor⟩)

/-- `putchar(buffer + i, ..)` and `col++`. -/
def putsRound (buffer : ℕ → UInt8) (textColor : UInt32) (s : Screen) (i : ℕ) : Screen :=
  let s := (putchar (buffer i) textColor s).2
  { s with cursor := { s.cursor with col := s.cursor.col + 1 } }

def puts (buffer : ℕ → UInt8) (p : PutsExtraAttribute) (s : Screen) : Int8 × Screen :=
  (0, (List.range p.count.toNat).foldl (putsRound buffer p.textColor) s)

/-! ## The screen as one row -/

/-- A character with its colour and the one behind it (`framebuffer.h:15-20`). -/
@[ext] structure Cell where
  char : UInt8
  fg   : UInt8
  bg   : UInt8
deriving DecidableEq

def Framebuffer.cell (fb : Framebuffer) (i : ℕ) : Cell := ⟨fb (2 * i), fb (2 * i + 1) &&& 0xF, fb (2 * i + 1) >>> 4⟩

/-- The character in the low four bits of the colour, on black. -/
def textCell (textColor : UInt32) (c : UInt8) : Cell := ⟨c, (textColor &&& 0xF).toUInt8, 0⟩

/-- The column is one of the screen and the row is not negative. -/
structure Cp.InRow (c : Cp) : Prop where
  row  : 0 ≤ c.row.toInt
  col  : 0 ≤ c.col.toInt
  edge : c.col.toInt < 80

def Cp.index (c : Cp) : ℕ := (c.row.toInt * 80 + c.col.toInt).toNat

/-- `n` characters of the text follow one another from the cursor on, nothing else is changed, and the cursor is
behind them. -/
structure LaidOut (buffer : ℕ → UInt8) (textColor : UInt32) (n : ℕ) (s s' : Screen) : Prop where
  text   : ∀ k < n, s'.framebuffer.cell (s.cursor.index + k) = textCell textColor (buffer k)
  others : ∀ i, i < s.cursor.index ∨ s.cursor.index + n ≤ i → s'.framebuffer.cell i = s.framebuffer.cell i
  inRow  : s'.cursor.InRow
  index  : s'.cursor.index = s.cursor.index + n

/-! ## The cursor -/

theorem toNat_narrow {x : Int32} (h : 0 ≤ x.toInt) (hlt : x.toInt < 256) :
    x.toUInt32.toUInt8.toNat = x.toInt.toNat := by
  have hwide : x.toUInt32.toNat = x.toInt.toNat := Int32.toNat_toUInt32_of_le (Int32.le_iff_toInt_le.2 h)
  rw [UInt32.toNat_toUInt8, hwide]
  omega

theorem toInt_succ {x : Int32} (h : x.toInt < 2000) : (x + 1).toInt = x.toInt + 1 := by
  have hlow := x.le_toInt
  rw [Int32.toInt_add]
  exact Int.bmod_eq_of_le (by simp; omega) (by simp; omega)

/-- What a round of `puts` does to the cursor, in the two places where it does it. -/
def Cp.advance (c : Cp) : Cp :=
  let c' : Cp := if 80 - 1 ≤ c.col then ⟨c.row + 1, -1⟩ else c
  ⟨c'.row, c'.col + 1⟩

namespace Cp.InRow

variable {c : Cp}

/-- On the screen neither the coordinates nor the offset lose anything. -/
theorem pos_eq (h : c.InRow) (hlt : c.index < 2000) :
    (c.row.toUInt32.toUInt8.toUInt16 * (80 * 2) + c.col.toUInt32.toUInt8.toUInt16 * 2).toNat = 2 * c.index := by
  obtain ⟨hrow, hcol, hedge⟩ := h
  unfold Cp.index at hlt ⊢
  have hrow' := toNat_narrow hrow (by omega)
  have hcol' := toNat_narrow hcol (by omega)
  simp only [UInt16.toNat_add, UInt16.toNat_mul, UInt8.toNat_toUInt16, hrow', hcol', UInt16.reduceMul,
    UInt16.reduceToNat]
  omega

theorem advance (h : c.InRow) (hlt : c.index < 2000) : c.advance.InRow ∧ c.advance.index = c.index + 1 := by
  obtain ⟨hrow, hcol, hedge⟩ := h
  have hlast : (80 - 1 : Int32).toInt = 79 := by decide
  have hstart : ((-1 : Int32) + 1).toInt = 0 := by decide
  unfold Cp.index at hlt
  unfold Cp.advance
  split
  next hwrap =>
    rw [Int32.le_iff_toInt_le, hlast] at hwrap
    have hnext : (c.row + 1).toInt = c.row.toInt + 1 := toInt_succ (by omega)
    refine ⟨⟨?_, ?_, ?_⟩, ?_⟩
    · rw [hnext]
      omega
    · exact Int.le_of_eq hstart.symm
    · rw [hstart]
      omega
    · unfold Cp.index
      rw [hnext, hstart]
      omega
  next hstay =>
    rw [Int32.le_iff_toInt_le, hlast] at hstay
    have hnext : (c.col + 1).toInt = c.col.toInt + 1 := toInt_succ (by omega)
    refine ⟨⟨hrow, ?_, ?_⟩, ?_⟩
    · rw [hnext]
      omega
    · rw [hnext]
      omega
    · unfold Cp.index
      dsimp only
      rw [hnext]
      omega

end Cp.InRow

/-! ## The cells -/

theorem colour_eq (fg : UInt8) : ((0 : UInt8).toUInt16 <<< 4 ||| fg.toUInt16 &&& 0xF).toUInt8 = fg &&& 0xF := by simp

theorem colour_low (textColor : UInt32) : textColor.toUInt8 &&& 0xF &&& 0xF = (textColor &&& 0xF).toUInt8 := by
  rw [UInt8.and_assoc, UInt8.and_self, UInt32.toUInt8_and]
  rfl

theorem colour_high (fg : UInt8) : (fg &&& 0xF) >>> 4 = 0 := by
  have hlow : fg.toNat &&& 15 < 16 := Nat.lt_succ_of_le Nat.and_le_right
  simpa [← UInt8.toNat_inj, Nat.shiftRight_eq_div_pow] using hlow

/-- Both bytes that `framebuffer_write` stores belong to one cell. -/
theorem framebufferWrite_cell {fb : Framebuffer} {row col c : UInt8} {textColor : UInt32} {i : ℕ}
    (hpos : (row.toUInt16 * (80 * 2) + col.toUInt16 * 2).toNat = 2 * i) :
    (framebufferWrite fb row col c textColor.toUInt8 0).cell =
      Function.update fb.cell i (textCell textColor c) := by
  unfold framebufferWrite
  simp only [hpos, colour_eq]
  funext j
  by_cases hj : j = i
  · rw [hj, Function.update_self]
    simp [Framebuffer.cell, textCell, colour_low, colour_high]
  · rw [Function.update_of_ne hj]
    unfold Framebuffer.cell
    rw [Function.update_of_ne (by omega), Function.update_of_ne (by omega), Function.update_of_ne (by omega),
      Function.update_of_ne (by omega)]

theorem putsRound_eq (buffer : ℕ → UInt8) (textColor : UInt32) (s : Screen) (i : ℕ) :
    putsRound buffer textColor s i = ⟨framebufferWrite s.framebuffer s.cursor.row.toUInt32.toUInt8
      s.cursor.col.toUInt32.toUInt8 (buffer i) textColor.toUInt8 0, s.cursor.advance⟩ := by
  unfold putsRound putchar Cp.advance
  split <;> rfl

/-! ## The loop -/

/-- Round by round: the cells are stored to in a row. -/
theorem rounds (buffer : ℕ → UInt8) (textColor : UInt32) {s : Screen} (hc : s.cursor.InRow) {n : ℕ}
    (hfit : s.cursor.index + n ≤ 2000) :
    let s' := (List.range n).foldl (putsRound buffer textColor) s
    s'.cursor.InRow ∧ s'.cursor.index = s.cursor.index + n ∧
      s'.framebuffer.cell = Lib.assign (s.cursor.index + ·) (fun k => textCell textColor (buffer k)) (List.range n)
        s.framebuffer.cell := by
  induction n with
  | zero => exact ⟨hc, rfl, rfl⟩
  | succ n ih =>
    obtain ⟨hrow, hindex, hcells⟩ := ih (by omega)
    have hlt : s.cursor.index + n < 2000 := by omega
    rw [← hindex] at hlt
    obtain ⟨hrow', hindex'⟩ := hrow.advance hlt
    simp only [List.range_succ, List.foldl_concat, putsRound_eq _ _ (List.foldl _ _ _), Lib.assign_snoc]
    refine ⟨hrow', by omega, ?_⟩
    rw [framebufferWrite_cell (hrow.pos_eq hlt), hcells, hindex]

/-- **`puts` lays the text out as in one long row.** -/
theorem puts_linear (buffer : ℕ → UInt8) (p : PutsExtraAttribute) (s : Screen) (hc : s.cursor.InRow)
    (hfit : s.cursor.index + p.count.toNat ≤ 2000) :
    LaidOut buffer p.textColor p.count.toNat s (puts buffer p s).2 := by
  obtain ⟨hrow, hindex, hcells⟩ := rounds buffer p.textColor hc hfit
  refine ⟨fun k hk => ?_, fun i hi => ?_, hrow, hindex⟩
  · have hnodup : ((List.range p.count.toNat).map (s.cursor.index + ·)).Nodup :=
      List.nodup_range.map fun i j he => Nat.add_left_cancel he
    exact (congrFun hcells _).trans (Lib.assign_of_mem hnodup (List.mem_range.2 hk))
  · refine (congrFun hcells i).trans (Lib.assign_of_notMem fun k hk he => ?_)
    have hk' := List.mem_range.1 hk
    omega

/-- Ninety characters from the last ten columns of row 23 to the end of the screen. -/
theorem puts_linear_last :
    LaidOut (fun k => UInt8.ofNat (97 + k % 26)) 0x1F 90 ⟨fun _ => 0, ⟨23, 70⟩⟩
      (puts (fun k => UInt8.ofNat (97 + k % 26)) ⟨90, 0x1F⟩ ⟨fun _ => 0, ⟨23, 70⟩⟩).2 :=
  puts_linear _ ⟨90, 0x1F⟩ ⟨fun _ => 0, ⟨23, 70⟩⟩ ⟨by decide, by decide, by decide⟩ (by decide)

end MoggersOs
