import MoggersOs.Devices.Screen
import MoggersOs.Lib.Overlay
/-
# The display: text and cursor (`framebuffer/framebuffer.c`, `interrupt/syscall_command.c`)

| here | there |
| --- | --- |
| `Crtc`                        | the registers behind the two ports of the cursor: an index, and the register it selects |
| `framebufferSetCursor`        | `framebuffer.c:8-16` |
| `framebufferGetCursorPosition` | `framebuffer.c:18-25`, system call 10 |
| `moveTextCursor`              | `move_text_cursor` (`syscall_command.c:23-27`), system call 8: the cell under the cursor is cleared |
| `Display.cells`               | the screen as one row (`Framebuffer.cell`) |

Each call stores to one cell, or to the cells of a text, so the screen afterwards is an `overlay` of the one before.
-/

namespace MoggersOs

structure Crtc where
  index : UInt8
  reg   : UInt8 → UInt8

def cursorPortCmd : UInt16 := 0x03D4
def cursorPortData : UInt16 := 0x03D5

/-- `out(port, data)`. -/
def Crtc.out (v : Crtc) (port : UInt16) (data : UInt8) : Crtc :=
  if port = cursorPortCmd then { v with index := data }
  else if port = cursorPortData then { v with reg := Function.update v.reg v.index data }
  else v

def framebufferSetCursor (r c : UInt8) (v : Crtc) : Crtc :=
  let pos : UInt16 := r.toUInt16 * 80 + c.toUInt16
  let v := v.out cursorPortCmd 0x0F
  let v := v.out cursorPortData (pos &&& 0xFF).toUInt8
  let v := v.out cursorPortCmd 0x0E
  v.out cursorPortData ((pos >>> 8) &&& 0xFF).toUInt8

def framebufferGetCursorPosition (v : Crtc) : UInt16 × Crtc :=
  let v := v.out cursorPortCmd 0x0F
  let low := (v.reg v.index).toUInt16
  let v := v.out cursorPortCmd 0x0E
  (low ||| (v.reg v.index).toUInt16 <<< 8, v)

structure Display where
  screen : Screen
  crtc   : Crtc

def moveTextCursor (row col : UInt16) (cursorColor : UInt32) (d : Display) : Display where
  screen := { d.screen with
    framebuffer := framebufferWrite d.screen.framebuffer row.toUInt8 col.toUInt8 ' '.toUInt8 cursorColor.toUInt8 0 }
  crtc := framebufferSetCursor row.toUInt8 col.toUInt8 d.crtc

namespace Display

def cells (d : Display) : ℕ → Cell := d.screen.framebuffer.cell

/-- Where the hardware shows the cursor. -/
def shown (d : Display) : ℕ := (framebufferGetCursorPosition d.crtc).1.toNat

end Display

/-- The two halves of a number make it up again. -/
theorem halves (pos : UInt16) :
    (pos &&& 0xFF).toUInt8.toUInt16 ||| (pos >>> 8 &&& 0xFF).toUInt8.toUInt16 <<< 8 = pos := by
  have hlt : pos.toNat < 0x10000 := pos.toNat_lt
  have hlow : (pos &&& 0xFF).toUInt8.toUInt16.toNat = pos.toNat % 256 := by
    rw [UInt8.toNat_toUInt16, UInt16.toNat_toUInt8, UInt16.toNat_and]
    exact (congrArg (· % 256) (Nat.and_two_pow_sub_one_eq_mod pos.toNat 8)).trans (Nat.mod_mod _ _)
  have hshift : (pos >>> 8).toNat = pos.toNat / 256 := by
    rw [UInt16.toNat_shiftRight]
    exact Nat.shiftRight_eq_div_pow ..
  have hhigh : (pos >>> 8 &&& 0xFF).toUInt8.toUInt16.toNat = pos.toNat / 256 := by
    rw [UInt8.toNat_toUInt16, UInt16.toNat_toUInt8, UInt16.toNat_and, hshift]
    refine (congrArg (· % 256) (Nat.and_two_pow_sub_one_eq_mod (pos.toNat / 256) 8)).trans ?_
    rw [Nat.mod_mod, Nat.mod_eq_of_lt (by omega)]
  have hup : ((pos >>> 8 &&& 0xFF).toUInt8.toUInt16 <<< 8).toNat = (pos.toNat / 256) <<< 8 := by
    rw [UInt16.toNat_shiftLeft, hhigh]
    refine Nat.mod_eq_of_lt ?_
    rw [show (8 : UInt16).toNat % 16 = 8 from rfl, Nat.shiftLeft_eq]
    omega
  apply UInt16.toNat_inj.1
  rw [UInt16.toNat_or, hlow, hup, Nat.or_comm, ← Nat.shiftLeft_add_eq_or_of_lt (by omega), Nat.shiftLeft_eq]
  omega

/-- **What is set is read back.** -/
theorem framebufferGetCursorPosition_set (r c : UInt8) (v : Crtc) :
    (framebufferGetCursorPosition (framebufferSetCursor r c v)).1 = r.toUInt16 * 80 + c.toUInt16 := by
  have hne : cursorPortData ≠ cursorPortCmd := by decide
  have hregs : (0x0F : UInt8) ≠ 0x0E := by decide
  unfold framebufferGetCursorPosition framebufferSetCursor
  generalize r.toUInt16 * 80 + c.toUInt16 = pos
  simp only [Crtc.out, hne, if_true, if_false, Function.update_self, Function.update_of_ne hregs]
  exact halves pos

/-! ## One call, one piece of the screen -/

section calls
variable {s : Screen} {d : Display}

/-- `puts` lays its text over the screen. -/
theorem puts_cells (buffer : ℕ → UInt8) (p : PutsExtraAttribute) (hc : s.cursor.InRow)
    (hfit : s.cursor.index + p.count.toNat ≤ 2000) :
    (puts buffer p s).2.cursor.InRow ∧ (puts buffer p s).2.cursor.index = s.cursor.index + p.count.toNat ∧
      (puts buffer p s).2.framebuffer.cell = Lib.overlay s.cursor.index
        ((List.range p.count.toNat).map fun k => textCell p.textColor (buffer k)) s.framebuffer.cell := by
  obtain ⟨hrow, hindex, hcells⟩ := rounds buffer p.textColor hc hfit
  refine ⟨hrow, hindex, hcells.trans ?_⟩
  rw [Lib.assign_range]

/-- `putchar` in front of the last column leaves the cursor where it is. -/
theorem putchar_cells (b : UInt8) (textColor : UInt32) (hc : s.cursor.InRow) (hcol : s.cursor.col.toInt < 79)
    (hlt : s.cursor.index < 2000) : (putchar b textColor s).2.cursor = s.cursor ∧
      (putchar b textColor s).2.framebuffer.cell =
        Function.update s.framebuffer.cell s.cursor.index (textCell textColor b) := by
  have hlast : (80 - 1 : Int32).toInt = 79 := by decide
  have hstay : ¬ 80 - 1 ≤ s.cursor.col := by
    rw [Int32.le_iff_toInt_le, hlast]
    omega
  unfold putchar
  rw [if_neg hstay]
  exact ⟨rfl, framebufferWrite_cell (hc.pos_eq hlt)⟩

/-- `move_text_cursor` clears the cell of the cursor and shows it there. -/
theorem moveTextCursor_cells (cursorColor : UInt32) {c : Cp} (hc : c.InRow) (hlt : c.index < 2000) :
    (moveTextCursor c.row.toUInt32.toUInt16 c.col.toUInt32.toUInt16 cursorColor d).screen.cursor = d.screen.cursor ∧
      (moveTextCursor c.row.toUInt32.toUInt16 c.col.toUInt32.toUInt16 cursorColor d).cells =
        Function.update d.cells c.index (textCell cursorColor ' '.toUInt8) ∧
      (moveTextCursor c.row.toUInt32.toUInt16 c.col.toUInt32.toUInt16 cursorColor d).shown = c.index := by
  have hpos := hc.pos_eq hlt
  refine ⟨rfl, framebufferWrite_cell ?_, ?_⟩
  · rw [UInt32.toUInt8_toUInt16, UInt32.toUInt8_toUInt16]
    exact hpos
  · unfold Display.shown moveTextCursor
    rw [framebufferGetCursorPosition_set, UInt32.toUInt8_toUInt16, UInt32.toUInt8_toUInt16]
    generalize c.row.toUInt32.toUInt8 = r at hpos
    generalize c.col.toUInt32.toUInt8 = k at hpos
    have hr := r.toNat_lt
    have hk := k.toNat_lt
    simp only [UInt16.toNat_add, UInt16.toNat_mul, UInt8.toNat_toUInt16, UInt16.reduceMul, UInt16.reduceToNat] at hpos ⊢
    -- nothing is lost in 16 bits
    rw [Nat.mod_eq_of_lt (a := r.toNat * 160) (by omega), Nat.mod_eq_of_lt (a := k.toNat * 2) (by omega),
      Nat.mod_eq_of_lt (by omega)] at hpos
    rw [Nat.mod_eq_of_lt (a := r.toNat * 80) (by omega), Nat.mod_eq_of_lt (by omega)]
    omega

end calls

end MoggersOs
