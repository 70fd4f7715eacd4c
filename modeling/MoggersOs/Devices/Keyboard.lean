import Mathlib.Data.List.Basic
/-
# The keyboard's mailbox (`keyboard/keyboard.c`)

| here | there |
| --- | --- |
| `keyboardScancode1ToAsciiMap` | `keyboard_scancode_1_to_ascii_map` (`keyboard.c:10-28`) |
| `KeyboardDriverState`         | `struct KeyboardDriverState` (`keyboard.h:34-38`), without `read_extended_mode`, which nothing reads |
| `keyboardStateActivate`, `keyboardStateDeactivate` | `keyboard.c:30-40` |
| `getKeyboardBuffer`           | `get_keyboard_buffer` (`keyboard.c:42-46`), system call 4 (`interrupt.c:81-86`) |
| `keyboardIsr`                 | `keyboard_isr` (`keyboard.c:49-58`), with the byte that the port delivers |
| `Key`                         | a make code that the map gives a character |

Both run behind interrupt gates (`idt.c:25-34`), so neither interrupts the other. The handler stores what the
map gives for every scancode, and that is 0 for the code a key sends when it is released: a release empties
the mailbox. So a character is received only if the shell comes for it before any key is released
(`no_key_lost_iff`). Whatever the order, nothing is received that was not typed, and nothing twice
(`received_sublist`).
-/

namespace MoggersOs

/-! ## The driver -/

/-- The first half of the table; the codes from 128 on have 0. -/
def scancodeTable : List UInt8 := [
  0, 27, 49, 50, 51, 52, 53, 54, 55, 56, 57, 48, 45, 61, 8, 9,              -- escape, `1` to `=`, backspace, tab
  113, 119, 101, 114, 116, 121, 117, 105, 111, 112, 91, 93, 10, 0, 97, 115, -- `q` to `]`, enter, control, `a`, `s`
  100, 102, 103, 104, 106, 107, 108, 59, 39, 96, 0, 92, 122, 120, 99, 118,  -- `d` to the grave, shift, `\`, `z` to `v`
  98, 110, 109, 44, 46, 47, 0, 42, 0, 32, 0, 0, 0, 0, 0, 0,                 -- `b` to `/`, shift, `*`, alt, space
  0, 0, 0, 0, 0, 0, 0, 0, 0, 0, 45, 0, 0, 0, 43, 0,                         -- `-` and `+` of the keypad
  0, 0, 0, 0, 0, 0, 0, 0, 0, 0, 0, 0, 0, 0, 0, 0,
  0, 0, 0, 0, 0, 0, 0, 0, 0, 0, 0, 0, 0, 0, 0, 0,
  0, 0, 0, 0, 0, 0, 0, 0, 0, 0, 0, 0, 0, 0, 0, 0]

def keyboardScancode1ToAsciiMap (scancode : UInt8) : UInt8 := scancodeTable.getD scancode.toNat 0

structure KeyboardDriverState where
  keyboardInputOn : Bool
  keyboardBuffer  : UInt8
deriving DecidableEq

/-- The statics (`keyboard.c:6-8`). -/
def initialKeyboard : KeyboardDriverState := ⟨false, 0⟩

def keyboardStateActivate (s : KeyboardDriverState) : KeyboardDriverState :=
  if !s.keyboardInputOn then { s with keyboardInputOn := true } else s

def keyboardStateDeactivate (s : KeyboardDriverState) : KeyboardDriverState :=
  if s.keyboardInputOn then { s with keyboardInputOn := false } else s

def getKeyboardBuffer (s : KeyboardDriverState) : UInt8 × KeyboardDriverState :=
  (s.keyboardBuffer, { s with keyboardBuffer := 0 })

def keyboardIsr (s : KeyboardDriverState) (scancode : UInt8) : KeyboardDriverState :=
  if s.keyboardInputOn then { s with keyboardBuffer := keyboardScancode1ToAsciiMap scancode } else s

/-! ## Keys -/

/-- A key with a character, by its make code. -/
structure Key where
  code : UInt8
  make : code < 128
  char : keyboardScancode1ToAsciiMap code ≠ 0
deriving DecidableEq

def Key.ascii (key : Key) : UInt8 := keyboardScancode1ToAsciiMap key.code

def Key.breakCode (key : Key) : UInt8 := key.code + 0x80

/-- The map has no character for the release of a key. -/
theorem Key.breakCode_map (key : Key) : keyboardScancode1ToAsciiMap key.breakCode = 0 := by
  have hmake := UInt8.lt_iff_toNat_lt.mp key.make
  have hlen : scancodeTable.length = 128 := rfl
  have hcode : key.breakCode.toNat = key.code.toNat + 128 := by
    unfold Key.breakCode
    rw [UInt8.toNat_add]
    simp only [UInt8.reduceToNat] at hmake ⊢
    omega
  unfold keyboardScancode1ToAsciiMap
  rw [List.getD_eq_getElem?_getD, List.getElem?_eq_none (by omega), Option.getD_none]

inductive KeyEvent where
  | press (key : Key)
  | release (key : Key)
  | poll
deriving DecidableEq

/-- What the polls return, in order. -/
def polled : KeyboardDriverState → List KeyEvent → List UInt8
  | _, [] => []
  | s, .press key :: events => polled (keyboardIsr s key.code) events
  | s, .release key :: events => polled (keyboardIsr s key.breakCode) events
  | s, .poll :: events => (getKeyboardBuffer s).1 :: polled (getKeyboardBuffer s).2 events

/-- A poll that returns 0 has found nothing (`user-shell.c:94`). -/
def received (s : KeyboardDriverState) (events : List KeyEvent) : List UInt8 := (polled s events).filter (· != 0)

/-- The characters of the keys pressed, in order. -/
def typed : List KeyEvent → List UInt8
  | [] => []
  | .press key :: events => key.ascii :: typed events
  | .release _ :: events => typed events
  | .poll :: events => typed events

/-- Each key is released after it is pressed, and only then; `held` are the keys that are down. -/
def Released : List Key → List KeyEvent → Prop
  | held, [] => held = []
  | held, .press key :: events => Released (key :: held) events
  | held, .release key :: events => key ∈ held ∧ Released (held.filter (· ≠ key)) events
  | held, .poll :: events => Released held events

/-- There is a poll between any two presses and after the last one; `waiting` says that one is due. -/
def Polled : Bool → List KeyEvent → Prop
  | waiting, [] => waiting = false
  | waiting, .press _ :: events => waiting = false ∧ Polled true events
  | waiting, .release _ :: events => Polled waiting events
  | _, .poll :: events => Polled false events

/-- No key is released between a press and the first poll after it. -/
def HeldTillPolled : Bool → List KeyEvent → Prop
  | _, [] => True
  | _, .press _ :: events => HeldTillPolled true events
  | waiting, .release _ :: events => waiting = false ∧ HeldTillPolled waiting events
  | _, .poll :: events => HeldTillPolled false events

/-! ## What is received -/

section

variable (b : UInt8) (events : List KeyEvent)

/-- What waits in the mailbox. -/
def waitingChar : List UInt8 := if b = 0 then [] else [b]

@[simp] theorem waitingChar_zero : waitingChar 0 = [] := rfl

@[simp] theorem waitingChar_ascii (key : Key) : waitingChar key.ascii = [key.ascii] := if_neg key.char

@[simp] theorem received_nil : received ⟨true, b⟩ [] = [] := rfl

@[simp] theorem received_press (key : Key) :
    received ⟨true, b⟩ (.press key :: events) = received ⟨true, key.ascii⟩ events := rfl

@[simp] theorem received_release (key : Key) :
    received ⟨true, b⟩ (.release key :: events) = received ⟨true, 0⟩ events := by
  simp [received, polled, keyboardIsr, key.breakCode_map]

@[simp] theorem received_poll :
    received ⟨true, b⟩ (.poll :: events) = waitingChar b ++ received ⟨true, 0⟩ events := by
  unfold received waitingChar
  by_cases hb : b = 0
  · simp [polled, getKeyboardBuffer, hb]
  · simp [polled, getKeyboardBuffer, hb]

/-- **Nothing is received that was not typed**, and no key twice. -/
theorem received_sublist : (received ⟨true, b⟩ events).Sublist (waitingChar b ++ typed events) := by
  induction events generalizing b with
  | nil => simp
  | cons e events ih =>
    cases e with
    | press key =>
      have h := ih key.ascii
      rw [waitingChar_ascii] at h
      rw [received_press]
      exact h.trans (List.sublist_append_right ..)
    | release key =>
      rw [received_release]
      exact (ih 0).trans (List.sublist_append_right ..)
    | poll =>
      rw [received_poll]
      exact (ih 0).append_left _

/-- From any mailbox: a poll is due exactly while a character waits. -/
theorem received_iff (h : Polled (b != 0) events) :
    received ⟨true, b⟩ events = waitingChar b ++ typed events ↔ HeldTillPolled (b != 0) events := by
  induction events generalizing b with
  | nil =>
    have hzero : b = 0 := by simpa [Polled] using h
    simp [hzero, typed, HeldTillPolled]
  | cons e events ih =>
    cases e with
    | press key =>
      have hzero : b = 0 := by simpa using h.1
      have hkey : (key.ascii != 0) = true := bne_iff_ne.mpr key.char
      have hrest := ih key.ascii (by rw [hkey]; exact h.2)
      rw [waitingChar_ascii, hkey] at hrest
      rw [received_press, hzero, waitingChar_zero]
      exact hrest
    | release key =>
      rw [received_release]
      by_cases hzero : b = 0
      · subst hzero
        exact (ih 0 h).trans ⟨fun hheld => ⟨rfl, hheld⟩, And.right⟩
      · -- The character is gone, and what comes after cannot make up for it.
        refine ⟨fun he => ?_, fun hheld => absurd hheld.1 (by simpa using hzero)⟩
        have hlen := (received_sublist 0 events).length_le
        rw [he, waitingChar, if_neg hzero] at hlen
        exact absurd hlen (by simp [typed])
    | poll =>
      rw [received_poll, List.append_cancel_left_eq]
      exact ih 0 h

end

/-! ## Keys lost -/

/-- **No key press is lost or duplicated exactly if no key is released while a character waits**, for every order
of presses, releases and polls with a poll after each press. -/
theorem no_key_lost_iff {events : List KeyEvent} (h : Polled false events) :
    received (keyboardStateActivate initialKeyboard) events = typed events ↔ HeldTillPolled false events :=
  received_iff 0 events h

def keyA : Key := ⟨0x1E, by decide, by decide⟩

/-- The key is polled while it is down. -/
def heldA : List KeyEvent := [.press keyA, .poll, .release keyA]

/-- The key is released before the poll. -/
def tappedA : List KeyEvent := [.press keyA, .release keyA, .poll]

theorem no_key_lost_held : received (keyboardStateActivate initialKeyboard) heldA = typed heldA := by
  have hpolled : Polled false heldA := ⟨rfl, rfl⟩
  exact (no_key_lost_iff hpolled).mpr ⟨rfl, trivial⟩

theorem not_no_key_lost_tapped : Released [] tappedA ∧ Polled false tappedA ∧
    received (keyboardStateActivate initialKeyboard) tappedA ≠ typed tappedA := by
  have hreleased : [keyA].filter (· ≠ keyA) = [] := by decide
  exact ⟨⟨List.mem_cons_self, hreleased⟩, ⟨rfl, rfl⟩, by decide⟩

end MoggersOs
