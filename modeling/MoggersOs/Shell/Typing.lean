import MoggersOs.Devices.Keyboard
import MoggersOs.Shell.MainLoop
/-
# From the keyboard to the main loop (`keyboard/keyboard.c`, `user_mode/user-shell.c`)

`get_command` polls the keyboard (system call 4) up to a newline. A poll that finds nothing makes no difference to it
(`getCommand_filter`). So as long as every key is polled while it is down, the rounds of `main` are those on the lines
that were typed, one for one (`rounds_typed`), whatever polls there are between the keys and whenever they go up.

Each round takes the polls up to the next newline (`ended`), but one that finds a newline in `buf` polls nothing
(`Rounds`).
-/

namespace MoggersOs

theorem readLine_of_ne {buf buf' : UInt8} (h : buf ≠ newline) (h' : buf' ≠ newline) (keys : List UInt8) (c : CommandStruct) :
    readLine buf keys c = readLine buf' keys c := by
  cases keys with
  | nil => rw [readLine, readLine, if_neg h, if_neg h']
  | cons key keys => rw [readLine, readLine, if_neg h, if_neg h']

theorem readLine_newline (keys : List UInt8) (c : CommandStruct) : readLine newline keys c = some c := by
  cases keys with
  | nil => rw [readLine, if_pos rfl]
  | cons key keys => rw [readLine, if_pos rfl]

/-- A poll that finds nothing is not noticed. -/
theorem readLine_filter (keys : List UInt8) : ∀ (buf : UInt8) (c : CommandStruct),
    readLine buf (keys.filter (· != 0)) c = readLine buf keys c := by
  induction keys with
  | nil => exact fun _ _ => rfl
  | cons key keys ih =>
    intro buf c
    by_cases hkey : key = 0
    · subst hkey
      rw [List.filter_cons_of_neg (by decide), ih]
      by_cases hbuf : buf = newline
      · rw [hbuf, readLine_newline, readLine_newline]
      · rw [readLine, if_neg hbuf, if_neg (fun h => h.1 rfl)]
        exact readLine_of_ne hbuf (by decide) keys c
    · have hrest : readLine key (keys.filter (· != 0)) = readLine key keys := funext (ih key)
      rw [List.filter_cons_of_pos (by simpa using hkey), readLine, readLine, hrest]

theorem getCommand_filter (garbage : UInt8) (keys : List UInt8) :
    getCommand garbage (keys.filter (· != 0) ++ [newline]) = getCommand garbage (keys ++ [newline]) := by
  have hlast : [newline].filter (· != 0) = [newline] := by decide
  unfold getCommand
  rw [← readLine_filter (keys ++ [newline]), List.filter_append, hlast]

theorem Round.filter {l : Leftovers} {keys : List UInt8} {x y : Shell × State} :
    Round l (keys.filter (· != 0)) x y ↔ Round l keys x y := by
  unfold Round
  rw [getCommand_filter]

/-- The lines that have ended. -/
def ended (bytes : List UInt8) : List (List UInt8) := (bytes.splitOn newline).dropLast

/-- Rounds of `main` on these lines, one for each of `ls`, what is in memory. A round that finds a newline in `buf` takes no
line. -/
inductive Rounds : List Leftovers → List (List UInt8) → Shell × State → Shell × State → Prop where
  | nil {lines : List (List UInt8)} {x : Shell × State} : Rounds [] lines x x
  | unread {l : Leftovers} {ls : List Leftovers} {lines : List (List UInt8)} {x z y : Shell × State} :
      l.buf = newline → Round l [] x z → Rounds ls lines z y → Rounds (l :: ls) lines x y
  | line {l : Leftovers} {ls : List Leftovers} {keys : List UInt8} {lines : List (List UInt8)} {x z y : Shell × State} :
      l.buf ≠ newline → Round l keys x z → Rounds ls lines z y → Rounds (l :: ls) (keys :: lines) x y

theorem ended_filter (bytes : List UInt8) : ended (bytes.filter (· != 0)) = (ended bytes).map (·.filter (· != 0)) := by
  unfold ended
  rw [Lib.splitOn_filter (by decide), List.map_dropLast]

theorem Rounds.filter {ls : List Leftovers} {lines : List (List UInt8)} {x y : Shell × State} :
    Rounds ls (lines.map (·.filter (· != 0))) x y ↔ Rounds ls lines x y := by
  constructor
  · intro h
    generalize hlines : lines.map (·.filter (· != 0)) = lines' at h
    induction h generalizing lines with
    | nil => exact .nil
    | unread hbuf hround _ ih => exact .unread hbuf hround (ih hlines)
    | line hbuf hround _ ih =>
      obtain ⟨keys, rest, rfl, rfl, hrest⟩ := List.map_eq_cons_iff.1 hlines
      exact .line hbuf (Round.filter.1 hround) (ih hrest)
  · intro h
    induction h with
    | nil => exact .nil
    | unread hbuf hround _ ih => exact .unread hbuf hround ih
    | line hbuf hround _ ih => exact .line hbuf (Round.filter.2 hround) ih

/-- **What is typed is what `main` does.** From the activation of the keyboard on, with every key polled before the next one
is pressed and before any is released, the rounds on what the polls return are the rounds on the characters typed,
whatever polls there are besides. -/
theorem rounds_typed {events : List KeyEvent} (hpolled : Polled false events) (hheld : HeldTillPolled false events)
    (ls : List Leftovers) (x y : Shell × State) :
    Rounds ls (ended (polled (keyboardStateActivate initialKeyboard) events)) x y ↔ Rounds ls (ended (typed events)) x y := by
  have hreceived : (polled (keyboardStateActivate initialKeyboard) events).filter (· != 0) = typed events :=
    (received_iff 0 events hpolled).2 hheld
  rw [← hreceived, ended_filter]
  exact Rounds.filter.symm

/-- A key goes down and up between two polls. -/
def held (key : Key) : List KeyEvent := [.poll, .press key, .poll, .release key, .poll]

theorem held_polled (keys : List Key) : Polled false (keys.flatMap held) := by
  induction keys with
  | nil => rfl
  | cons key keys ih => exact ⟨rfl, ih⟩

theorem held_till_polled (keys : List Key) : HeldTillPolled false (keys.flatMap held) := by
  induction keys with
  | nil => exact trivial
  | cons key keys ih => exact ⟨rfl, ih⟩

/-- `mkdir g` and the Enter key. -/
def mkdirKeys : List Key := [⟨0x32, by decide, by decide⟩, ⟨0x25, by decide, by decide⟩, ⟨0x20, by decide, by decide⟩,
  ⟨0x17, by decide, by decide⟩, ⟨0x13, by decide, by decide⟩, ⟨0x39, by decide, by decide⟩, ⟨0x22, by decide, by decide⟩,
  ⟨0x1C, by decide, by decide⟩]

theorem rounds_typed_mkdir : Rounds [mkdirLine.left]
    (ended (polled (keyboardStateActivate initialKeyboard) (mkdirKeys.flatMap held)))
    besideFile (mkdir besideFile.1 besideFile.2 gWord.arg) := by
  have hended : ended (typed (mkdirKeys.flatMap held)) = [mkdirLine.keys] := by decide +kernel
  refine (rounds_typed (held_polled mkdirKeys) (held_till_polled mkdirKeys) _ _ _).2 ?_
  rw [hended]
  exact .line (by decide) mkdirLine_given.round .nil

end MoggersOs
