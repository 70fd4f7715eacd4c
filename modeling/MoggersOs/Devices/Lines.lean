import MoggersOs.Devices.Screen
/-
# Lists of lines

`ls`, `print_unknown` and `list_all_process` print a line with `puts`, add 1 to the row and set the column to 0. While
the lines are shorter than a row and there are rows left, line `k` stands in the `k`-th of them (`putsLines_listed`). A
line as long as a row would leave the next one blank, since `putchar` has begun it already.

| here | there |
| --- | --- |
| `Line`      | the text and the attributes of a `puts` |
| `putsLine`  | `puts`, then the cursor (`ls.c:16-18`, `user-shell.c:224-235`, `syscall_command.c:75-77`) |
| `Listed`    | what the screen shows afterwards |
-/

namespace MoggersOs

structure Line where
  text : ℕ → UInt8
  p    : PutsExtraAttribute

def Line.length (l : Line) : ℕ := l.p.count.toNat

def putsLine (s : Screen) (l : Line) : Screen :=
  let s := (puts l.text l.p s).2
  { s with cursor := ⟨s.cursor.row + 1, 0⟩ }

def putsLines (ls : List Line) (s : Screen) : Screen := ls.foldl putsLine s

/-- The lines stand in rows that follow one another, nothing else is changed, and the cursor is at the beginning of the
next row. -/
structure Listed (ls : List Line) (s s' : Screen) : Prop where
  text   : ∀ k l, ls[k]? = some l → ∀ j < l.length,
    s'.framebuffer.cell (s.cursor.index + 80 * k + j) = textCell l.p.textColor (l.text j)
  others : ∀ i, (∀ k l, ls[k]? = some l → ∀ j < l.length, i ≠ s.cursor.index + 80 * k + j) →
    s'.framebuffer.cell i = s.framebuffer.cell i
  row    : s'.cursor.row.toInt = s.cursor.row.toInt + ls.length
  col    : s'.cursor.col = 0

/-- The cursor is at the beginning of a row. -/
structure Cp.AtStart (c : Cp) : Prop where
  row : 0 ≤ c.row.toInt
  col : c.col = 0

namespace Cp.AtStart

variable {c : Cp} (h : c.AtStart)
include h

theorem col_toInt : c.col.toInt = 0 := by
  rw [h.col]
  rfl

theorem inRow : c.InRow := ⟨h.row, Int.le_of_eq h.col_toInt.symm, by rw [h.col_toInt]; decide⟩

theorem index : c.index = 80 * c.row.toInt.toNat := by
  have hrow := h.row
  unfold Cp.index
  rw [h.col_toInt]
  omega

end Cp.AtStart

/-- One line, shorter than a row. -/
theorem putsLine_listed {l : Line} {s : Screen} (hc : s.cursor.AtStart) (hrow : s.cursor.row.toInt < 25) (hl : l.length < 80) :
    (putsLine s l).cursor.AtStart ∧ (putsLine s l).cursor.index = s.cursor.index + 80 ∧
      (putsLine s l).cursor.row.toInt = s.cursor.row.toInt + 1 ∧
      (putsLine s l).framebuffer.cell = Lib.assign (s.cursor.index + ·)
        (fun k => textCell l.p.textColor (l.text k)) (List.range l.length) s.framebuffer.cell := by
  have hindex := hc.index
  have hpos := hc.row
  unfold Line.length at hl
  obtain ⟨hin, hafter, hcells⟩ := rounds l.text l.p.textColor hc.inRow (n := l.p.count.toNat) (by omega)
  unfold putsLine puts
  generalize (List.range l.p.count.toNat).foldl (putsRound l.text l.p.textColor) s = s' at hin hafter hcells
  -- the line has not left its row
  obtain ⟨hr, hcol, hedge⟩ := hin
  have hsame : s'.cursor.row.toInt = s.cursor.row.toInt := by
    rw [hindex] at hafter
    unfold Cp.index at hafter
    omega
  have hnext : (s'.cursor.row + 1).toInt = s.cursor.row.toInt + 1 := by
    rw [toInt_succ (by omega), hsame]
  have hstart : Cp.AtStart ⟨s'.cursor.row + 1, 0⟩ := ⟨by rw [hnext]; omega, rfl⟩
  refine ⟨hstart, ?_, hnext, hcells⟩
  rw [hstart.index, hindex, hnext]
  omega

/-- **A list of lines.** -/
theorem putsLines_listed {ls : List Line} (hls : ∀ l ∈ ls, l.length < 80) : ∀ {s : Screen}, s.cursor.AtStart →
    s.cursor.row.toInt + ls.length ≤ 25 → Listed ls s (putsLines ls s) := by
  induction ls with
  | nil =>
    intro s hc _
    exact ⟨fun k l hk => absurd hk (by simp), fun i _ => rfl, by simp [putsLines], hc.col⟩
  | cons l ls ih =>
    obtain ⟨hl, hls⟩ := List.forall_mem_cons.1 hls
    intro s hc hfit
    rw [List.length_cons] at hfit
    push_cast at hfit
    obtain ⟨hc', hindex, hrow, hcells⟩ := putsLine_listed hc (by omega) hl
    obtain ⟨htext, hothers, hrow', hcol⟩ := ih hls hc' (by omega)
    have hnodup : ((List.range l.length).map (s.cursor.index + ·)).Nodup :=
      List.nodup_range.map fun i j he => Nat.add_left_cancel he
    refine ⟨fun k l' hk j hj => ?_, fun i hi => ?_, ?_, hcol⟩
    · cases k with
      | zero =>
        obtain rfl : l = l' := by simpa using hk
        -- the lines below leave the first one alone
        refine (hothers _ fun k' l' hk' j' hj' he => ?_).trans ?_
        · rw [hindex] at he
          omega
        · rw [hcells, Nat.mul_zero, Nat.add_zero]
          exact Lib.assign_of_mem hnodup (List.mem_range.2 hj)
      | succ k =>
        have hcell := htext k l' (by simpa using hk) j hj
        rw [hindex] at hcell
        rw [← hcell]
        exact congrArg _ (by omega)
    · refine (hothers i fun k l' hk j hj he => ?_).trans ?_
      · rw [hindex] at he
        exact hi (k + 1) l' (by simpa using hk) j hj (by omega)
      · rw [hcells]
        refine Lib.assign_of_notMem fun k hk he => ?_
        exact hi 0 l (by simp) k (List.mem_range.1 hk) (by omega)
    · rw [List.length_cons]
      push_cast
      rw [show (putsLines (l :: ls) s).cursor.row = (putsLines ls (putsLine s l)).cursor.row from rfl, hrow', hrow]
      omega

end MoggersOs
