import Mathlib.Logic.Function.Iterate

/-!
# Dates and times of day

The calendar with its leap years: `Date.next` is the day after, and `DateTime.addHours` moves a time of day on
and the date with it, once for each midnight passed. Both lead from valid ones to valid ones.
-/

namespace Lib

@[ext] structure Date where
  year  : ℕ
  month : ℕ
  day   : ℕ
deriving DecidableEq

namespace Date

def isLeap (year : ℕ) : Bool := year % 4 = 0 && (year % 100 ≠ 0 || year % 400 = 0)

def daysInMonth (year month : ℕ) : ℕ :=
  if month = 2 then if isLeap year then 29 else 28
  else if month = 4 ∨ month = 6 ∨ month = 9 ∨ month = 11 then 30
  else 31

structure Valid (d : Date) : Prop where
  month_pos : 1 ≤ d.month
  month_le  : d.month ≤ 12
  day_pos   : 1 ≤ d.day
  day_le    : d.day ≤ daysInMonth d.year d.month

/-- The last day of its month. -/
def IsLast (d : Date) : Prop := d.day = daysInMonth d.year d.month

instance (d : Date) : Decidable d.IsLast := inferInstanceAs (Decidable (_ = _))

def next (d : Date) : Date :=
  if d.day < daysInMonth d.year d.month then { d with day := d.day + 1 }
  else if d.month < 12 then ⟨d.year, d.month + 1, 1⟩
  else ⟨d.year + 1, 1, 1⟩

theorem daysInMonth_bounds (year month : ℕ) : 28 ≤ daysInMonth year month ∧ daysInMonth year month ≤ 31 := by
  unfold daysInMonth
  split
  · split
    · omega
    · omega
  · split
    · omega
    · omega

variable {d : Date}

theorem next_of_not_last (h : d.Valid) (hl : ¬ d.IsLast) : d.next = { d with day := d.day + 1 } :=
  if_pos (Nat.lt_of_le_of_ne h.day_le hl)

/-- After the last of a month comes another month. -/
theorem next_of_last (h : d.Valid) (hl : d.IsLast) : d.next.month ≠ d.month := by
  have hm := h.month_pos
  unfold next
  rw [if_neg (by rw [hl]; exact Nat.lt_irrefl _)]
  split
  · exact Nat.succ_ne_self _
  next h12 => exact fun he => absurd he (by dsimp only; omega)

theorem Valid.next (h : d.Valid) : d.next.Valid := by
  have hone : ∀ year month, 1 ≤ daysInMonth year month :=
    fun year month => Nat.le_trans (Nat.le_add_left 1 27) (daysInMonth_bounds year month).1
  unfold Date.next
  split
  next hlt => exact ⟨h.month_pos, h.month_le, Nat.le_add_left .., hlt⟩
  next =>
    split
    next hlt => exact ⟨Nat.le_add_left .., hlt, Nat.le_refl _, hone ..⟩
    next => exact ⟨Nat.le_refl _, Nat.le_of_ble_eq_true rfl, Nat.le_refl _, hone ..⟩

/-- When counting up the day alone is going on to the next day, or staying. -/
theorem add_day_eq_iff (h : d.Valid) {c k : ℕ} (hk : k ≤ 1) :
    (⟨d.year, d.month, d.day + c⟩ : Date) = Date.next^[k] d ↔ c = k ∧ (k = 1 → ¬ d.IsLast) := by
  obtain rfl | rfl : k = 0 ∨ k = 1 := by omega
  · simp [Date.ext_iff]
  · by_cases hl : d.IsLast
    · refine ⟨fun he => ?_, fun he => absurd hl (he.2 rfl)⟩
      exact absurd (congrArg Date.month he).symm (next_of_last h hl)
    · simp [next_of_not_last h hl, Date.ext_iff, hl]

end Date

@[ext] structure DateTime where
  date   : Date
  hour   : ℕ
  minute : ℕ
  second : ℕ
deriving DecidableEq

namespace DateTime

structure Valid (t : DateTime) : Prop where
  date   : t.date.Valid
  hour   : t.hour < 24
  minute : t.minute < 60
  second : t.second < 60

def addHours (t : DateTime) (n : ℕ) : DateTime :=
  { t with date := Date.next^[(t.hour + n) / 24] t.date, hour := (t.hour + n) % 24 }

theorem Valid.addHours {t : DateTime} (h : t.Valid) (n : ℕ) : (t.addHours n).Valid := by
  refine ⟨?_, Nat.mod_lt _ (by decide), h.minute, h.second⟩
  exact Function.Iterate.rec Date.Valid h.date (fun _ hd => hd.next) _

end DateTime

end Lib
