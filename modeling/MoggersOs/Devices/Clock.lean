import MoggersOs.Lib.Calendar
import Mathlib.Data.Nat.Bitwise
import Mathlib.Tactic.IntervalCases
/-
# The clock (`cmos/cmos.c`)

| here | there |
| --- | --- |
| `RtcRegisters`             | registers `0x00`, `0x02`, `0x04`, `0x07`, `0x08` and `0x09`, as one round of `read_rtc` reads them |
| `Time`                     | `struct Time` (`cmos.h:16-23`) |
| `readRounds`               | the `do` loop (`cmos.c:39-62`): rounds until one reads what the round before read |
| `bcdToBinary`, `shiftHour`, `pmHour`, `fullYear` | `cmos.c:68-91` |
| `convert`, `readRtc`       | `read_rtc` after the loop, and all of it |
| `encode`                   | the registers of a chip that keeps UTC, in the formats that register B says |

`century_register` is 0 and nothing assigns it, so the branches on it are left out; the loops on the
update-in-progress flag only wait. No variable gets beyond a few thousand, so they are natural numbers.

The hour is shifted to WIB where BCD is decoded and nowhere else. The day is moved on when the shifted hour is not a multiple
of 24, instead of when the shift passes midnight; the PM bit is still in it then, and the month and the year are never
moved on.
-/

namespace MoggersOs

open Lib (Date DateTime)

structure RtcRegisters where
  second : UInt8
  minute : UInt8
  hour   : UInt8
  day    : UInt8
  month  : UInt8
  year   : UInt8
deriving DecidableEq

structure Time where
  second : ℕ
  minute : ℕ
  hour   : ℕ
  day    : ℕ
  month  : ℕ
  year   : ℕ
deriving DecidableEq

/-! ## `read_rtc` -/

/-- `rounds n` is what round `n` reads. -/
def readRounds (rounds : ℕ → RtcRegisters) : ℕ → ℕ → Option RtcRegisters
  | 0, _ => none
  | fuel + 1, n => if rounds n = rounds (n + 1) then some (rounds (n + 1)) else readRounds rounds fuel (n + 1)

def bcdToBinary (x : ℕ) : ℕ := (x &&& 0x0F) + (x / 16) * 10

def shiftHour (hour : ℕ) : ℕ := (((hour &&& 0x0F) + ((hour &&& 0x70) / 16) * 10 + 7) % 24) ||| (hour &&& 0x80)

def pmHour (hour : ℕ) : ℕ := if hour &&& 0x80 ≠ 0 then ((hour &&& 0x7F) + 12) % 24 else hour

/-- `CURRENT_YEAR` is 2023. -/
def fullYear (year : ℕ) : ℕ :=
  let year := year + 2023 / 100 * 100
  if year < 2023 then year + 100 else year

/-- `!(registerB & 0x04)`. -/
def isBcd (registerB : UInt8) : Bool := registerB &&& 0x04 == 0

/-- `!(registerB & 0x02)`. -/
def isTwelveHour (registerB : UInt8) : Bool := registerB &&& 0x02 == 0

def convert (bcd twelveHour : Bool) (r : RtcRegisters) : Time :=
  let second := if bcd then bcdToBinary r.second.toNat else r.second.toNat
  let minute := if bcd then bcdToBinary r.minute.toNat else r.minute.toNat
  let hour := if bcd then shiftHour r.hour.toNat else r.hour.toNat
  let day := if bcd then bcdToBinary r.day.toNat + (if hour % 24 ≠ 0 then 1 else 0) else r.day.toNat
  let month := if bcd then bcdToBinary r.month.toNat else r.month.toNat
  let year := if bcd then bcdToBinary r.year.toNat else r.year.toNat
  let hour := if twelveHour then pmHour hour else hour
  ⟨second, minute, hour, day, month, fullYear year⟩

def readRtc (fuel : ℕ) (rounds : ℕ → RtcRegisters) (registerB : UInt8) : Option Time :=
  (readRounds rounds fuel 0).map (convert (isBcd registerB) (isTwelveHour registerB))

/-! ## What it should say -/

def Time.toDateTime (t : Time) : DateTime := ⟨⟨t.year, t.month, t.day⟩, t.hour, t.minute, t.second⟩

def toBcd (n : ℕ) : ℕ := n / 10 * 16 + n % 10

/-- An hour as the register holds it: from 1 to 12 with the PM bit, or from 0 to 23. -/
def encodeHour (bcd twelveHour : Bool) (hour : ℕ) : ℕ :=
  let value := if twelveHour then if hour % 12 = 0 then 12 else hour % 12 else hour
  (if bcd then toBcd value else value) + if twelveHour && 12 ≤ hour then 0x80 else 0

def encodeValue (bcd : Bool) (n : ℕ) : UInt8 := UInt8.ofNat (if bcd then toBcd n else n)

def encode (bcd twelveHour : Bool) (t : DateTime) : RtcRegisters where
  second := encodeValue bcd t.second
  minute := encodeValue bcd t.minute
  hour := UInt8.ofNat (encodeHour bcd twelveHour t.hour)
  day := encodeValue bcd t.date.day
  month := encodeValue bcd t.date.month
  year := encodeValue bcd (t.date.year % 100)

/-- However many rounds it may take, `read_rtc` returns a valid time, seven hours ahead of `t`. -/
def ReportsWib (rounds : ℕ → RtcRegisters) (registerB : UInt8) (t : DateTime) : Prop :=
  ∀ fuel, ∃ time, readRtc (fuel + 1) rounds registerB = some time ∧ time.toDateTime.Valid ∧
    time.toDateTime = t.addHours 7

/-- The registers are BCD, the day is not the last of its month, and the hour is one of those whose shift and day
carry come out right. -/
def WibSafe (registerB : UInt8) (t : DateTime) : Prop :=
  isBcd registerB = true ∧ ¬ t.date.IsLast ∧
    if isTwelveHour registerB then 17 ≤ t.hour ∧ t.hour ≠ 21 else 18 ≤ t.hour

/-! ## Decoding -/

theorem bcdToBinary_toBcd (n : ℕ) : bcdToBinary (toBcd n) = n := by
  have hmask : ∀ x, x &&& 0x0F = x % 16 := fun x => Nat.and_two_pow_sub_one_eq_mod x 4
  unfold bcdToBinary toBcd
  rw [hmask]
  omega

theorem bcdToBinary_encodeValue {n : ℕ} (h : n < 100) : bcdToBinary (encodeValue true n).toNat = n := by
  have hlt : toBcd n < UInt8.size := by
    simp only [toBcd, UInt8.size]
    omega
  unfold encodeValue
  rw [if_pos rfl, UInt8.toNat_ofNat_of_lt' hlt, bcdToBinary_toBcd]

theorem encodeHour_toNat (bcd twelveHour : Bool) {hour : ℕ} (h : hour < 24) :
    (UInt8.ofNat (encodeHour bcd twelveHour hour)).toNat = encodeHour bcd twelveHour hour := by
  refine UInt8.toNat_ofNat_of_lt' ?_
  simp only [encodeHour, toBcd, UInt8.size]
  split_ifs <;> omega

theorem fullYear_eq {year : ℕ} (h : 2023 ≤ year) (h' : year ≤ 2099) : fullYear (year % 100) = year := by
  unfold fullYear
  dsimp only
  rw [if_neg (by omega)]
  omega

/-! ## Hours

Each format is a table of 24 hours. -/

theorem shiftHour_twentyFour : ∀ hour < 24, shiftHour (encodeHour true false hour) = (hour + 7) % 24 := by decide

theorem shiftHour_twelve : ∀ hour < 24,
    (pmHour (shiftHour (encodeHour true true hour)) = (hour + 7) % 24 ∧
      (if shiftHour (encodeHour true true hour) % 24 ≠ 0 then 1 else 0) = (hour + 7) / 24) ↔
    17 ≤ hour ∧ hour ≠ 21 := by decide

/-- Binary hours are never shifted. -/
theorem binaryHour : ∀ twelveHour : Bool, ∀ hour < 24,
    (if twelveHour then pmHour (encodeHour false twelveHour hour) else encodeHour false twelveHour hour) ≠
      (hour + 7) % 24 := by decide

/-! ## `read_rtc` -/

theorem readRounds_stable {rounds : ℕ → RtcRegisters} {r : RtcRegisters} (h : ∀ n, rounds n = r) (fuel : ℕ) :
    readRounds rounds (fuel + 1) 0 = some r := by
  unfold readRounds
  rw [h, h, if_pos rfl]

section

variable {t : DateTime} (hv : t.Valid) (hy : 2023 ≤ t.date.year) (hy' : t.date.year ≤ 2099)
include hv hy hy'

theorem convert_bcd (twelveHour : Bool) : (convert true twelveHour (encode true twelveHour t)).toDateTime =
    let s := shiftHour (encodeHour true twelveHour t.hour)
    ⟨⟨t.date.year, t.date.month, t.date.day + if s % 24 ≠ 0 then 1 else 0⟩,
      if twelveHour then pmHour s else s, t.minute, t.second⟩ := by
  have hday := Date.daysInMonth_bounds t.date.year t.date.month
  obtain ⟨hdate, hhour, hminute, hsecond⟩ := hv
  have hmonth := hdate.month_le
  have hle := hdate.day_le
  simp only [convert, encode, Time.toDateTime, if_true, encodeHour_toNat true twelveHour hhour]
  rw [bcdToBinary_encodeValue (by omega), bcdToBinary_encodeValue (by omega), bcdToBinary_encodeValue (by omega),
    bcdToBinary_encodeValue (by omega), bcdToBinary_encodeValue (by omega), fullYear_eq hy hy']

/-- BCD registers come out right exactly if the hour does and the day is moved on exactly at midnight, to a day of
the same month. -/
theorem convert_bcd_eq_iff (twelveHour : Bool) :
    (convert true twelveHour (encode true twelveHour t)).toDateTime = t.addHours 7 ↔
      ((if twelveHour then pmHour (shiftHour (encodeHour true twelveHour t.hour))
          else shiftHour (encodeHour true twelveHour t.hour)) = (t.hour + 7) % 24 ∧
        (if shiftHour (encodeHour true twelveHour t.hour) % 24 ≠ 0 then 1 else 0) = (t.hour + 7) / 24) ∧
      ((t.hour + 7) / 24 = 1 → ¬ t.date.IsLast) := by
  have hhour := hv.hour
  have hdate := Date.add_day_eq_iff hv.date
    (c := if shiftHour (encodeHour true twelveHour t.hour) % 24 ≠ 0 then 1 else 0) (k := (t.hour + 7) / 24)
    (by omega)
  rw [convert_bcd hv hy hy', DateTime.addHours]
  simp only [DateTime.ext_iff, hdate]
  constructor
  · rintro ⟨⟨hc, hlast⟩, hh, -⟩
    exact ⟨⟨hh, hc⟩, hlast⟩
  · rintro ⟨⟨hh, hc⟩, hlast⟩
    exact ⟨⟨hc, hlast⟩, hh, trivial, trivial⟩

theorem convert_eq_iff (registerB : UInt8) :
    (convert (isBcd registerB) (isTwelveHour registerB) (encode (isBcd registerB) (isTwelveHour registerB) t)).toDateTime =
      t.addHours 7 ↔ WibSafe registerB t := by
  have hhour := hv.hour
  unfold WibSafe
  cases isBcd registerB with
  | false =>
    refine ⟨fun he => ?_, fun h => absurd h.1 (by decide)⟩
    have hwrong := congrArg DateTime.hour he
    simp only [convert, encode, Time.toDateTime, Bool.false_eq_true, if_false, encodeHour_toNat false _ hhour] at hwrong
    exact absurd hwrong (binaryHour _ _ hhour)
  | true =>
    rw [convert_bcd_eq_iff hv hy hy']
    cases isTwelveHour registerB with
    | false =>
      simp only [Bool.false_eq_true, if_false, shiftHour_twentyFour _ hhour]
      constructor
      · rintro ⟨⟨-, hc⟩, hlast⟩
        have h18 : 18 ≤ t.hour := by
          split at hc
          · omega
          · omega
        exact ⟨trivial, hlast (by omega), h18⟩
      · rintro ⟨-, hlast, h18⟩
        refine ⟨⟨trivial, ?_⟩, fun _ => hlast⟩
        rw [if_pos (by omega)]
        omega
    | true =>
      simp only [if_true, shiftHour_twelve _ hhour]
      constructor
      · rintro ⟨h17, hlast⟩
        exact ⟨trivial, hlast (by omega), h17⟩
      · rintro ⟨-, hlast, h17⟩
        exact ⟨h17, fun _ => hlast⟩

/-- **When `read_rtc` reports WIB**: for every valid UTC time of the years 2023 to 2099 and every register B. -/
theorem reports_wib_iff {rounds : ℕ → RtcRegisters} (registerB : UInt8)
    (hstable : ∀ n, rounds n = encode (isBcd registerB) (isTwelveHour registerB) t) :
    ReportsWib rounds registerB t ↔ WibSafe registerB t := by
  rw [← convert_eq_iff hv hy hy']
  unfold ReportsWib readRtc
  constructor
  · intro h
    obtain ⟨time, htime, -, he⟩ := h 0
    rw [readRounds_stable hstable, Option.map_some] at htime
    cases htime
    exact he
  · intro he fuel
    refine ⟨_, by rw [readRounds_stable hstable, Option.map_some], ?_, he⟩
    rw [he]
    exact hv.addHours 7

end

/-- BCD and 24 hours. -/
def registerB24 : UInt8 := 0x02

def juneEvening : DateTime := ⟨⟨2024, 6, 29⟩, 20, 30, 0⟩

def juneNoon : DateTime := ⟨⟨2024, 6, 29⟩, 12, 0, 0⟩

theorem juneNoon_valid : juneNoon.Valid := ⟨⟨by decide, by decide, by decide, by decide⟩, by decide, by decide, by decide⟩

/-- In the evening the day is moved on as it should. -/
theorem reports_wib_evening : ReportsWib (fun _ => encode true false juneEvening) registerB24 juneEvening := by
  have hvalid : juneEvening.Valid :=
    ⟨⟨by decide, by decide, by decide, by decide⟩, by decide, by decide, by decide⟩
  exact (reports_wib_iff hvalid (by decide) (by decide) registerB24 fun _ => rfl).mpr ⟨rfl, by decide, by decide⟩

/-- At noon it is moved on too, though seven in the evening is the same day. -/
theorem not_reports_wib_noon : juneNoon.Valid ∧
    readRtc 1 (fun _ => encode true false juneNoon) registerB24 = some ⟨0, 0, 19, 30, 6, 2024⟩ ∧
    ¬ ReportsWib (fun _ => encode true false juneNoon) registerB24 juneNoon := by
  have hread : readRtc 1 (fun _ => encode true false juneNoon) registerB24 = some ⟨0, 0, 19, 30, 6, 2024⟩ := by
    decide +kernel
  refine ⟨juneNoon_valid, hread, fun h => ?_⟩
  obtain ⟨time, htime, -, he⟩ := h 0
  rw [hread] at htime
  cases htime
  exact absurd he (by decide)

end MoggersOs
