import Mathlib.Tactic.Ring
/-!
# The proleptic Gregorian calendar, as the C library breaks a time down

`gmtime` splits a count of seconds since 1970-01-01T00:00:00 UTC into a day and a second of that
day, and the day into a year, a month and a day of the month; `timegm` counts them back.  The
arithmetic is the C library's: the days before a year come from a closed count of leap years,
and the year and month of a day are found by stepping over whole years from the start of its
400-year era (146097 days, wherever the era starts) and over whole months from January.

`timegm_gmtime` is the round trip on every instant and `gmtime_valid` says that the fields are in
their ranges.  A zone of one fixed offset from UTC, with no daylight saving, is `gmtime` and
`timegm` shifted by the offset (`localtime`, `mktime`).
-/

namespace Calendar

/-! ## Years and months -/

/-- A broken-down time as `struct tm` holds it: years since 1900, months from 0. -/
structure Tm where
  year : Int
  mon : Int
  mday : Int
  hour : Int
  min : Int
  sec : Int
  deriving DecidableEq, Repr

/-- The Gregorian leap years. -/
def isLeap (y : Int) : Bool := (y % 4 == 0 && y % 100 != 0) || y % 400 == 0

/-- The days of year `y`. -/
def daysInYear (y : Int) : Int := if isLeap y then 366 else 365

/-- The days of month `m` of year `y`, months counted from 0. -/
def daysInMonth (y : Int) : Nat → Int
  | 1 => if isLeap y then 29 else 28
  | 3 | 5 | 8 | 10 => 30
  | _ => 31

/-- The leap years among `1, …, y`, or minus those among `y + 1, …, 0` when `y` is negative. -/
def leapsThru (y : Int) : Int := y / 4 - y / 100 + y / 400

/-- The days from 1970-01-01 to the first day of year `y`. -/
def daysBeforeYear (y : Int) : Int := 365 * (y - 1970) + (leapsThru (y - 1) - leapsThru 1969)

/-- The days of year `y` before month `m`. -/
def daysBeforeMonth (y : Int) : Nat → Int
  | 0 => 0
  | m + 1 => daysBeforeMonth y m + daysInMonth y m

/-- The days from 1970-01-01 to day `d` (from 0) of month `m` of year `y`. -/
def daysFromCivil (y : Int) (m : Nat) (d : Int) : Int := daysBeforeYear y + daysBeforeMonth y m + d

lemma isLeap_iff (y : Int) : isLeap y = true ↔ (y % 4 = 0 ∧ y % 100 ≠ 0) ∨ y % 400 = 0 := by
  simp [isLeap]

lemma daysBeforeYear_succ (y : Int) : daysBeforeYear (y + 1) = daysBeforeYear y + daysInYear y := by
  unfold daysBeforeYear daysInYear leapsThru
  by_cases h : isLeap y = true
  · rw [if_pos h]
    rw [isLeap_iff] at h
    omega
  · rw [if_neg h]
    rw [isLeap_iff] at h
    omega

/-- A 400-year era has 146097 days, wherever it starts. -/
lemma daysBeforeYear_add_era (y : Int) : daysBeforeYear (y + 400) = daysBeforeYear y + 146097 := by
  unfold daysBeforeYear leapsThru
  omega

lemma daysBeforeYear_era (q : Int) : daysBeforeYear (1970 + 400 * q) = 146097 * q := by
  unfold daysBeforeYear leapsThru
  omega

attribute [local simp] daysBeforeMonth daysInMonth in
lemma daysBeforeMonth_twelve (y : Int) : daysBeforeMonth y 12 = daysInYear y := by
  simp only [daysBeforeMonth, daysInMonth, daysInYear]
  cases isLeap y <;> rfl

lemma daysInMonth_le (y : Int) (m : Nat) : daysInMonth y m ≤ 31 := by
  unfold daysInMonth
  split
  · split <;> decide
  all_goals decide

/-! ## Stepping over years and months -/

/-- The year of day `r` of year `y` and the day within that year, stepping over at most `fuel`
whole years. -/
def yearOf : Nat → Int → Int → Int × Int
  | 0, y, r => (y, r)
  | fuel + 1, y, r => if r < daysInYear y then (y, r) else yearOf fuel (y + 1) (r - daysInYear y)

/-- The month of day `r` of year `y`, counted from month `m`, and the day within that month. -/
def monthOf (y : Int) : Nat → Nat → Int → Nat × Int
  | 0, m, r => (m, r)
  | fuel + 1, m, r =>
    if r < daysInMonth y m then (m, r) else monthOf y fuel (m + 1) (r - daysInMonth y m)

attribute [local simp] yearOf in
/-- Stepping over years keeps the day the year and the day within it denote. -/
lemma yearOf_days (fuel : Nat) (y r : Int) :
    daysBeforeYear (yearOf fuel y r).1 + (yearOf fuel y r).2 = daysBeforeYear y + r := by
  induction fuel generalizing y r with
  | zero => rfl
  | succ fuel ih =>
    simp only [yearOf]
    split
    · rfl
    · rw [ih, daysBeforeYear_succ]
      omega

/-- A day within the next `fuel` years ends within its year. -/
lemma yearOf_bounds (fuel : Nat) (y r : Int) (h0 : 0 ≤ r)
    (h : r < daysBeforeYear (y + fuel) - daysBeforeYear y) :
    0 ≤ (yearOf fuel y r).2 ∧ (yearOf fuel y r).2 < daysInYear (yearOf fuel y r).1 := by
  induction fuel generalizing y r with
  | zero => simp at h; omega
  | succ fuel ih =>
    simp only [yearOf]
    split
    · exact ⟨h0, by assumption⟩
    · apply ih
      · omega
      · have hy : y + ((fuel + 1 : Nat) : Int) = y + 1 + fuel := by push_cast; ring
        rw [hy] at h
        rw [daysBeforeYear_succ]
        omega

attribute [local simp] monthOf in
lemma monthOf_days (y : Int) (fuel m : Nat) (r : Int) :
    daysBeforeMonth y (monthOf y fuel m r).1 + (monthOf y fuel m r).2 = daysBeforeMonth y m + r := by
  induction fuel generalizing m r with
  | zero => rfl
  | succ fuel ih =>
    simp only [monthOf]
    split
    · rfl
    · rw [ih, daysBeforeMonth]
      omega

/-- A day within the next `fuel` months ends within its month, one of those months. -/
lemma monthOf_bounds (y : Int) (fuel m : Nat) (r : Int) (h0 : 0 ≤ r)
    (h : r < daysBeforeMonth y (m + fuel) - daysBeforeMonth y m) :
    (monthOf y fuel m r).1 < m + fuel ∧ 0 ≤ (monthOf y fuel m r).2 ∧
      (monthOf y fuel m r).2 < daysInMonth y (monthOf y fuel m r).1 := by
  induction fuel generalizing m r with
  | zero => simp at h; omega
  | succ fuel ih =>
    simp only [monthOf]
    split
    · exact ⟨by omega, h0, by assumption⟩
    · have hm : m + (fuel + 1) = m + 1 + fuel := by omega
      rw [hm] at h
      obtain ⟨hlt, hr⟩ := ih (m + 1) (r - daysInMonth y m) (by omega)
        (by rw [daysBeforeMonth]; omega)
      exact ⟨by omega, hr⟩

/-! ## Broken-down UTC time -/

/-- The year, the month (from 0) and the day of the month (from 0) of day `z` since 1970-01-01:
the year is looked for in the 400-year era of the day. -/
def civilFromDays (z : Int) : Int × Nat × Int :=
  let yd := yearOf 400 (1970 + 400 * (z / 146097)) (z % 146097)
  let md := monthOf yd.1 12 0 yd.2
  (yd.1, md.1, md.2)

/-- `gmtime`: the broken-down UTC time of instant `t`. -/
def gmtime (t : Int) : Tm :=
  let date := civilFromDays (t / 86400)
  let s := t % 86400
  ⟨date.1 - 1900, date.2.1, date.2.2 + 1, s / 3600, s % 3600 / 60, s % 60⟩

/-- `timegm`: the instant of a broken-down UTC time.  A month past 11 or below 0 carries into the
year; the other fields count as they stand. -/
def timegm (tm : Tm) : Int :=
  daysFromCivil (1900 + tm.year + tm.mon / 12) (tm.mon % 12).toNat (tm.mday - 1) * 86400 +
    tm.hour * 3600 + tm.min * 60 + tm.sec

/-- The fields of a broken-down time are in their ranges. -/
structure Tm.Valid (tm : Tm) : Prop where
  mon : 0 ≤ tm.mon ∧ tm.mon < 12
  mday : 1 ≤ tm.mday ∧ tm.mday ≤ daysInMonth (1900 + tm.year) tm.mon.toNat
  hour : 0 ≤ tm.hour ∧ tm.hour < 24
  min : 0 ≤ tm.min ∧ tm.min < 60
  sec : 0 ≤ tm.sec ∧ tm.sec < 60

attribute [local simp] civilFromDays in
lemma civilFromDays_days (z : Int) :
    daysFromCivil (civilFromDays z).1 (civilFromDays z).2.1 (civilFromDays z).2.2 = z := by
  simp only [civilFromDays, daysFromCivil]
  rw [add_assoc, monthOf_days, daysBeforeMonth, zero_add, yearOf_days, daysBeforeYear_era]
  omega

lemma civilFromDays_valid (z : Int) :
    (civilFromDays z).2.1 < 12 ∧ 0 ≤ (civilFromDays z).2.2 ∧
      (civilFromDays z).2.2 < daysInMonth (civilFromDays z).1 (civilFromDays z).2.1 := by
  simp only [civilFromDays]
  have hera : 0 ≤ z % 146097 ∧ z % 146097 < 146097 := by omega
  obtain ⟨hr0, hr⟩ := yearOf_bounds 400 (1970 + 400 * (z / 146097)) (z % 146097) hera.1
    (by push_cast; rw [daysBeforeYear_add_era]; omega)
  apply monthOf_bounds _ 12 0 _ hr0
  rw [zero_add, daysBeforeMonth_twelve, daysBeforeMonth]
  omega

attribute [local simp] gmtime in
theorem gmtime_valid (t : Int) : (gmtime t).Valid := by
  obtain ⟨hm, hd0, hd⟩ := civilFromDays_valid (t / 86400)
  refine ⟨⟨?_, ?_⟩, ⟨?_, ?_⟩, ⟨?_, ?_⟩, ⟨?_, ?_⟩, ⟨?_, ?_⟩⟩
  all_goals simp only [gmtime]
  all_goals try omega
  simp only [Int.toNat_natCast, add_sub_cancel]
  omega

/-- `timegm` undoes `gmtime`. -/
theorem timegm_gmtime (t : Int) : timegm (gmtime t) = t := by
  obtain ⟨hm, -, -⟩ := civilFromDays_valid (t / 86400)
  have hdays := civilFromDays_days (t / 86400)
  have hdiv : ((civilFromDays (t / 86400)).2.1 : Int) / 12 = 0 := by omega
  have hmod : (((civilFromDays (t / 86400)).2.1 : Int) % 12).toNat = (civilFromDays (t / 86400)).2.1 := by
    omega
  simp only [timegm, gmtime, hdiv, hmod]
  rw [show 1900 + ((civilFromDays (t / 86400)).1 - 1900) + 0 = (civilFromDays (t / 86400)).1 by ring,
    add_sub_cancel_right, hdays]
  omega

/-- The hour of day of an instant. -/
lemma gmtime_hour (t : Int) : (gmtime t).hour = t % 86400 / 3600 := rfl

/-! ## A zone of fixed offset -/

/-- `localtime_r` in a zone `off` seconds east of UTC with no daylight saving. -/
def localtime (off t : Int) : Tm := gmtime (t + off)

/-- `mktime` in that zone: the instant whose local time is `tm`. -/
def mktime (off : Int) (tm : Tm) : Int := timegm tm - off

theorem localtime_valid (off t : Int) : (localtime off t).Valid := gmtime_valid (t + off)

/-- The local time of an instant, read as UTC, is the instant shifted by the offset. -/
lemma timegm_localtime (off t : Int) : timegm (localtime off t) = t + off := timegm_gmtime (t + off)

end Calendar
