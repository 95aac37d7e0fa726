import Isulad.Framework.Calendar
import Isulad.Framework.Printf
import Isulad.Cutils.Utils
import Isulad.Cutils.UtilsRegex
import Isulad.Image.Oci.ListImages

/-!
# Timestamps as text (`types_def.c`)

The daemon writes instants as RFC 3339 texts and reads them back.  `get_time_buffer` prints the
local wall clock with `strftime`, then the nanoseconds and a zone `+HH:00` or `-HH:00`, where
`HH` is the local hour minus the UTC hour wrapped into `[-12, 12]`; it tests the length of the
zone against the room left after writing it, so it fails unless the buffer holds the date and
the zone twice over (`appendChecked_eq_some_iff`).  `to_unix_nanos_from_str`
checks a text against `util_valid_time_tz`'s pattern and converts it to nanoseconds since the
epoch: with a final `Z` by `timegm`, otherwise by `mktime` on the wall-clock fields, and
`time_seconds_since` counts the seconds from a text to now with `mktime` on both sides and the
text's offset added.

The C library's time zone is a parameter `off` of the model, in seconds east of UTC, without
daylight saving (`Calendar.localtime`, `Calendar.mktime`).

* `getTimeBuffer_text`: the text written is the RFC 3339 text of the local time with
  `tmZoneHours` whole hours as its offset, and `tmZoneHours_whole` says these are the zone's
  hours when the zone is a whole number of hours strictly between `-12` and `12`.
* `toUnixNanosFromStr_rfc3339Text`: on every RFC 3339 text with an offset (all of which
  `util_valid_time_tz` accepts, `utilValidTimeTz_rfc3339Text`) `to_unix_nanos_from_str` returns
  the wall clock read in the daemon's zone; the offset in the text is not used, and the result
  is the instant the text denotes exactly when the daemon's zone has the text's offset
  (`toUnixNanosFromStr_eq_instant_iff`).
* `timeSecondsSince_rfc3339Text`: `time_seconds_since` counts from the instant the text denotes,
  whatever the daemon's zone; on a text `get_time_buffer` wrote it is therefore off by the
  stated zone minus the real one (`timeSecondsSince_getTimeBuffer`): right in a zone of whole
  hours below 12 (`timeSecondsSince_getTimeBuffer_whole`), never right in a zone that is not a
  whole number of hours (`timeSecondsSince_getTimeBuffer_ne`).
* `getTimeBuffer_misstates_half_hour_zone`: in a zone `+05:30` the texts say `+05:00` or
  `+06:00`, and in a zone `+12:00` they say `-12:00` half of the day; `to_unix_nanos_from_str`
  reads `1970-01-01T00:00:00+00:00` as 5 h 30 min before the epoch in the zone `+05:30`, and the
  seconds since the text written there at the epoch, counted an hour later, are 1800.
-/

namespace Isulad

namespace TypesDef

open Calendar Printf Regex Cutils ListImages

/-! ## Printing a timestamp -/

/-- `types_timestamp_t`: seconds and nanoseconds, each with its presence flag. -/
structure TypesTimestamp where
  hasSeconds : Bool
  seconds : Int
  hasNanos : Bool
  nanos : Int
  deriving DecidableEq, Repr

/-- The text of `strftime(buf, maxsize, "%Y-%m-%dT%H:%M:%S", tm)`. -/
def strftimeDateTime (tm : Tm) : List Char :=
  zeroPad 4 (tm.year + 1900) ++ '-' :: zeroPad 2 (tm.mon + 1) ++ '-' :: zeroPad 2 tm.mday ++
    'T' :: zeroPad 2 tm.hour ++ ':' :: zeroPad 2 tm.min ++ ':' :: zeroPad 2 tm.sec

/-- The zone `get_time_buffer` states, in whole hours: the local hour minus the UTC hour,
wrapped into `[-12, 12]`. -/
def tmZoneHours (tmLocal tmUtc : Tm) : Int :=
  let tmZone := tmLocal.hour - tmUtc.hour
  if tmZone < -12 then tmZone + 24 else if tmZone > 12 then tmZone - 24 else tmZone

/-- The append at the end of `get_time_buffer`: `snprintf` writes what fits of `zone`, with its
NUL, after the `date` in a buffer of `maxsize` bytes and returns `zone`'s length, which is then
tested against the room left after the append: the text, or `none` where the test fails. -/
def appendChecked (date zone : List Char) (maxsize : Nat) : Option (List Char) :=
  let timebuffer := date ++ zone.take (maxsize - date.length - 1)
  if zone.length ≥ maxsize - timebuffer.length then none else some timebuffer

/-- `get_time_buffer(timestamp, timebuffer, maxsize)` in the zone `off`: the text written, `none`
where it returns false. -/
def getTimeBuffer (off : Int) (timestamp : TypesTimestamp) (maxsize : Nat) : Option (List Char) :=
  if maxsize = 0 ∨ timestamp.hasSeconds = false then none
  else
    let tmLocal := localtime off timestamp.seconds
    let date := strftimeDateTime tmLocal
    -- `strftime` writes nothing when the text and its NUL do not fit
    if maxsize < date.length + 1 then none
    else
      let nanos := if timestamp.hasNanos then timestamp.nanos else 0
      let tmZone := tmZoneHours tmLocal (gmtime timestamp.seconds)
      let zone :=
        if tmZone ≥ 0 then '.' :: zeroPad 9 nanos ++ '+' :: zeroPad 2 tmZone ++ [':', '0', '0']
        else '.' :: zeroPad 9 nanos ++ '-' :: zeroPad 2 (-tmZone) ++ [':', '0', '0']
      appendChecked date zone maxsize

/-! ## Reading the fields of a time -/

/-- The layouts of `utils.h`. -/
def rFC339Local : List Char := "2006-01-02T15:04:05".toList
def rFC339NanoLocal : List Char := "2006-01-02T15:04:05.999999999".toList
def dateLocal : List Char := "2006-01-02".toList
def defaultContainerTime : List Char := "0001-01-01T00:00:00Z".toList

/-- The loop of `parsing_time_to_digit` over the text from index `i`: the digits shifted into
`sum`, and the index past them. -/
def digitLoop : List Char → Int → Nat → Int × Nat
  | [], sum, i => (sum, i)
  | c :: cs, sum, i => if c.isDigit then digitLoop cs (shift sum c) (i + 1) else (sum, i)

/-- `parsing_time_to_digit(time, &i)`: the number at index `i` and the index past it. -/
def parsingTimeToDigit (time : List Char) (i : Nat) : Int × Nat := digitLoop (time.drop i) 0 i

/-- `parsing_time_data_year` and its five siblings: one field of `tm` set from the number at
index `i`. -/
def parsingTimeDataField (set : Tm → Int → Tm) (tm : Tm) (time : List Char) (i : Nat) :
    Tm × Nat :=
  let r := parsingTimeToDigit time i
  (set tm r.1, r.2)

def parsingTimeDataYear : Tm → List Char → Nat → Tm × Nat :=
  parsingTimeDataField fun tm v => { tm with year := v }
def parsingTimeDataMonth : Tm → List Char → Nat → Tm × Nat :=
  parsingTimeDataField fun tm v => { tm with mon := v }
def parsingTimeDataDay : Tm → List Char → Nat → Tm × Nat :=
  parsingTimeDataField fun tm v => { tm with mday := v }
def parsingTimeDataHour : Tm → List Char → Nat → Tm × Nat :=
  parsingTimeDataField fun tm v => { tm with hour := v }
def parsingTimeDataMin : Tm → List Char → Nat → Tm × Nat :=
  parsingTimeDataField fun tm v => { tm with min := v }
def parsingTimeDataSec : Tm → List Char → Nat → Tm × Nat :=
  parsingTimeDataField fun tm v => { tm with sec := v }

/-- `parsing_time_data(time, tm)`: the six fields in order, one separator skipped before each
but the first, stopping at the end of the text. -/
def parsingTimeData (time : List Char) (tm : Tm) : Tm :=
  let r := parsingTimeDataYear tm time 0
  if time.length ≤ r.2 then r.1 else
  let r := parsingTimeDataMonth r.1 time (r.2 + 1)
  if time.length ≤ r.2 then r.1 else
  let r := parsingTimeDataDay r.1 time (r.2 + 1)
  if time.length ≤ r.2 then r.1 else
  let r := parsingTimeDataHour r.1 time (r.2 + 1)
  if time.length ≤ r.2 then r.1 else
  let r := parsingTimeDataMin r.1 time (r.2 + 1)
  if time.length ≤ r.2 then r.1 else
  (parsingTimeDataSec r.1 time (r.2 + 1)).1

/-- `parsing_time(format, time, tm, nanos)`: the fields and the nanoseconds, `none` where it
returns false.  With the nanosecond layout every character from index 20 is shifted in as a
digit and the number is scaled to nine places. -/
def parsingTime (format time : List Char) (tm : Tm) : Option (Tm × Int) :=
  let indexNanos := if format = rFC339NanoLocal then rFC339Local.length + 1 else 0
  let lenFormat := format.length
  let lenTime := time.length
  if indexNanos ≠ 0 then
    if lenFormat < lenTime ∨ indexNanos ≥ lenTime then none
    else
      some (parsingTimeData time tm,
        (time.drop indexNanos).foldl shift 0 * 10 ^ (lenFormat - lenTime))
  else if lenFormat ≠ lenTime then none
  else some (parsingTimeData time tm, 0)

/-- `is_out_of_range(value, lower, upper)`. -/
def isOutOfRange (value lower upper : Int) : Bool := value > upper || value < lower

/-- `is_leap_year(year)`. -/
def isLeapYear (year : Int) : Bool := (year % 4 == 0 && year % 100 != 0) || year % 400 == 0

/-- `get_valid_days(mon, year)`, months from 1. -/
def getValidDays (mon year : Int) : Int :=
  let leapYear : Int := if isLeapYear year then 1 else 0
  if mon = 2 then (31 - 3) + leapYear
  else if mon = 4 ∨ mon = 6 ∨ mon = 9 ∨ mon = 11 then 30
  else 31

/-- `fix_date(tm)`: the fields checked, then the year and month moved to `struct tm`'s origin. -/
def fixDate (tm : Tm) : Option Tm :=
  if isOutOfRange tm.hour 0 23 || isOutOfRange tm.min 0 59 || isOutOfRange tm.sec 0 59 ||
      isOutOfRange tm.mon 1 12 || isOutOfRange tm.year 1900 9999 then none
  else if isOutOfRange tm.mday 1 (getValidDays tm.mon tm.year) then none
  else some { tm with year := tm.year - 1900, mon := tm.mon - 1 }

/-- `get_tm_from_str(str, tm, nanos)`: the layout chosen by the text's `.`, `T` and colons. -/
def getTmFromStr (str : List Char) (tm : Tm) : Option (Tm × Int) := do
  let format ←
    if stringsContainsAny (String.ofList str) "." then some rFC339NanoLocal
    else if stringsContainsAny (String.ofList str) "T" then
      match stringsCount str ':' with
      | 0 => some "2016-01-02T15".toList
      | 1 => some "2016-01-02T15:04".toList
      | 2 => some rFC339Local
      | _ => none
    else some dateLocal
  let r ← parsingTime format str tm
  let tm ← fixDate r.1
  pure (tm, r.2)

/-! ## Reading the zone -/

/-- `types_timezone`. -/
structure TypesTimezone where
  hour : Int
  min : Int
  deriving DecidableEq, Repr

/-- `strrchr(s, c)`: the index of the last `c`. -/
def strrchr : List Char → Char → Option Nat
  | [], _ => none
  | x :: xs, c =>
    match strrchr xs c with
    | some k => some (k + 1)
    | none => if x = c then some 0 else none

/-- `tm_get_zp(tmstr)`: the last `+`, or else the last `-`. -/
def tmGetZp (tmstr : List Char) : Option Nat :=
  match strrchr tmstr '+' with
  | some k => some k
  | none => strrchr tmstr '-'

/-- `tz_init_hour` and `tz_init_min`: one field of `tz` set from the number at index `i`,
negated when the zone text starts with `-`. -/
def tzInitField (set : TypesTimezone → Int → TypesTimezone) (tz : TypesTimezone)
    (zonestr : List Char) (i : Nat) : TypesTimezone × Nat :=
  let positive : Int := if zonestr.head? = some '-' then -1 else 1
  let r := parsingTimeToDigit zonestr i
  (set tz (positive * r.1), r.2)

def tzInitHour : TypesTimezone → List Char → Nat → TypesTimezone × Nat :=
  tzInitField fun tz v => { tz with hour := v }
def tzInitMin : TypesTimezone → List Char → Nat → TypesTimezone × Nat :=
  tzInitField fun tz v => { tz with min := v }

/-- `tz_init_ok(tz, zonestr)`: the hours from index 1, then the minutes after one separator. -/
def tzInitOk (tz : TypesTimezone) (zonestr : List Char) : Option TypesTimezone :=
  let r := tzInitHour tz zonestr 1
  if zonestr.length ≤ r.2 then none else some (tzInitMin r.1 zonestr (r.2 + 1)).1

/-- `get_tm_zone_from_str(str, tm, nanos, tz)`: the text cut at the zone sign, the time read
from the part before it and the zone from the rest. -/
def getTmZoneFromStr (str : List Char) (tm : Tm) (tz : TypesTimezone) :
    Option (Tm × Int × TypesTimezone) := do
  let zp ← tmGetZp str
  let r ← getTmFromStr (str.take zp) tm
  let tz ← tzInitOk tz (str.drop zp)
  pure (r.1, r.2, tz)

/-- The zeroed `struct tm` and `types_timezone` the callers start from. -/
def tmZero : Tm := ⟨0, 0, 0, 0, 0, 0⟩
def tzZero : TypesTimezone := ⟨0, 0⟩

/-! ## Converting a text -/

/-- `get_minmus_time(tm1, tm2)`: both read as local times. -/
def getMinmusTime (off : Int) (tm1 tm2 : Tm) : Int := mktime off tm1 - mktime off tm2

/-- `time_seconds_since(in)` at instant `now`: the seconds from the text to now, 0 when not
positive or when the text cannot be read. -/
def timeSecondsSince (off now : Int) (inp : List Char) : Int :=
  if inp = defaultContainerTime ∨ inp = ['-'] then 0
  else
    match getTmZoneFromStr inp tmZero tzZero with
    | none => 0
    | some (tm, _, tz) =>
      let currentm := gmtime now
      let result := getMinmusTime off currentm tm + tz.hour * 3600 + tz.min * 60
      if result > 0 then result else 0

/-- The digit class `[0-9]`. -/
def digitClass : Re Char := .oneOf "0123456789".toList

/-- `n` digits. -/
def digitsRe (n : Nat) : Re Char := seq (List.replicate n digitClass)

/-- The pattern of `util_valid_time_tz` (`utils_verify.c`),
`^[0-9]{4}-[0-9]{2}-[0-9]{2}T[0-9]{2}:[0-9]{2}:[0-9]{2}(.[0-9]{2,9})?(Z|[+-][0-9]{2}:[0-9]{2})$`,
compiled by hand: `{2,9}` is two digits then seven optional ones, and `.` is any character. -/
def validTimeTzBody : List (Re Char) :=
  [digitsRe 4, .char '-', digitsRe 2, .char '-', digitsRe 2, .char 'T', digitsRe 2, .char ':',
    digitsRe 2, .char ':', digitsRe 2,
    .alt (seq [.any, digitsRe 2, seq (List.replicate 7 (.alt digitClass .eps))]) .eps,
    .alt (.char 'Z') (seq [.oneOf ['+', '-'], digitsRe 2, .char ':', digitsRe 2])]

/-- `util_valid_time_tz(time)`: `util_reg_match` of the pattern. -/
def utilValidTimeTz (time : List Char) : Bool :=
  search isWordChar (seq (.bol :: validTimeTzBody ++ [.eol])) time

/-- `time_tz_to_seconds_nanos(time_tz, &seconds, &nanos)`: the text without its last character
read as UTC. -/
def timeTzToSecondsNanos (timeTz : List Char) : Option (Int × Int) :=
  (getTmFromStr timeTz.dropLast tmZero).map fun r => (timegm r.1, r.2)

/-- `to_unix_nanos_from_str(str, &nanos)` in the zone `off`: the nanoseconds, `none` where it
returns -1.  A text ending in `Z` is read as UTC; any other is read by `mktime`, and the zone
parsed into `tz` is not used. -/
def toUnixNanosFromStr (off : Int) (str : List Char) : Option Int :=
  if str = [] ∨ str = defaultContainerTime then some 0
  else if utilValidTimeTz str = false then none
  else if str.getLast? = some 'Z' then
    (timeTzToSecondsNanos str).map fun r => r.1 * timeSecond + r.2
  else
    (getTmZoneFromStr str tmZero tzZero).map fun r => mktime off r.1 * timeSecond + r.2.1

/-! ## RFC 3339 texts

What a text means: the date and time of a broken-down time, nine digits of nanoseconds, and an
offset east or west of UTC; it denotes the instant `rfc3339Seconds` seconds (and the
nanoseconds) after the epoch. -/

/-- The date and time of `tm` in the layout `2006-01-02T15:04:05`. -/
def rfc3339DateTime (tm : Tm) : List Char :=
  fixedDigits 4 (tm.year + 1900).toNat ++ '-' :: fixedDigits 2 (tm.mon + 1).toNat ++ '-' ::
    fixedDigits 2 tm.mday.toNat ++ 'T' :: fixedDigits 2 tm.hour.toNat ++ ':' ::
    fixedDigits 2 tm.min.toNat ++ ':' :: fixedDigits 2 tm.sec.toNat

/-- The sign of an offset east (`+`) or west (`-`) of UTC. -/
def offsetSign (east : Bool) : Char := if east then '+' else '-'

/-- The text of local time `tm`, `n` nanoseconds and an offset of `zh` hours and `zm` minutes. -/
def rfc3339Text (tm : Tm) (n : Nat) (east : Bool) (zh zm : Nat) : List Char :=
  rfc3339DateTime tm ++ '.' :: fixedDigits 9 n ++ offsetSign east :: fixedDigits 2 zh ++ ':' ::
    fixedDigits 2 zm

/-- The offset, in seconds east of UTC. -/
def offsetSeconds (east : Bool) (zh zm : Nat) : Int :=
  (if east then 1 else -1) * (zh * 3600 + zm * 60)

/-- The whole seconds of the instant the text denotes. -/
def rfc3339Seconds (tm : Tm) (east : Bool) (zh zm : Nat) : Int :=
  timegm tm - offsetSeconds east zh zm

/-- A broken-down time that `fix_date` accepts: valid, in the years 1900 to 9999. -/
structure InFixDateRange (tm : Tm) : Prop where
  valid : tm.Valid
  year : 0 ≤ tm.year ∧ tm.year ≤ 8099

/-! ## Reading back the fields -/

/-- The text after a number does not go on with a digit. -/
def NoDigitHead (r : List Char) : Prop := ∀ c rest, r = c :: rest → c.isDigit = false

lemma noDigitHead_nil : NoDigitHead [] := by
  intro c rest h
  cases h

lemma noDigitHead_cons {c : Char} {r : List Char} (h : c.isDigit = false) :
    NoDigitHead (c :: r) := by
  intro c' rest h'
  cases h'
  exact h

/-- A run of digits followed by a text that does not go on with a digit is read whole. -/
lemma digitLoop_append {ds r : List Char} (hd : ∀ c ∈ ds, c.isDigit = true)
    (hr : NoDigitHead r) (sum : Int) (i : Nat) :
    digitLoop (ds ++ r) sum i = (ds.foldl shift sum, i + ds.length) := by
  induction ds generalizing sum i with
  | nil =>
    cases r with
    | nil => rfl
    | cons c rest => simp [digitLoop, hr c rest rfl]
  | cons c ds ih =>
    rw [List.cons_append, digitLoop, if_pos (hd c List.mem_cons_self),
      ih (fun x hx => hd x (List.mem_cons_of_mem c hx))]
    simp only [List.foldl_cons, List.length_cons]
    congr 1
    omega

/-- `w` digits of a number below `10 ^ w` at index `i` are read as that number. -/
lemma parsingTimeToDigit_eq {time rest : List Char} {i w n : Nat} (h : n < 10 ^ w)
    (hr : NoDigitHead rest) (hdrop : time.drop i = fixedDigits w n ++ rest) :
    parsingTimeToDigit time i = ((n : Int), i + w) := by
  rw [parsingTimeToDigit, hdrop, digitLoop_append (fun _ hc => isDigit_of_mem_fixedDigits hc) hr,
    foldl_shift_fixedDigits h, length_fixedDigits]
  simp

/-- A field followed by a separator: the number, and the text past the separator. -/
lemma parsingTimeToDigit_field {time rest : List Char} {i w n : Nat} {c : Char} (h : n < 10 ^ w)
    (hc : c.isDigit = false) (hdrop : time.drop i = fixedDigits w n ++ c :: rest) :
    parsingTimeToDigit time i = ((n : Int), i + w) ∧ i + w < time.length ∧
      time.drop (i + w + 1) = rest := by
  refine ⟨parsingTimeToDigit_eq h (noDigitHead_cons hc) hdrop, ?_, ?_⟩
  · have hlen := congrArg List.length hdrop
    simp only [List.length_drop, List.length_append, length_fixedDigits, List.length_cons] at hlen
    omega
  · rw [show i + w + 1 = i + (w + 1) by omega, ← List.drop_drop, hdrop, List.drop_append,
      length_fixedDigits, List.drop_eq_nil_of_le (by simp), List.nil_append,
      show w + 1 - w = 1 by omega]
    rfl

/-- The fields of a time `fix_date` accepts are below their widths. -/
lemma InFixDateRange.lt {tm : Tm} (h : InFixDateRange tm) :
    (tm.year + 1900).toNat < 10 ^ 4 ∧ (tm.mon + 1).toNat < 10 ^ 2 ∧ tm.mday.toNat < 10 ^ 2 ∧
      tm.hour.toNat < 10 ^ 2 ∧ tm.min.toNat < 10 ^ 2 ∧ tm.sec.toNat < 10 ^ 2 := by
  obtain ⟨⟨hm, ⟨hd1, hd2⟩, hh, hmi, hs⟩, hy⟩ := h
  have hdim := daysInMonth_le (1900 + tm.year) tm.mon.toNat
  omega

attribute [local simp] rfc3339DateTime in
/-- `parsing_time_data` reads the six fields of the date and time back. -/
lemma parsingTimeData_rfc3339DateTime {tm : Tm} (h : InFixDateRange tm) {tail : List Char}
    (htail : NoDigitHead tail) (tm₀ : Tm) :
    parsingTimeData (rfc3339DateTime tm ++ tail) tm₀ =
      ⟨tm.year + 1900, tm.mon + 1, tm.mday, tm.hour, tm.min, tm.sec⟩ := by
  obtain ⟨hy, hmo, hd, hh, hmi, hs⟩ := h.lt
  set time := rfc3339DateTime tm ++ tail with htime
  have d0 : time.drop 0 = fixedDigits 4 (tm.year + 1900).toNat ++ '-' ::
      (fixedDigits 2 (tm.mon + 1).toNat ++ '-' :: (fixedDigits 2 tm.mday.toNat ++ 'T' ::
      (fixedDigits 2 tm.hour.toNat ++ ':' :: (fixedDigits 2 tm.min.toNat ++ ':' ::
      (fixedDigits 2 tm.sec.toNat ++ tail))))) := by
    simp [time, rfc3339DateTime]
  obtain ⟨p1, l1, d1⟩ := parsingTimeToDigit_field hy (by decide) d0
  obtain ⟨p2, l2, d2⟩ := parsingTimeToDigit_field (i := 5) hmo (by decide) d1
  obtain ⟨p3, l3, d3⟩ := parsingTimeToDigit_field (i := 8) hd (by decide) d2
  obtain ⟨p4, l4, d4⟩ := parsingTimeToDigit_field (i := 11) hh (by decide) d3
  obtain ⟨p5, l5, d5⟩ := parsingTimeToDigit_field (i := 14) hmi (by decide) d4
  have p6 := parsingTimeToDigit_eq (i := 17) hs htail d5
  have hv := h.valid
  simp only [parsingTimeData, parsingTimeDataYear, parsingTimeDataMonth, parsingTimeDataDay,
    parsingTimeDataHour, parsingTimeDataMin, parsingTimeDataSec, parsingTimeDataField, p1, p2, p3,
    p4, p5, p6]
  rw [if_neg (by omega), if_neg (by omega), if_neg (by omega), if_neg (by omega),
    if_neg (by omega)]
  obtain ⟨⟨hm0, -⟩, ⟨hd0, -⟩, ⟨hh0, -⟩, ⟨hmi0, -⟩, ⟨hs0, -⟩⟩ := hv
  have hy0 := h.year.1
  simp only [Int.toNat_of_nonneg (by omega : 0 ≤ tm.year + 1900),
    Int.toNat_of_nonneg (by omega : 0 ≤ tm.mon + 1), Int.toNat_of_nonneg (by omega : 0 ≤ tm.mday),
    Int.toNat_of_nonneg hh0, Int.toNat_of_nonneg hmi0, Int.toNat_of_nonneg hs0]

lemma isLeapYear_eq_isLeap : isLeapYear = isLeap := rfl

/-- `get_valid_days` is the length of the month. -/
lemma getValidDays_eq {mon : Int} (h0 : 0 ≤ mon) (h : mon < 12) (year : Int) :
    getValidDays (mon + 1) year = daysInMonth year mon.toNat := by
  obtain ⟨m, rfl⟩ := Int.eq_ofNat_of_zero_le h0
  have hm : m < 12 := by omega
  simp only [getValidDays, isLeapYear_eq_isLeap, Int.toNat_natCast]
  interval_cases m <;> by_cases hl : isLeap year <;> simp [daysInMonth, hl]

/-- `fix_date` takes the fields of a time in its range back to `struct tm`'s origin. -/
lemma fixDate_eq {tm : Tm} (h : InFixDateRange tm) :
    fixDate ⟨tm.year + 1900, tm.mon + 1, tm.mday, tm.hour, tm.min, tm.sec⟩ = some tm := by
  obtain ⟨⟨hm, hd, hh, hmi, hs⟩, hy⟩ := h
  have hvd := getValidDays_eq hm.1 hm.2 (tm.year + 1900)
  rw [add_comm tm.year 1900] at hvd
  rw [add_comm tm.year 1900]
  simp only [fixDate, isOutOfRange, hvd]
  rw [if_neg (by simp only [Bool.or_eq_true, decide_eq_true_eq]; omega),
    if_neg (by simp only [Bool.or_eq_true, decide_eq_true_eq]; omega)]
  rw [add_sub_cancel_left, add_sub_cancel_right]

lemma stringsContainsAny_dot {t : List Char} (h : '.' ∈ t) :
    stringsContainsAny (String.ofList t) "." = true := by
  simp only [stringsContainsAny, String.toList_ofList, List.any_eq_true]
  exact ⟨'.', h, by decide⟩

@[simp] lemma length_rfc3339DateTime (tm : Tm) : (rfc3339DateTime tm).length = 19 := by
  simp [rfc3339DateTime]

/-- `get_tm_from_str` reads a date and time with nine digits of nanoseconds back. -/
lemma getTmFromStr_rfc3339 {tm : Tm} (h : InFixDateRange tm) {n : Nat} (hn : n < 10 ^ 9)
    (tm₀ : Tm) :
    getTmFromStr (rfc3339DateTime tm ++ '.' :: fixedDigits 9 n) tm₀ = some (tm, (n : Int)) := by
  have hdot : stringsContainsAny (String.ofList (rfc3339DateTime tm ++ '.' :: fixedDigits 9 n))
      "." = true := stringsContainsAny_dot (by simp)
  have hlen : (rfc3339DateTime tm ++ '.' :: fixedDigits 9 n).length = 29 := by simp
  have hdrop : (rfc3339DateTime tm ++ '.' :: fixedDigits 9 n).drop 20 = fixedDigits 9 n := by
    rw [List.drop_append, List.drop_eq_nil_of_le (by simp), length_rfc3339DateTime,
      List.nil_append]
    rfl
  have hdata := parsingTimeData_rfc3339DateTime h (noDigitHead_cons (c := '.') (r := fixedDigits 9 n)
    (by decide)) tm₀
  have hparse : parsingTime rFC339NanoLocal (rfc3339DateTime tm ++ '.' :: fixedDigits 9 n) tm₀ =
      some ((⟨tm.year + 1900, tm.mon + 1, tm.mday, tm.hour, tm.min, tm.sec⟩ : Tm), (n : Int)) := by
    have hfmt : rFC339NanoLocal.length = 29 := rfl
    have hidx : rFC339Local.length + 1 = 20 := rfl
    simp only [parsingTime, if_pos, hfmt, hidx, hlen, hdrop, foldl_shift_fixedDigits hn, hdata]
    simp
  simp only [getTmFromStr, hdot, if_true, hparse, Option.bind_eq_bind, Option.bind_some,
    fixDate_eq h]
  rfl

/-! ## Reading back the zone -/

attribute [local simp] strrchr in
lemma strrchr_of_not_mem {s : List Char} {c : Char} (h : c ∉ s) : strrchr s c = none := by
  induction s with
  | nil => rfl
  | cons x xs ih =>
    have hx : x ≠ c := fun hx => h (hx ▸ List.mem_cons_self)
    rw [strrchr, ih (fun hm => h (List.mem_cons_of_mem x hm)), if_neg hx]

lemma strrchr_append_cons {xs ys : List Char} {c : Char} (h : c ∉ ys) :
    strrchr (xs ++ c :: ys) c = some xs.length := by
  induction xs with
  | nil => rw [List.nil_append, strrchr, strrchr_of_not_mem h, if_pos rfl, List.length_nil]
  | cons x xs ih => rw [List.cons_append, strrchr, ih, List.length_cons]

lemma not_mem_fixedDigits {c : Char} (hc : c.isDigit = false) (w n : Nat) :
    c ∉ fixedDigits w n := fun h => by
  rw [isDigit_of_mem_fixedDigits h] at hc
  cases hc

/-- The letters of a date and time are digits and the separators `-`, `T` and `:`. -/
lemma mem_rfc3339DateTime {tm : Tm} {c : Char} (h : c ∈ rfc3339DateTime tm) :
    c.isDigit = true ∨ c = '-' ∨ c = 'T' ∨ c = ':' := by
  simp only [rfc3339DateTime, List.mem_append, List.mem_cons] at h
  rcases h with (((((h | h | h) | h | h) | h | h) | h | h) | h | h)
  all_goals first
    | exact Or.inl (isDigit_of_mem_fixedDigits h)
    | simp [h]

/-- `tz_init_ok` reads an offset `±HH:MM` back. -/
lemma tzInitOk_offset (tz : TypesTimezone) (east : Bool) {zh zm : Nat} (hh : zh < 10 ^ 2)
    (hm : zm < 10 ^ 2) :
    tzInitOk tz (offsetSign east :: fixedDigits 2 zh ++ ':' :: fixedDigits 2 zm) =
      some ⟨(if east then 1 else -1) * zh, (if east then 1 else -1) * zm⟩ := by
  set zonestr := offsetSign east :: fixedDigits 2 zh ++ ':' :: fixedDigits 2 zm
  have d1 : zonestr.drop 1 = fixedDigits 2 zh ++ ':' :: fixedDigits 2 zm := rfl
  obtain ⟨p1, l1, d4⟩ := parsingTimeToDigit_field (i := 1) hh (by decide) d1
  have p2 := parsingTimeToDigit_eq (i := 4) hm noDigitHead_nil (by rw [List.append_nil]; exact d4)
  have hsign : (if zonestr.head? = some '-' then (-1 : Int) else 1) = if east then 1 else -1 := by
    cases east <;> rfl
  simp only [tzInitOk, tzInitHour, tzInitMin, tzInitField, p1, p2, hsign]
  rw [if_neg (by omega)]

attribute [local simp] rfc3339Text in
/-- The text cut at its offset sign. -/
lemma rfc3339Text_eq_append (tm : Tm) (n : Nat) (east : Bool) (zh zm : Nat) :
    rfc3339Text tm n east zh zm = (rfc3339DateTime tm ++ '.' :: fixedDigits 9 n) ++
      offsetSign east :: (fixedDigits 2 zh ++ ':' :: fixedDigits 2 zm) := by
  simp [rfc3339Text]

@[simp] lemma length_rfc3339Text (tm : Tm) (n : Nat) (east : Bool) (zh zm : Nat) :
    (rfc3339Text tm n east zh zm).length = 35 := by
  simp [rfc3339Text_eq_append]

attribute [local simp] offsetSign in
/-- `tm_get_zp` finds the offset sign: no other `+` is in the text, and no `-` after it. -/
lemma tmGetZp_rfc3339Text (tm : Tm) (n : Nat) (east : Bool) (zh zm : Nat) :
    tmGetZp (rfc3339Text tm n east zh zm) = some 29 := by
  have hsign : ∀ c, c.isDigit = false → c ≠ ':' →
      c ∉ fixedDigits 2 zh ++ ':' :: fixedDigits 2 zm := by
    intro c hc hcol
    simp only [List.mem_append, List.mem_cons, not_or]
    exact ⟨not_mem_fixedDigits hc 2 zh, hcol, not_mem_fixedDigits hc 2 zm⟩
  have hplus : strrchr ((rfc3339DateTime tm ++ '.' :: fixedDigits 9 n) ++
      '+' :: (fixedDigits 2 zh ++ ':' :: fixedDigits 2 zm)) '+' =
      some (rfc3339DateTime tm ++ '.' :: fixedDigits 9 n).length :=
    strrchr_append_cons (hsign '+' (by decide) (by decide))
  have hminus : strrchr ((rfc3339DateTime tm ++ '.' :: fixedDigits 9 n) ++
      '-' :: (fixedDigits 2 zh ++ ':' :: fixedDigits 2 zm)) '-' =
      some (rfc3339DateTime tm ++ '.' :: fixedDigits 9 n).length :=
    strrchr_append_cons (hsign '-' (by decide) (by decide))
  have hlen : (rfc3339DateTime tm ++ '.' :: fixedDigits 9 n).length = 29 := by simp
  rw [rfc3339Text_eq_append, tmGetZp]
  cases east with
  | true => rw [offsetSign, if_pos rfl, hplus, hlen]
  | false =>
    have hnone : strrchr ((rfc3339DateTime tm ++ '.' :: fixedDigits 9 n) ++
        '-' :: (fixedDigits 2 zh ++ ':' :: fixedDigits 2 zm)) '+' = none := by
      apply strrchr_of_not_mem
      rw [List.mem_append, List.mem_cons, not_or, not_or]
      refine ⟨?_, by decide, hsign '+' (by decide) (by decide)⟩
      rw [List.mem_append, List.mem_cons, not_or, not_or]
      refine ⟨fun h => ?_, by decide, not_mem_fixedDigits (by decide) 9 n⟩
      rcases mem_rfc3339DateTime h with h | h | h | h <;> revert h <;> decide
    rw [offsetSign, if_neg Bool.false_ne_true, hnone, hminus, hlen]

/-- `get_tm_zone_from_str` reads the text back: the local time, the nanoseconds and the
offset. -/
lemma getTmZoneFromStr_rfc3339Text {tm : Tm} (h : InFixDateRange tm) {n zh zm : Nat}
    (hn : n < 10 ^ 9) (hh : zh < 10 ^ 2) (hm : zm < 10 ^ 2) (east : Bool) (tm₀ : Tm)
    (tz : TypesTimezone) :
    getTmZoneFromStr (rfc3339Text tm n east zh zm) tm₀ tz =
      some (tm, (n : Int), ⟨(if east then 1 else -1) * zh, (if east then 1 else -1) * zm⟩) := by
  have hlen : (rfc3339DateTime tm ++ '.' :: fixedDigits 9 n).length = 29 := by simp
  have htake : (rfc3339Text tm n east zh zm).take 29 = rfc3339DateTime tm ++ '.' :: fixedDigits 9 n := by
    rw [rfc3339Text_eq_append, ← hlen, List.take_left]
  have hdrop : (rfc3339Text tm n east zh zm).drop 29 =
      offsetSign east :: fixedDigits 2 zh ++ ':' :: fixedDigits 2 zm := by
    rw [rfc3339Text_eq_append, ← hlen, List.drop_left]
    rfl
  simp only [getTmZoneFromStr, tmGetZp_rfc3339Text, htake, hdrop, getTmFromStr_rfc3339 h hn,
    tzInitOk_offset tz east hh hm, Option.bind_eq_bind, Option.bind_some]
  rfl

/-! ## Counting the seconds since a text -/

lemma ite_pos_eq_max (x : Int) : (if x > 0 then x else 0) = max 0 x := by
  split <;> omega

attribute [local simp] rfc3339Seconds offsetSeconds in
/-- `time_seconds_since` counts from the instant the text denotes, whatever the daemon's
zone: `mktime` reads both times in that zone, and the offset of the text is added. -/
theorem timeSecondsSince_rfc3339Text (off now : Int) {tm : Tm} (h : InFixDateRange tm)
    {n zh zm : Nat} (hn : n < 10 ^ 9) (hh : zh < 10 ^ 2) (hm : zm < 10 ^ 2) (east : Bool) :
    timeSecondsSince off now (rfc3339Text tm n east zh zm) =
      max 0 (now - rfc3339Seconds tm east zh zm) := by
  have hlen := length_rfc3339Text tm n east zh zm
  have hne : ¬ (rfc3339Text tm n east zh zm = defaultContainerTime ∨
      rfc3339Text tm n east zh zm = ['-']) := by
    have hd : defaultContainerTime.length = 20 := rfl
    intro hor
    rcases hor with he | he
    · have hl := congrArg List.length he
      rw [hlen, hd] at hl
      cases hl
    · have hl := congrArg List.length he
      rw [hlen, List.length_singleton] at hl
      cases hl
  rw [timeSecondsSince, if_neg hne, getTmZoneFromStr_rfc3339Text h hn hh hm east tmZero tzZero]
  simp only [getMinmusTime, mktime, timegm_gmtime, rfc3339Seconds, offsetSeconds]
  rw [ite_pos_eq_max]
  congr 1
  cases east <;> simp only [if_true, if_false, Bool.false_eq_true] <;> ring

/-! ## Validating and converting a text -/

lemma digitChar_mem_decimal {d : Nat} (hd : d < 10) : Nat.digitChar d ∈ "0123456789".toList := by
  interval_cases d <;> decide

/-- `w` digits match `[0-9]{w}`. -/
lemma matches_digitsRe (pre post : List Char) (w n : Nat) :
    Matches isWordChar pre (fixedDigits w n) post (digitsRe w) := by
  have h : Matches isWordChar pre (fixedDigits w n) post
      (seq (List.replicate (fixedDigits w n).length digitClass)) := by
    apply matches_seq_replicate
    intro c hc pre' post'
    obtain ⟨d, hd, rfl⟩ := mem_fixedDigits hc
    exact .oneOf (digitChar_mem_decimal hd)
  rwa [length_fixedDigits] at h

/-- Any letter then nine digits match the fraction `(.[0-9]{2,9})`. -/
lemma matches_fraction (pre post : List Char) (c : Char) (n : Nat) :
    Matches isWordChar pre (c :: fixedDigits 9 n) post
      (seq [.any, digitsRe 2, seq (List.replicate 7 (.alt digitClass .eps))]) := by
  have hsplit : fixedDigits 9 n = fixedDigits 2 (n / 10 ^ 7) ++ fixedDigits 7 n :=
    fixedDigits_add 2 7 n
  have hseven : Matches isWordChar (pre ++ [c] ++ fixedDigits 2 (n / 10 ^ 7)) (fixedDigits 7 n)
      post (seq (List.replicate (fixedDigits 7 n).length (.alt digitClass .eps))) := by
    apply matches_seq_replicate
    intro d hd pre' post'
    obtain ⟨k, hk, rfl⟩ := mem_fixedDigits hd
    exact .altLeft (.oneOf (digitChar_mem_decimal hk))
  rw [length_fixedDigits] at hseven
  rw [hsplit]
  exact .cat (u := [c]) .any (.cat (matches_digitsRe _ _ 2 _) (matches_seq_singleton hseven))

/-- Every RFC 3339 text matches `util_valid_time_tz`'s pattern. -/
theorem utilValidTimeTz_rfc3339Text (tm : Tm) (n : Nat) (east : Bool) (zh zm : Nat) :
    utilValidTimeTz (rfc3339Text tm n east zh zm) = true := by
  rw [utilValidTimeTz, search_iff, search_anchored]
  have htext : rfc3339Text tm n east zh zm =
      fixedDigits 4 (tm.year + 1900).toNat ++ '-' :: (fixedDigits 2 (tm.mon + 1).toNat ++ '-' ::
      (fixedDigits 2 tm.mday.toNat ++ 'T' :: (fixedDigits 2 tm.hour.toNat ++ ':' ::
      (fixedDigits 2 tm.min.toNat ++ ':' :: (fixedDigits 2 tm.sec.toNat ++
      ('.' :: fixedDigits 9 n ++ offsetSign east :: (fixedDigits 2 zh ++ ':' ::
      fixedDigits 2 zm))))))) := by
    simp [rfc3339Text, rfc3339DateTime]
  have hsign : ∀ pre post, Matches isWordChar pre [offsetSign east] post (.oneOf ['+', '-']) := by
    intro pre post
    cases east
    · exact .oneOf (by decide)
    · exact .oneOf (by decide)
  have hoffset : ∀ pre, Matches isWordChar pre
      (offsetSign east :: (fixedDigits 2 zh ++ ':' :: fixedDigits 2 zm)) []
      (seq [.alt (.char 'Z') (seq [.oneOf ['+', '-'], digitsRe 2, .char ':', digitsRe 2])]) := by
    intro pre
    apply matches_seq_singleton
    apply Matches.altRight
    exact .cat (u := [offsetSign east]) (hsign _ _) (.cat (matches_digitsRe _ _ 2 _)
      (.cat (u := [':']) .char (matches_seq_singleton (matches_digitsRe _ _ 2 _))))
  rw [htext]
  exact .cat (matches_digitsRe _ _ 4 _) (.cat (u := ['-']) .char (.cat (matches_digitsRe _ _ 2 _)
    (.cat (u := ['-']) .char (.cat (matches_digitsRe _ _ 2 _) (.cat (u := ['T']) .char
    (.cat (matches_digitsRe _ _ 2 _) (.cat (u := [':']) .char (.cat (matches_digitsRe _ _ 2 _)
    (.cat (u := [':']) .char (.cat (matches_digitsRe _ _ 2 _)
    (.cat (.altLeft (matches_fraction _ _ '.' n)) (hoffset _))))))))))))

/-- On every RFC 3339 text with an offset, `to_unix_nanos_from_str` returns the wall clock read
in the daemon's zone: the offset in the text is not used. -/
theorem toUnixNanosFromStr_rfc3339Text (off : Int) {tm : Tm} (h : InFixDateRange tm)
    {n zh zm : Nat} (hn : n < 10 ^ 9) (hh : zh < 10 ^ 2) (hm : zm < 10 ^ 2) (east : Bool) :
    toUnixNanosFromStr off (rfc3339Text tm n east zh zm) = some (mktime off tm * timeSecond + n) := by
  have hlen := length_rfc3339Text tm n east zh zm
  have hne : ¬ (rfc3339Text tm n east zh zm = [] ∨
      rfc3339Text tm n east zh zm = defaultContainerTime) := by
    have hd : defaultContainerTime.length = 20 := rfl
    intro hor
    rcases hor with he | he
    · rw [he, List.length_nil] at hlen
      cases hlen
    · have hl := congrArg List.length he
      rw [hlen, hd] at hl
      cases hl
  have hlast : (rfc3339Text tm n east zh zm).getLast? ≠ some 'Z' := by
    intro hz
    have hmem := List.mem_of_getLast? hz
    rw [rfc3339Text_eq_append] at hmem
    simp only [List.mem_append, List.mem_cons] at hmem
    rcases hmem with (hd | hd | hd) | hd | hd | hd | hd
    · rcases mem_rfc3339DateTime hd with h | h | h | h <;> revert h <;> decide
    · cases hd
    · exact not_mem_fixedDigits (by decide) 9 n hd
    · revert hd
      cases east <;> decide
    · exact not_mem_fixedDigits (by decide) 2 zh hd
    · cases hd
    · exact not_mem_fixedDigits (by decide) 2 zm hd
  rw [toUnixNanosFromStr, if_neg hne, utilValidTimeTz_rfc3339Text, if_neg Bool.true_eq_false.mp,
    if_neg hlast, getTmZoneFromStr_rfc3339Text h hn hh hm east tmZero tzZero]
  rfl

/-- The conversion gives the instant the text denotes exactly when the daemon's zone has the
text's offset. -/
theorem toUnixNanosFromStr_eq_instant_iff (off : Int) {tm : Tm} (h : InFixDateRange tm)
    {n zh zm : Nat} (hn : n < 10 ^ 9) (hh : zh < 10 ^ 2) (hm : zm < 10 ^ 2) (east : Bool) :
    toUnixNanosFromStr off (rfc3339Text tm n east zh zm) =
        some (rfc3339Seconds tm east zh zm * timeSecond + n) ↔
      off = offsetSeconds east zh zm := by
  have hsec : timeSecond = 1000000000 := rfl
  rw [toUnixNanosFromStr_rfc3339Text off h hn hh hm east, Option.some.injEq, mktime,
    rfc3339Seconds, hsec]
  omega

/-! ## What `get_time_buffer` writes -/

lemma eq_some_of_ite_none {α : Type} {p : Prop} [Decidable p] {x : Option α} {b : α}
    (h : (if p then none else x) = some b) : x = some b := by
  split at h
  · cases h
  · exact h

/-- `%Y-%m-%dT%H:%M:%S` of a time `fix_date` accepts is its RFC 3339 date and time. -/
lemma strftimeDateTime_eq {tm : Tm} (h : InFixDateRange tm) :
    strftimeDateTime tm = rfc3339DateTime tm := by
  obtain ⟨⟨hm, hd, hh, hmi, hs⟩, hy⟩ := h
  have hdim := daysInMonth_le (1900 + tm.year) tm.mon.toNat
  rw [strftimeDateTime, rfc3339DateTime,
    zeroPad_eq_fixedDigits (w := 4) (n := tm.year + 1900) (by decide) (by omega) (by omega),
    zeroPad_eq_fixedDigits (w := 2) (n := tm.mon + 1) (by decide) (by omega) (by omega),
    zeroPad_eq_fixedDigits (w := 2) (n := tm.mday) (by decide) (by omega) (by omega),
    zeroPad_eq_fixedDigits (w := 2) (n := tm.hour) (by decide) (by omega) (by omega),
    zeroPad_eq_fixedDigits (w := 2) (n := tm.min) (by decide) (by omega) (by omega),
    zeroPad_eq_fixedDigits (w := 2) (n := tm.sec) (by decide) (by omega) (by omega)]

attribute [local simp] tmZoneHours in
/-- The zone stated is within `[-12, 12]` hours. -/
lemma tmZoneHours_bounds {tmLocal tmUtc : Tm} (hl : tmLocal.Valid) (hu : tmUtc.Valid) :
    -12 ≤ tmZoneHours tmLocal tmUtc ∧ tmZoneHours tmLocal tmUtc ≤ 12 := by
  have hlh := hl.hour
  have huh := hu.hour
  simp only [tmZoneHours]
  split_ifs <;> omega

/-- The test after the append passes exactly when the buffer has room for the date and twice
the zone: the room is measured after the zone is written. -/
lemma appendChecked_eq_some_iff {date zone buf : List Char} {maxsize : Nat} (hz : zone ≠ []) :
    appendChecked date zone maxsize = some buf ↔
      buf = date ++ zone ∧ date.length + 2 * zone.length < maxsize := by
  have hlen : zone.length ≠ 0 := by simpa using hz
  unfold appendChecked
  by_cases hroom : date.length + 2 * zone.length < maxsize
  · -- the whole zone is written, and the room left is more than its length
    have htake : zone.take (maxsize - date.length - 1) = zone :=
      List.take_of_length_le (by omega)
    have hfits : ¬ zone.length ≥ maxsize - (date ++ zone).length := by
      simp only [List.length_append]
      omega
    simp only [htake, if_neg hfits, Option.some.injEq, hroom, and_true]
    exact eq_comm
  · -- a cut zone leaves one byte, and a whole one at most its own length
    have hfail : zone.length ≥
        maxsize - (date ++ zone.take (maxsize - date.length - 1)).length := by
      simp only [List.length_append, List.length_take]
      omega
    simp only [if_pos hfail, hroom, and_false, reduceCtorEq]

example : getTimeBuffer 0 ⟨true, 0, true, 0⟩ 51 = none := by decide +kernel

example : getTimeBuffer 0 ⟨true, 0, true, 0⟩ 52 =
    some "1970-01-01T00:00:00.000000000+00:00".toList := by decide +kernel

/-- What `get_time_buffer` writes is the RFC 3339 text of the local time, with the wrapped hour
difference `tmZoneHours` as its offset and `00` as its minutes. -/
theorem getTimeBuffer_text {off : Int} {ts : TypesTimestamp} {maxsize : Nat} {buf : List Char}
    (hbuf : getTimeBuffer off ts maxsize = some buf)
    (h : InFixDateRange (localtime off ts.seconds)) (hn : 0 ≤ ts.nanos ∧ ts.nanos < 10 ^ 9) :
    buf = rfc3339Text (localtime off ts.seconds) (if ts.hasNanos then ts.nanos else 0).toNat
      (decide (0 ≤ tmZoneHours (localtime off ts.seconds) (gmtime ts.seconds)))
      (tmZoneHours (localtime off ts.seconds) (gmtime ts.seconds)).natAbs 0 := by
  have hz := tmZoneHours_bounds (localtime_valid off ts.seconds) (gmtime_valid ts.seconds)
  have hnanos : zeroPad 9 (if ts.hasNanos then ts.nanos else 0) =
      fixedDigits 9 (if ts.hasNanos then ts.nanos else 0).toNat :=
    zeroPad_eq_fixedDigits (by decide) (by split <;> omega) (by split <;> omega)
  have hzero : fixedDigits 2 0 = ['0', '0'] := rfl
  simp only [getTimeBuffer] at hbuf
  obtain ⟨rfl, -⟩ := (appendChecked_eq_some_iff (by split <;> simp)).1
    (eq_some_of_ite_none (eq_some_of_ite_none hbuf))
  by_cases hz0 : tmZoneHours (localtime off ts.seconds) (gmtime ts.seconds) ≥ 0
  · rw [if_pos hz0]
    have hpad := zeroPad_eq_fixedDigits (w := 2)
      (n := tmZoneHours (localtime off ts.seconds) (gmtime ts.seconds)) (by decide) hz0 (by omega)
    have habs : (tmZoneHours (localtime off ts.seconds) (gmtime ts.seconds)).toNat =
        (tmZoneHours (localtime off ts.seconds) (gmtime ts.seconds)).natAbs := by omega
    rw [strftimeDateTime_eq h, hnanos, hpad, habs, rfc3339Text, hzero, decide_eq_true hz0,
      offsetSign, if_pos rfl]
    simp only [List.append_assoc, List.cons_append]
  · rw [if_neg hz0]
    have hpad := zeroPad_eq_fixedDigits (w := 2)
      (n := -tmZoneHours (localtime off ts.seconds) (gmtime ts.seconds)) (by decide) (by omega)
      (by omega)
    have habs : (-tmZoneHours (localtime off ts.seconds) (gmtime ts.seconds)).toNat =
        (tmZoneHours (localtime off ts.seconds) (gmtime ts.seconds)).natAbs := by omega
    rw [strftimeDateTime_eq h, hnanos, hpad, habs, rfc3339Text, hzero, decide_eq_false hz0,
      offsetSign, if_neg Bool.false_ne_true]
    simp only [List.append_assoc, List.cons_append]

/-- In a zone of a whole number of hours strictly between `-12` and `12`, the zone stated is the
zone. -/
theorem tmZoneHours_whole {h : Int} (h1 : -12 < h) (h2 : h < 12) (t : Int) :
    tmZoneHours (localtime (3600 * h) t) (gmtime t) = h := by
  simp only [tmZoneHours, localtime, gmtime_hour]
  split_ifs <;> omega

/-- The seconds since a text `get_time_buffer` wrote are off by the difference between the
zone it stated and the daemon's zone. -/
theorem timeSecondsSince_getTimeBuffer {off : Int} {ts : TypesTimestamp} {maxsize : Nat}
    {buf : List Char} (hbuf : getTimeBuffer off ts maxsize = some buf)
    (h : InFixDateRange (localtime off ts.seconds)) (hn : 0 ≤ ts.nanos ∧ ts.nanos < 10 ^ 9)
    (now : Int) :
    timeSecondsSince off now buf = max 0 (now - ts.seconds +
      (3600 * tmZoneHours (localtime off ts.seconds) (gmtime ts.seconds) - off)) := by
  have hz := tmZoneHours_bounds (localtime_valid off ts.seconds) (gmtime_valid ts.seconds)
  rw [getTimeBuffer_text hbuf h hn, timeSecondsSince_rfc3339Text off now h
    (by split <;> omega) (by omega) (by decide)]
  simp only [rfc3339Seconds, offsetSeconds, timegm_localtime]
  by_cases hz0 : 0 ≤ tmZoneHours (localtime off ts.seconds) (gmtime ts.seconds)
  · rw [decide_eq_true hz0, if_pos rfl]
    omega
  · rw [decide_eq_false hz0, if_neg Bool.false_ne_true]
    omega

/-- In a zone of a whole number of hours strictly between `-12` and `12` the seconds are those
from the instant written. -/
theorem timeSecondsSince_getTimeBuffer_whole {h : Int} (h1 : -12 < h) (h2 : h < 12)
    {ts : TypesTimestamp} {maxsize : Nat} {buf : List Char}
    (hbuf : getTimeBuffer (3600 * h) ts maxsize = some buf)
    (hr : InFixDateRange (localtime (3600 * h) ts.seconds))
    (hn : 0 ≤ ts.nanos ∧ ts.nanos < 10 ^ 9) (now : Int) :
    timeSecondsSince (3600 * h) now buf = max 0 (now - ts.seconds) := by
  rw [timeSecondsSince_getTimeBuffer hbuf hr hn now, tmZoneHours_whole h1 h2]
  congr 1
  ring

/-- In a zone that is not a whole number of hours the seconds since a text just written are
never those from the instant written. -/
theorem timeSecondsSince_getTimeBuffer_ne {off : Int} (hoff : ¬ (3600 : Int) ∣ off)
    {ts : TypesTimestamp} {maxsize : Nat} {buf : List Char}
    (hbuf : getTimeBuffer off ts maxsize = some buf)
    (hr : InFixDateRange (localtime off ts.seconds))
    (hn : 0 ≤ ts.nanos ∧ ts.nanos < 10 ^ 9) {now : Int} (hlt : ts.seconds < now) :
    timeSecondsSince off now buf ≠ now - ts.seconds := by
  rw [timeSecondsSince_getTimeBuffer hbuf hr hn now]
  omega

/-- In a zone `+05:30`: the texts written at the epoch and 40 minutes later state `+05:00` and
`+06:00`; in a zone `+12:00` the text written at noon UTC states `-12:00`; the text
`1970-01-01T00:00:00+00:00` is read as 5 h 30 min before the epoch; and the seconds since the
text written at the epoch, counted an hour after it, are 1800. -/
theorem getTimeBuffer_misstates_half_hour_zone :
    getTimeBuffer 19800 ⟨true, 0, true, 0⟩ 64 =
        some "1970-01-01T05:30:00.000000000+05:00".toList ∧
      getTimeBuffer 19800 ⟨true, 2400, true, 0⟩ 64 =
        some "1970-01-01T06:10:00.000000000+06:00".toList ∧
      getTimeBuffer 43200 ⟨true, 43200, true, 0⟩ 64 =
        some "1970-01-02T00:00:00.000000000-12:00".toList ∧
      toUnixNanosFromStr 19800 "1970-01-01T00:00:00+00:00".toList = some (-19800 * timeSecond) ∧
      (getTimeBuffer 19800 ⟨true, 0, true, 0⟩ 64).map (timeSecondsSince 19800 3600) = some 1800 :=
  ⟨by decide +kernel, by decide +kernel, by decide +kernel, by decide +kernel, by decide +kernel⟩

end TypesDef

end Isulad
