import Isulad.Cutils.UtilsString

/-!
# Time strings (`utils.c`)

`util_parse_time_str_to_nanoseconds(value, &nanoseconds)` reads durations such as `10ms`,
`5s`, `2m` or `1h`. A regular expression admits digits then a unit; the number goes through
`util_safe_llong`, that is `strtoll` in base 0, so a leading `0` makes it octal.

`timeStrMatches_iff` says what the expression admits, and `utilParseTimeStrToNanoseconds_decimal`
what the call returns on digits that do not start with `0`: the number times the unit when the
product fits an `int64_t`, `-1` otherwise. With a leading `0` the number is octal, and a zero
returns `0` without writing `*nanoseconds` (`utilParseTimeStrToNanoseconds_reads_octal`).
-/

namespace Isulad

namespace Cutils

/-- `Time_Nano` to `Time_Hour`, in nanoseconds. -/
def timeNano : Int := 1
def timeMicro : Int := 1000 * timeNano
def timeMilli : Int := 1000 * timeMicro
def timeSecond : Int := 1000 * timeMilli
def timeMinute : Int := 60 * timeSecond
def timeHour : Int := 60 * timeMinute

/-- `get_time_unit(unit)`: the length of the unit named by a character, 0 for any other. -/
def getTimeUnit (unit : Char) : Int :=
  if unit = 'M' then timeMilli
  else if unit = 's' then timeSecond
  else if unit = 'm' then timeMinute
  else if unit = 'h' then timeHour
  else 0

/-- `get_time_ns(&pns, unit)`: `pns * unit`, or `none` for a zero unit or when
`INT64_MAX / pns` (rounded toward zero) is below the unit. -/
def getTimeNs (pns unit : Int) : Option Int :=
  if unit = 0 then none
  else if unit ≤ int64Max.tdiv pns then some (pns * unit)
  else none

/-- The units of `^([0-9]+)+(ms|s|m|h)$`. -/
def timeUnits : List (List Char) := [['m', 's'], ['s'], ['m'], ['h']]

/-- `util_reg_match("^([0-9]+)+(ms|s|m|h)$", value) == 0`: digits, then one of the units. No
unit holds a digit, so the digits are the longest run of them that starts the text. -/
def timeStrMatches (value : List Char) : Bool :=
  let ds := value.takeWhile Char.isDigit
  !ds.isEmpty && decide (value.drop ds.length ∈ timeUnits)

/-- `util_parse_time_str_to_nanoseconds(value, &nanoseconds)` with `nanoseconds` holding `ns`:
the return code, and `*nanoseconds` after the call. -/
def utilParseTimeStrToNanoseconds (value : List Char) (ns : Int) : Int × Int :=
  if !timeStrMatches value then (-1, ns)
  else
    -- `strstr(value, "ms")`: the unit is `M` and two characters are cut, else the last one
    let r : Char × List Char :=
      if ['m', 's'] <:+: value then ('M', value.dropLast.dropLast)
      else (value.getLastD '\x00', value.dropLast)
    match utilSafeLlong r.2 with
    | .error _ => (-1, ns)
    | .ok tmp =>
      -- a zero jumps to `out` before `*nanoseconds` is written
      if tmp = 0 then (0, ns)
      else
        match getTimeNs tmp (getTimeUnit r.1) with
        | some p => (0, p)
        | none => (-1, tmp)

/-- The length in nanoseconds of each unit of `timeUnits`, by the unit's name: `ms` a
millisecond, `s` a second, `m` a minute and `h` an hour. -/
def unitNs : List Char → Int
  | ['m', 's'] => timeMilli
  | ['s'] => timeSecond
  | ['m'] => timeMinute
  | ['h'] => timeHour
  | _ => 0

/-! ## The pieces of the parse -/

section Pieces

open Verify

attribute [local simp] timeUnits in
lemma unit_head_not_digit {u : List Char} (hu : u ∈ timeUnits) :
    ∀ c ∈ u.head?, c.isDigit = false := by
  simp only [timeUnits, List.mem_cons, List.not_mem_nil, or_false] at hu
  intro c hc
  rcases hu with rfl | rfl | rfl | rfl <;>
  · simp only [List.head?_cons, Option.mem_def, Option.some.injEq] at hc
    subst hc
    rfl

/-- Digits followed by a unit split exactly there. -/
lemma takeWhile_digits_append {d u : List Char} (hd : ∀ c ∈ d, c.isDigit = true)
    (hu : ∀ c ∈ u.head?, c.isDigit = false) : (d ++ u).takeWhile Char.isDigit = d := by
  rw [List.takeWhile_append_of_pos hd]
  cases u with
  | nil => simp
  | cons c cs => simp [hu c rfl]

/-- What the regular expression admits: a run of digits, then one of the units. -/
theorem timeStrMatches_iff (value : List Char) :
    timeStrMatches value = true ↔
      ∃ d u, value = d ++ u ∧ d ≠ [] ∧ (∀ c ∈ d, c.isDigit = true) ∧ u ∈ timeUnits := by
  unfold timeStrMatches
  simp only [Bool.and_eq_true, Bool.not_eq_true', List.isEmpty_eq_false_iff, decide_eq_true_eq]
  constructor
  · rintro ⟨hne, hu⟩
    have hpre := (List.prefix_iff_eq_take).1 (List.takeWhile_prefix (l := value) Char.isDigit)
    refine ⟨_, _, ?_, hne, fun c hc => List.mem_takeWhile_imp hc, hu⟩
    conv_lhs => rw [← List.take_append_drop (value.takeWhile Char.isDigit).length value]
    rw [← hpre]
  · rintro ⟨d, u, rfl, hne, hd, hu⟩
    rw [takeWhile_digits_append hd (unit_head_not_digit hu), List.drop_left]
    exact ⟨hne, hu⟩

/-- `strstr(value, "ms")` finds `ms` in digits and a unit only when the unit is `ms`. -/
lemma ms_infix_iff {d u : List Char} (hd : ∀ c ∈ d, c.isDigit = true) (hu : u ∈ timeUnits) :
    ['m', 's'] <:+: d ++ u ↔ u = ['m', 's'] := by
  constructor
  · intro h
    -- neither letter can come from the digits
    have hm : 'm' ∈ u := by
      rcases List.mem_append.1 (h.subset (by decide : 'm' ∈ ['m', 's'])) with hm | hm
      · exact absurd (hd _ hm) (by decide)
      · exact hm
    have hs : 's' ∈ u := by
      rcases List.mem_append.1 (h.subset (by decide : 's' ∈ ['m', 's'])) with hs | hs
      · exact absurd (hd _ hs) (by decide)
      · exact hs
    simp only [timeUnits, List.mem_cons, List.not_mem_nil, or_false] at hu
    rcases hu with rfl | rfl | rfl | rfl <;> simp_all
  · rintro rfl
    exact (List.suffix_append d _).isInfix

/-- The unit `util_parse_time_str_to_nanoseconds` reads off a unit, and the number left. -/
lemma timeStr_unit_split {d u : List Char} (hd : ∀ c ∈ d, c.isDigit = true) (hu : u ∈ timeUnits) :
    (if ['m', 's'] <:+: d ++ u then ('M', (d ++ u).dropLast.dropLast)
      else ((d ++ u).getLastD '\x00', (d ++ u).dropLast)) =
      (if u = ['m', 's'] then 'M' else u.getLastD '\x00', d) ∧
    getTimeUnit (if u = ['m', 's'] then 'M' else u.getLastD '\x00') = unitNs u := by
  simp only [ms_infix_iff hd hu]
  simp only [timeUnits, List.mem_cons, List.not_mem_nil, or_false] at hu
  rcases hu with rfl | rfl | rfl | rfl
  · refine ⟨?_, rfl⟩
    rw [if_pos rfl, if_pos rfl, show ['m', 's'] = ['m'] ++ ['s'] from rfl, ← List.append_assoc,
      List.dropLast_concat, List.dropLast_concat]
  all_goals
    refine ⟨?_, rfl⟩
    simp

/-- A run of digits that does not start with `0` is positive. -/
lemma digitsValue_pos {d : List Char} (hd : ∀ c ∈ d, c.isDigit = true) (hne : d ≠ [])
    (h0 : d.head? ≠ some '0') : 0 < digitsValue 10 d := by
  obtain ⟨c, cs, rfl⟩ := List.exists_cons_of_ne_nil hne
  have hc := toNat_of_isDigit (hd c List.mem_cons_self)
  have hc0 : c.toNat ≠ 48 := by
    intro h
    have hc0 : c = '0' := Char.toNat_inj.1 h
    exact h0 (by rw [hc0]; rfl)
  -- the accumulator only grows along the digits
  have hgrow : ∀ (l : List Char) (acc : Nat),
      acc ≤ l.foldl (fun v c => v * 10 + (digitValue c).getD 0) acc := by
    intro l
    induction l with
    | nil => intro acc; exact Nat.le_refl acc
    | cons x xs ih =>
      intro acc
      exact Nat.le_trans (by omega) (ih (acc * 10 + (digitValue x).getD 0))
  have hfirst : 0 < 0 * 10 + (digitValue c).getD 0 := by
    have h : '0' ≤ c ∧ c ≤ '9' := by
      simp only [Char.le_def, UInt32.le_iff_toNat_le]
      exact ⟨hc.1, hc.2⟩
    simp only [digitValue, if_pos h, Option.getD_some]
    change 0 < 0 * 10 + (c.toNat - 48)
    omega
  exact Nat.lt_of_lt_of_le hfirst (hgrow cs _)

/-- `get_time_ns` of a positive number and unit: the product, when it is at most `INT64_MAX`. -/
lemma getTimeNs_of_pos {pns unit : Int} (hp : 0 < pns) (hu : 0 < unit) :
    getTimeNs pns unit = if pns * unit ≤ int64Max then some (pns * unit) else none := by
  have hdiv : unit ≤ int64Max.tdiv pns ↔ pns * unit ≤ int64Max := by
    rw [Int.tdiv_eq_ediv_of_nonneg (by decide), Int.le_ediv_iff_mul_le hp, Int.mul_comm]
  unfold getTimeNs
  rw [if_neg (Int.ne_of_gt hu)]
  by_cases h : pns * unit ≤ int64Max
  · rw [if_pos (hdiv.2 h), if_pos h]
  · rw [if_neg (mt hdiv.1 h), if_neg h]

lemma unitNs_pos {u : List Char} (hu : u ∈ timeUnits) : 0 < unitNs u := by
  simp only [timeUnits, List.mem_cons, List.not_mem_nil, or_false] at hu
  rcases hu with rfl | rfl | rfl | rfl <;> decide

end Pieces

/-- On digits that do not start with `0` and a unit, the time is the number times the unit when
that fits an `int64_t`; otherwise the call fails, and `*nanoseconds` holds the number when it
fits a `long long` and is left alone when it does not. -/
theorem utilParseTimeStrToNanoseconds_decimal {d u : List Char}
    (hd : ∀ c ∈ d, c.isDigit = true) (hne : d ≠ []) (h0 : d.head? ≠ some '0')
    (hu : u ∈ timeUnits) (ns : Int) :
    utilParseTimeStrToNanoseconds (d ++ u) ns =
      if (Verify.digitsValue 10 d : Int) * unitNs u ≤ int64Max then
        (0, Verify.digitsValue 10 d * unitNs u)
      else (-1, if (Verify.digitsValue 10 d : Int) ≤ llongMax then Verify.digitsValue 10 d else ns) := by
  have hmatch : timeStrMatches (d ++ u) = true := (timeStrMatches_iff _).2 ⟨d, u, rfl, hne, hd, hu⟩
  have hsplit := timeStr_unit_split hd hu
  have hpos : (0 : Int) < Verify.digitsValue 10 d := by exact_mod_cast digitsValue_pos hd hne h0
  have hunit := unitNs_pos hu
  unfold utilParseTimeStrToNanoseconds
  rw [if_neg (by simp [hmatch]), hsplit.1]
  dsimp only
  rw [utilSafeLlong_decimal hd hne h0, hsplit.2]
  by_cases hll : (Verify.digitsValue 10 d : Int) ≤ llongMax
  · rw [if_pos hll]
    dsimp only
    rw [if_neg (Int.ne_of_gt hpos), getTimeNs_of_pos hpos hunit]
    by_cases hfit : (Verify.digitsValue 10 d : Int) * unitNs u ≤ int64Max
    · rw [if_pos hfit, if_pos hfit]
    · rw [if_neg hfit, if_neg hfit, if_pos hll]
  · -- past `LLONG_MAX`, which is `INT64_MAX`, the product does not fit either
    have hbig : ¬ (Verify.digitsValue 10 d : Int) * unitNs u ≤ int64Max := by
      have : (Verify.digitsValue 10 d : Int) ≤ Verify.digitsValue 10 d * unitNs u :=
        le_mul_of_one_le_right (Int.le_of_lt hpos) hunit
      have heq : llongMax = int64Max := rfl
      omega
    rw [if_neg hll]
    dsimp only
    rw [if_neg hbig, if_neg hll]

/-- A text that is not a run of digits then a unit is refused, and `*nanoseconds` is left alone. -/
theorem utilParseTimeStrToNanoseconds_rejects {value : List Char}
    (h : ¬ ∃ d u, value = d ++ u ∧ d ≠ [] ∧ (∀ c ∈ d, c.isDigit = true) ∧ u ∈ timeUnits)
    (ns : Int) : utilParseTimeStrToNanoseconds value ns = (-1, ns) := by
  have hno : timeStrMatches value = false := by
    rw [← Bool.not_eq_true, timeStrMatches_iff]
    exact h
  unfold utilParseTimeStrToNanoseconds
  rw [if_pos (by simp [hno])]

/-- `strtoll` in base 0 reads `010` as octal 8 and stops at the `9` of `09`; a zero leaves
`*nanoseconds` as it was. -/
theorem utilParseTimeStrToNanoseconds_reads_octal :
    utilParseTimeStrToNanoseconds "010s".toList 0 = (0, 8 * timeSecond) ∧
    utilParseTimeStrToNanoseconds "09s".toList 0 = (-1, 0) ∧
    utilParseTimeStrToNanoseconds "0s".toList 5 = (0, 5) := by
  refine ⟨rfl, rfl, rfl⟩

end Cutils

end Isulad
