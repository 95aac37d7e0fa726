import Mathlib.Data.List.Basic

/-!
# Checking a requested cpuset against the available one (`verify.c`)

`is_cpuset_list_available(provided, available)` allocates two arrays of `get_nprocs()` booleans,
checks that the largest id of `provided` is at most the largest of `available` (`check_cpu`,
`max_cpu`), marks in each array the ids its string lists (`parse_unit_list`), and accepts when
every id below `get_nprocs()` marked for `provided` is marked for `available`. The same check
runs for `cpuset.mems` against the memory nodes.

Ids are read with `util_safe_int`, that is `strtol` in base 0 (leading blanks, a sign, `0x` for
hexadecimal and a leading `0` for octal) with nothing left over and the value in `int` range.
`parse_unit_list` writes `available_list[value]` for every id of every token, with no bound.
The model records the indices each call writes (`ListCheck`).

The available list alone writes outside its array whenever it names an id at or above the
number of online processors, as it does with a processor offline: `0-1,3` with three online
writes index 3 of a three-element array, even with no cpuset requested
(`isCpusetListAvailable_writes_past_array`).
-/

namespace Isulad

namespace Verify

/-! ## `util_safe_int` -/

/-- `isspace` in the C locale. -/
def isSpace (c : Char) : Bool :=
  c = ' ' || c = '\t' || c = '\n' || c = '\x0b' || c = '\x0c' || c = '\r'

/-- The value of a digit in bases up to 36. -/
def digitValue (c : Char) : Option Nat :=
  if '0' ≤ c ∧ c ≤ '9' then some (c.toNat - '0'.toNat)
  else if 'a' ≤ c ∧ c ≤ 'z' then some (c.toNat - 'a'.toNat + 10)
  else if 'A' ≤ c ∧ c ≤ 'Z' then some (c.toNat - 'A'.toNat + 10)
  else none

/-- Whether `c` is a digit of `base`. -/
def isDigitOf (base : Nat) (c : Char) : Bool := (digitValue c).any (· < base)

/-- The value of a run of digits of `base`. -/
def digitsValue (base : Nat) (ds : List Char) : Nat :=
  ds.foldl (fun v c => v * base + (digitValue c).getD 0) 0

/-- `strtol(s, &end, 0)` up to overflow: the value read, or `none` when there is no number
(`end` is then `s`), and the text from `end`. -/
def strtol0 (s : List Char) : Option Int × List Char :=
  let s1 := s.dropWhile isSpace
  let signed : Bool × List Char :=
    match s1 with
    | '-' :: t => (true, t)
    | '+' :: t => (false, t)
    | t => (false, t)
  let based : Nat × List Char :=
    match signed.2 with
    | '0' :: x :: d :: t =>
      if (x = 'x' ∨ x = 'X') ∧ isDigitOf 16 d then (16, d :: t) else (8, signed.2)
    | '0' :: _ => (8, signed.2)
    | t => (10, t)
  let ds := based.2.takeWhile (isDigitOf based.1)
  if ds = [] then (none, s)
  else
    let v : Int := digitsValue based.1 ds
    (some (if signed.1 then -v else v), based.2.drop ds.length)

/-- `INT_MIN` and `INT_MAX`. -/
def intMin : Int := -2147483648
def intMax : Int := 2147483647

/-- `util_safe_int(num_str, &converted)`: the number, when all of the text is one and it fits
an `int` (a value out of `long` range fails through `errno`, one out of `int` range after). -/
def utilSafeInt (numStr : List Char) : Option Int :=
  match strtol0 numStr with
  | (some v, []) => if intMin ≤ v ∧ v ≤ intMax then some v else none
  | _ => none

/-! ## `parse_unit_list` and `max_cpu` -/

/-- The tokens the loop of `parse_unit_list` and `max_cpu` visits: each piece before a comma,
and the last piece when it is not empty. -/
def unitTokens (val : List Char) : List (List Char) :=
  let pieces := val.splitOn ','
  match pieces.getLast? with
  | some last => if last = [] then pieces.dropLast else pieces
  | none => []

/-- The indices `parse_unit_list` sets for one token: `value`, or `min` to `max`. -/
def parseUnit (tok : List Char) : Option (List Nat) :=
  match tok.span (· ≠ '-') with
  | (num, []) =>
    match utilSafeInt num with
    | some value => if value < 0 then none else some [value.toNat]
    | none => none
  | (lo, _ :: hi) =>
    match utilSafeInt lo, utilSafeInt hi with
    | some min, some max =>
      if min < 0 ∨ max < 0 then none
      else some (List.range' min.toNat (max.toNat + 1 - min.toNat))
    | _, _ => none

/-- `parse_unit_list` over the tokens left: the indices written, in order, and whether the
list parsed; a bad token stops it, after the writes of the tokens before it. -/
def parseUnits : List (List Char) → List Nat × Bool
  | [] => ([], true)
  | tok :: toks =>
    match parseUnit tok with
    | none => ([], false)
    | some w =>
      let r := parseUnits toks
      (w ++ r.1, r.2)

/-- `parse_unit_list(val, available_list)`: the indices of `available_list` it sets, and
whether it returns 0. -/
def parseUnitList : Option (List Char) → List Nat × Bool
  | none => ([], true)
  | some val => parseUnits (unitTokens val)

/-- The value `max_cpu` reads from a token: after its first `-`, or the whole token. -/
def maxCpuUnit (tok : List Char) : Option Int :=
  match tok.span (· ≠ '-') with
  | (num, []) => utilSafeInt num
  | (_, _ :: hi) => utilSafeInt hi

/-- `max_cpu(cores)`: the largest id, or `-1` on a bad token or an empty list. -/
def maxCpu : Option (List Char) → Int
  | none => -1
  | some cores =>
    let rec go : List (List Char) → Int → Int
      | [], max => max
      | tok :: toks, max =>
        match maxCpuUnit tok with
        | some value => if value < 0 then -1 else go toks (if value > max then value else max)
        | none => -1
    go (unitTokens cores) (-1)

/-- `check_cpu(provided, available)`. -/
def checkCpu (provided available : Option (List Char)) : Bool :=
  match provided with
  | none => true
  | some _ =>
    let maxAvailable := maxCpu available
    let maxRequest := maxCpu provided
    if maxAvailable = -1 ∨ maxRequest = -1 then false
    else if maxRequest > maxAvailable then false
    else true

/-! ## `is_cpuset_list_available` -/

/-- What `is_cpuset_list_available` returns, and the indices it writes in `parsed_provided`
and `parsed_available`. -/
structure ListCheck where
  result : Bool
  providedWrites : List Nat
  availableWrites : List Nat
  deriving DecidableEq, Repr

/-- `is_cpuset_list_available(provided, available)` with `cpuNum` what `get_nprocs()`
returns: both arrays hold `cpuNum` entries, and only the entries below `cpuNum` are
compared. -/
def isCpusetListAvailable (provided available : Option (List Char)) (cpuNum : Nat) :
    ListCheck :=
  if cpuNum = 0 then ⟨false, [], []⟩
  else if !checkCpu provided available then ⟨false, [], []⟩
  else
    let p := parseUnitList provided
    if !p.2 then ⟨false, p.1, []⟩
    else
      let a := parseUnitList available
      if !a.2 then ⟨false, p.1, a.1⟩
      else
        ⟨(List.range cpuNum).all (fun i => !(i ∈ p.1) || i ∈ a.1), p.1, a.1⟩

/-- An index the call writes outside its arrays of `cpuNum` entries. -/
def ListCheck.OutOfBounds (c : ListCheck) (cpuNum : Nat) : Prop :=
  (∃ i ∈ c.providedWrites, cpuNum ≤ i) ∨ ∃ i ∈ c.availableWrites, cpuNum ≤ i

/-- Within its arrays the call decides what it is meant to: the request's largest id is at
most the available list's (`check_cpu`), both lists parse, and every requested id is
available. -/
theorem isCpusetListAvailable_result_of_inBounds {provided available : Option (List Char)}
    {cpuNum : Nat} (hb : ¬ (isCpusetListAvailable provided available cpuNum).OutOfBounds cpuNum) :
    (isCpusetListAvailable provided available cpuNum).result = true ↔
      0 < cpuNum ∧ checkCpu provided available = true ∧ (parseUnitList provided).2 = true ∧
        (parseUnitList available).2 = true ∧
        ∀ i ∈ (parseUnitList provided).1, i ∈ (parseUnitList available).1 := by
  unfold isCpusetListAvailable at hb ⊢
  by_cases hn : cpuNum = 0
  · simp [hn]
  by_cases hc : checkCpu provided available = true
  swap
  · simp [hn, hc]
  by_cases hp : (parseUnitList provided).2 = true
  swap
  · simp [hn, hc, hp]
  by_cases ha : (parseUnitList available).2 = true
  swap
  · simp [hn, hc, hp, ha]
  simp only [hn, hc, hp, ha, if_false, Bool.not_true, Bool.false_eq_true] at hb ⊢
  -- every requested id lies in the arrays, so the loop over them sees all of it
  have hlt : ∀ i ∈ (parseUnitList provided).1, i < cpuNum := fun i hi =>
    Nat.lt_of_not_le fun hle => hb (.inl ⟨i, hi, hle⟩)
  constructor
  · intro hall
    refine ⟨Nat.pos_of_ne_zero hn, trivial, trivial, trivial, fun i hi => ?_⟩
    have := List.all_eq_true.1 hall i (List.mem_range.2 (hlt i hi))
    simpa [hi] using this
  · rintro ⟨-, -, -, -, hsub⟩
    refine List.all_eq_true.2 fun i _ => ?_
    by_cases hi : i ∈ (parseUnitList provided).1
    · simp [hi, hsub i hi]
    · simp [hi]

/-- With no cpuset requested and processor 2 of 0-3 offline, three are online and the
available list `0-1,3` marks index 3 of the three-element `parsed_available`. -/
theorem isCpusetListAvailable_writes_past_array :
    isCpusetListAvailable none (some "0-1,3".toList) 3 = ⟨true, [], [0, 1, 3]⟩ ∧
    (isCpusetListAvailable none (some "0-1,3".toList) 3).OutOfBounds 3 := by
  refine ⟨by decide, .inr ⟨3, by decide, Nat.le_refl 3⟩⟩

end Verify

end Isulad
