import Isulad.Cutils.UtilsString

/-!
# Unsigned conversions (`util_safe_u16`, `util_safe_uint`, `utils_convert.c`)

`util_safe_u16` reads its text with `strtoul` and `util_safe_uint` with `strtoull`, both in base
0 and, on a 64-bit host, both to 64 bits. Their syntax is `strtol`'s (`Verify.strtol0`), a sign
included. A magnitude past `ULLONG_MAX` sets `ERANGE`; any other value is negated modulo `2^64`
when the text is negative, without an error. The two then refuse only a result above their own
bound, `0xFFFF` or `UINT_MAX`.

So the conversion accepts a non-negative number exactly when it is within the bound, and keeps
it (`utilSafeUnsigned_of_nonneg`); and it accepts a negative number exactly when the number
plus `2^64` is within the bound, returning that sum (`utilSafeUnsigned_of_neg`):
`-18446744073709551615` is read as `1`, and `-18446744069414584321` as `UINT_MAX`.
-/

namespace Isulad

namespace Cutils

open Verify

/-- `ULLONG_MAX`, which is also `ULONG_MAX`, and `UINT_MAX`. -/
def ullongMax : Nat := 2 ^ 64 - 1
def uintMax : Nat := 2 ^ 32 - 1

/-- What `strtoull` returns for a value it read: the value modulo `2^64`. -/
def strtoullValue (v : Int) : Nat := (v % 2 ^ 64).toNat

/-- `util_safe_u16` and `util_safe_uint` with the bound of each: the value, or `-errno`. -/
def utilSafeUnsigned (bound : Nat) (numStr : List Char) : Except Int Nat :=
  match strtol0 numStr with
  | (none, _) => .error (-einval)
  | (some v, rest) =>
    -- `ERANGE` comes before the test of what follows the digits
    if ullongMax < v.natAbs then .error (-erange)
    else if rest ≠ [] then .error (-einval)
    else if bound < strtoullValue v then .error (-erange)
    else .ok (strtoullValue v)

/-- `util_safe_u16(numstr, &converted)`. -/
def utilSafeU16 (numStr : List Char) : Except Int Nat := utilSafeUnsigned 0xFFFF numStr

/-- `util_safe_uint(numstr, &converted)`. -/
def utilSafeUint (numStr : List Char) : Except Int Nat := utilSafeUnsigned uintMax numStr

/-- `is_valid_str_bool_true(str)`. -/
def isValidStrBoolTrue (str : List Char) : Bool :=
  [['1'], ['t'], ['T'], "true".toList, "TRUE".toList, "True".toList].contains str

/-- `is_valid_str_bool_false(str)`. -/
def isValidStrBoolFalse (str : List Char) : Bool :=
  [['0'], ['f'], ['F'], "false".toList, "FALSE".toList, "False".toList].contains str

/-- `util_str_to_bool(boolstr, &converted)`: the value, or `-EINVAL`. -/
def utilStrToBool (boolStr : List Char) : Except Int Bool :=
  if isValidStrBoolTrue boolStr then .ok true
  else if isValidStrBoolFalse boolStr then .ok false
  else .error (-einval)

/-! ## What is accepted -/

section Accepted

variable {bound : Nat} {numStr : List Char} {n : Nat}

/-- The conversion accepts exactly a number read from the whole text whose magnitude fits 64
bits and whose value modulo `2^64` is within the bound. -/
theorem utilSafeUnsigned_eq_ok :
    utilSafeUnsigned bound numStr = .ok n ↔
      ∃ v, strtol0 numStr = (some v, []) ∧ v.natAbs ≤ ullongMax ∧ strtoullValue v ≤ bound ∧
        n = strtoullValue v := by
  unfold utilSafeUnsigned
  rcases hs : strtol0 numStr with ⟨_ | v, rest⟩
  · simp
  · dsimp only
    by_cases hmag : ullongMax < v.natAbs
    · simp [hmag]
    · by_cases hrest : rest = []
      · subst hrest
        by_cases hb : bound < strtoullValue v
        · simp [hmag, hb]
        · simp [hmag, hb, eq_comm]
          omega
      · simp [hmag, hrest]

attribute [local simp] ullongMax strtoullValue in
lemma strtoullValue_of_nonneg {v : Int} (h0 : 0 ≤ v) (hmag : v.natAbs ≤ ullongMax) :
    (strtoullValue v : Int) = v := by
  have hlt : v < 2 ^ 64 := by
    have : (v.natAbs : Int) ≤ ullongMax := by exact_mod_cast hmag
    simp only [ullongMax, Int.natAbs_of_nonneg h0] at this
    omega
  rw [strtoullValue, Int.emod_eq_of_lt h0 hlt, Int.toNat_of_nonneg h0]

lemma strtoullValue_of_neg {v : Int} (hneg : v < 0) (hmag : v.natAbs ≤ ullongMax) :
    (strtoullValue v : Int) = v + 2 ^ 64 := by
  have hge : -(2 ^ 64) < v := by
    have : (v.natAbs : Int) ≤ ullongMax := by exact_mod_cast hmag
    simp only [ullongMax] at this
    omega
  have hmod : v % 2 ^ 64 = v + 2 ^ 64 := by omega
  rw [strtoullValue, hmod, Int.toNat_of_nonneg (by omega)]

/-- A non-negative number is accepted exactly when it is within the bound, as itself. -/
theorem utilSafeUnsigned_of_nonneg (hbound : bound ≤ ullongMax) {v : Int}
    (hread : strtol0 numStr = (some v, [])) (h0 : 0 ≤ v) :
    utilSafeUnsigned bound numStr = .ok n ↔ v ≤ bound ∧ (n : Int) = v := by
  rw [utilSafeUnsigned_eq_ok]
  constructor
  · rintro ⟨w, hw, hmag, hb, rfl⟩
    rw [hread] at hw
    cases hw
    have hval := strtoullValue_of_nonneg h0 hmag
    exact ⟨by omega, hval⟩
  · rintro ⟨hb, hn⟩
    have hmag : v.natAbs ≤ ullongMax := by omega
    have hval := strtoullValue_of_nonneg h0 hmag
    exact ⟨v, hread, hmag, by omega, by omega⟩

/-- A negative number is accepted exactly when its magnitude fits 64 bits and the number plus
`2^64` is within the bound; the result is that sum. -/
theorem utilSafeUnsigned_of_neg {v : Int} (hread : strtol0 numStr = (some v, []))
    (hneg : v < 0) :
    utilSafeUnsigned bound numStr = .ok n ↔
      -(ullongMax : Int) ≤ v ∧ v + 2 ^ 64 ≤ bound ∧ (n : Int) = v + 2 ^ 64 := by
  rw [utilSafeUnsigned_eq_ok]
  constructor
  · rintro ⟨w, hw, hmag, hb, rfl⟩
    rw [hread] at hw
    cases hw
    have hval := strtoullValue_of_neg hneg hmag
    exact ⟨by omega, by omega, hval⟩
  · rintro ⟨hmin, hb, hn⟩
    have hmag : v.natAbs ≤ ullongMax := by omega
    have hval := strtoullValue_of_neg hneg hmag
    exact ⟨v, hread, hmag, by omega, by omega⟩

end Accepted

/-- Both conversions accept `-18446744073709551615`, as `1`; `util_safe_uint` takes
`-18446744069414584321` to `UINT_MAX`, and refuses `-1`. -/
theorem utilSafeUint_utilSafeU16_accept_negative :
    utilSafeUint "-18446744073709551615".toList = .ok 1 ∧
    utilSafeUint "-18446744069414584321".toList = .ok uintMax ∧
    utilSafeU16 "-18446744073709551615".toList = .ok 1 ∧
    utilSafeUint "-1".toList = .error (-erange) := by
  decide

end Cutils

end Isulad
