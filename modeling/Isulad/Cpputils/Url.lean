import Isulad.Framework.CString
import Isulad.Cutils.UtilsString

/-!
# Percent-encoding and reference resolution of URLs (`url.cc`)

`Escape(s, mode)` first counts the characters to escape, spaces of query mode apart, sizes the
output to `len + 2 * hexCount`, and then writes each character at the index `j` it has reached:
a space of query mode as `+`, a character `ShouldEscape` names as `%` and two upper-case hex
digits, any other as itself. The writes fill the buffer exactly, so the output is the
characters' codes one after the other (`escape_eq`).

`Unescape(s, mode)` counts the escapes with `CalculatePercentNum`, which also checks each of
them, sizes its output to `len - 2 * n`, and decodes with `DoUnescape`. On the text `Escape`
writes, the count is that of the escaped characters (`calculatePercentNum_escape`) and the
decoding writes back each character (`doUnescape_escape`), so outside the host and zone modes,
whose checks refuse some escapes, `Unescape` undoes `Escape` (`escape_roundTrip`).

The strings of `Escape` and `Unescape` are `std::string`s of `char`, here bytes. `char` is signed: the range tests against
ASCII letters and digits give the same answer on the byte value, and the test `s[i] < 0x80` of
`CalculatePercentNum`, true of every signed `char`, is kept as the signed comparison.
-/

namespace Isulad

namespace Url

open CString

/-- `enum class EncodeMode`. -/
inductive EncodeMode
  | encodePath
  | encodePathSegment
  | encodeHost
  | encodeZone
  | encodeUserPassword
  | encodeQueryComponent
  | encodeFragment
  deriving DecidableEq, Repr

/-- The bytes of an ASCII text. -/
def asciiBytes (s : String) : List UInt8 := s.toList.map Char.toUInt8

/-- The value of a `char`, which is signed. -/
def toSigned (c : UInt8) : Int := if c < 128 then c.toNat else (c.toNat : Int) - 256

/-- `IsHex`. -/
def isHex (c : UInt8) : Bool :=
  (c ≥ '0'.toUInt8 && c ≤ '9'.toUInt8) || (c ≥ 'A'.toUInt8 && c ≤ 'F'.toUInt8) ||
    (c ≥ 'a'.toUInt8 && c ≤ 'f'.toUInt8)

/-- `GetHexDigit(c, d)`: the digit's value, or `false`. The third range test is implied by
`IsHex` once the first two have failed. -/
def getHexDigit (c : UInt8) : Option UInt8 :=
  if !isHex c then none
  else if c ≥ '0'.toUInt8 && c ≤ '9'.toUInt8 then some (c - '0'.toUInt8)
  else if c ≥ 'a'.toUInt8 && c ≤ 'f'.toUInt8 then some (c - 'a'.toUInt8 + 10)
  else some (c - 'A'.toUInt8 + 10)

/-- `SpecificCharacterCheck(c, mode, result)`: `some result` where it returns `-1` with
`result` set, `none` where it returns `0`. -/
def specificCharacterCheck (c : UInt8) (mode : EncodeMode) : Option Bool :=
  if c ∈ asciiBytes "-._~" then some false
  else if c ∈ asciiBytes "&,;?@$+=:/" then
    match mode with
    | .encodePath => some (c = '?'.toUInt8)
    | .encodePathSegment =>
      some (c = '/'.toUInt8 ∨ c = ';'.toUInt8 ∨ c = ','.toUInt8 ∨ c = '?'.toUInt8)
    | .encodeUserPassword =>
      some (c = '@'.toUInt8 ∨ c = '/'.toUInt8 ∨ c = '?'.toUInt8 ∨ c = ':'.toUInt8)
    | .encodeQueryComponent => some true
    | .encodeFragment => some false
    | .encodeHost | .encodeZone => none
  else none

/-- The letters and digits, which are never escaped. -/
def isAlnum (c : UInt8) : Bool :=
  (c ≥ 'A'.toUInt8 && c ≤ 'Z'.toUInt8) || (c ≥ 'a'.toUInt8 && c ≤ 'z'.toUInt8) ||
    (c ≥ '0'.toUInt8 && c ≤ '9'.toUInt8)

/-- `subDelims` of `ShouldEscape`: `!$&()'*+,;=:[]<>"` (the quote `'` is the byte `39`). -/
def subDelims : List UInt8 := asciiBytes "!$&()*+,;=:[]<>\"" ++ [39]

/-- `ShouldEscape(c, mode)`. -/
def shouldEscape (c : UInt8) (mode : EncodeMode) : Bool :=
  if isAlnum c then false
  else if (mode = .encodeHost ∨ mode = .encodeZone) ∧ c ∈ subDelims then false
  else
    match specificCharacterCheck c mode with
    | some result => result
    | none => if mode = .encodeFragment ∧ c ∈ asciiBytes "!()*" then false else true

/-! ## `Escape` -/

/-- `"0123456789ABCDEF"`. -/
def hexDigits : List UInt8 := asciiBytes "0123456789ABCDEF"

/-- A space that query mode writes as `+`. -/
def isQuerySpace (c : UInt8) (mode : EncodeMode) : Bool :=
  c = ' '.toUInt8 && mode = .encodeQueryComponent

/-- The second loop of `Escape`, from index `i` of `s` (the list) and `j` of `t`. -/
def escapeLoop (mode : EncodeMode) : List UInt8 → Nat → List UInt8 → List UInt8
  | [], _, t => t
  | c :: s, j, t =>
    if c = ' '.toUInt8 ∧ mode = .encodeQueryComponent then
      escapeLoop mode s (j + 1) (memcpy t j ['+'.toUInt8])
    else if shouldEscape c mode then
      escapeLoop mode s (j + 3)
        (memcpy (memcpy (memcpy t j ['%'.toUInt8]) (j + 1) [hexDigits.getD (c >>> 4).toNat 0])
          (j + 2) [hexDigits.getD (c &&& 15).toNat 0])
    else escapeLoop mode s (j + 1) (memcpy t j [c])

/-- `Escape(s, mode)`. -/
def escape (s : List UInt8) (mode : EncodeMode) : List UInt8 :=
  let spaceCount := s.countP fun c => shouldEscape c mode && isQuerySpace c mode
  let hexCount := s.countP fun c => shouldEscape c mode && !isQuerySpace c mode
  if spaceCount = 0 ∧ hexCount = 0 then s
  else escapeLoop mode s 0 (List.replicate (s.length + 2 * hexCount) '0'.toUInt8)

/-! ## `Unescape` -/

/-- `UnescapeDealWithPercentSign` at a `%` followed by `rest`: whether it returns `0`. -/
def unescapeDealWithPercentSign (rest : List UInt8) (mode : EncodeMode) : Bool :=
  match rest with
  | a :: b :: _ =>
    if !(isHex a && isHex b) then false
    else
      match getHexDigit a, getHexDigit b with
      | some s1, some s2 =>
        if mode = .encodeHost ∧ s1 < 8 ∧ ['%'.toUInt8, a, b] ≠ asciiBytes "%25" then false
        else if mode = .encodeZone ∧ ['%'.toUInt8, a, b] ≠ asciiBytes "%25" ∧
            (s1 <<< 4 ||| s2) ≠ ' '.toUInt8 ∧ shouldEscape (s1 <<< 4 ||| s2) .encodeHost then false
        else true
      | _, _ => false
  | _ => false

/-- The loop of `CalculatePercentNum` over the rest of the text, with the count `n` and
`hasPlus` so far; `none` where it returns `-1`. -/
def calculatePercentNum (mode : EncodeMode) : Nat → Bool → List UInt8 → Option (Nat × Bool)
  | n, hasPlus, [] => some (n, hasPlus)
  | n, hasPlus, c :: rest =>
    if c = '%'.toUInt8 then
      match rest with
      | a :: b :: rest' =>
        if unescapeDealWithPercentSign (a :: b :: rest') mode then
          calculatePercentNum mode (n + 1) hasPlus rest'
        else none
      | _ => none
    else if c = '+'.toUInt8 then calculatePercentNum mode n (mode = .encodeQueryComponent) rest
    else if (mode = .encodeHost ∨ mode = .encodeZone) ∧ toSigned c < 0x80 ∧ shouldEscape c mode then
      none
    else calculatePercentNum mode n hasPlus rest

/-- `DoUnescape(t, s, mode)` from index `i` of `s` (the list) and `j` of `t`. Past the end of
`s` its `operator[]` reads the terminating `NUL`, which is no hex digit. -/
def doUnescape (mode : EncodeMode) : List UInt8 → Nat → List UInt8 → List UInt8
  | [], _, t => t
  | c :: rest, j, t =>
    if c = '%'.toUInt8 then
      match rest with
      | a :: b :: rest' =>
        match getHexDigit a, getHexDigit b with
        | some s1, some s2 => doUnescape mode rest' (j + 1) (memcpy t j [s1 <<< 4 ||| s2])
        | _, _ => t
      | _ => t
    else if c = '+'.toUInt8 then
      doUnescape mode rest (j + 1)
        (memcpy t j [if mode = .encodeQueryComponent then ' '.toUInt8 else '+'.toUInt8])
    else doUnescape mode rest (j + 1) (memcpy t j [c])

/-- `Unescape(s, mode)`; the empty string where `CalculatePercentNum` fails. -/
def unescape (s : List UInt8) (mode : EncodeMode) : List UInt8 :=
  match calculatePercentNum mode 0 false s with
  | none => []
  | some (n, hasPlus) =>
    if n = 0 ∧ hasPlus = false then s
    else doUnescape mode s 0 (List.replicate (s.length - 2 * n) '0'.toUInt8)

/-! ## What `Escape` writes -/

/-- The code `Escape` writes for one character. -/
def escapeCode (mode : EncodeMode) (c : UInt8) : List UInt8 :=
  if c = ' '.toUInt8 ∧ mode = .encodeQueryComponent then ['+'.toUInt8]
  else if shouldEscape c mode then
    ['%'.toUInt8, hexDigits.getD (c >>> 4).toNat 0, hexDigits.getD (c &&& 15).toNat 0]
  else [c]

/-- The characters `Escape` writes as `%XY`. -/
def hexCount (s : List UInt8) (mode : EncodeMode) : Nat :=
  s.countP fun c => shouldEscape c mode && !isQuerySpace c mode

lemma shouldEscape_space_query : shouldEscape ' '.toUInt8 .encodeQueryComponent = true := by decide

lemma shouldEscape_plus_query : shouldEscape '+'.toUInt8 .encodeQueryComponent = true := by decide

lemma shouldEscape_percent (mode : EncodeMode) : shouldEscape '%'.toUInt8 mode = true := by
  cases mode <;> decide

/-- The two digits of a byte's code read back as its two halves, and the halves make the byte. -/
lemma hexDigits_getD (c : UInt8) :
    getHexDigit (hexDigits.getD (c >>> 4).toNat 0) = some (c >>> 4) ∧
      getHexDigit (hexDigits.getD (c &&& 15).toNat 0) = some (c &&& 15) ∧
      (c >>> 4) <<< 4 ||| (c &&& 15) = c := by
  revert c
  decide +kernel

lemma isHex_of_getHexDigit {a d : UInt8} (h : getHexDigit a = some d) : isHex a = true := by
  by_contra hx
  simp [getHexDigit, hx] at h

attribute [local simp] escapeCode in
lemma escapeCode_of_not_shouldEscape {mode : EncodeMode} {c : UInt8}
    (h : shouldEscape c mode = false) : escapeCode mode c = [c] := by
  have hsp : ¬(c = ' '.toUInt8 ∧ mode = .encodeQueryComponent) := by
    rintro ⟨rfl, rfl⟩
    simp [shouldEscape_space_query] at h
  simp [escapeCode, hsp, h]

lemma length_escapeCode (mode : EncodeMode) (c : UInt8) :
    (escapeCode mode c).length = if shouldEscape c mode && !isQuerySpace c mode then 3 else 1 := by
  by_cases hsp : c = ' '.toUInt8 ∧ mode = .encodeQueryComponent
  · obtain ⟨rfl, rfl⟩ := hsp
    simp [escapeCode, isQuerySpace]
  · have hq : isQuerySpace c mode = false := by simpa [isQuerySpace] using hsp
    by_cases he : shouldEscape c mode <;> simp [escapeCode, hsp, he, hq]

attribute [local simp] hexCount in
lemma length_flatMap_escapeCode (mode : EncodeMode) (s : List UInt8) :
    (s.flatMap (escapeCode mode)).length = s.length + 2 * hexCount s mode := by
  induction s with
  | nil => rfl
  | cons c s ih =>
    simp only [List.flatMap_cons, List.length_append, ih, length_escapeCode, hexCount,
      List.countP_cons, List.length_cons] at *
    split_ifs <;> omega

attribute [local simp] escapeLoop in
/-- One character's turn of the second loop of `Escape`: its code written at `j`. -/
lemma escapeLoop_cons (mode : EncodeMode) (c : UInt8) (s : List UInt8) (j : Nat) (t : List UInt8)
    (h : j + (escapeCode mode c).length ≤ t.length) :
    escapeLoop mode (c :: s) j t =
      escapeLoop mode s (j + (escapeCode mode c).length) (memcpy t j (escapeCode mode c)) := by
  by_cases hsp : c = ' '.toUInt8 ∧ mode = .encodeQueryComponent
  · simp only [escapeLoop, escapeCode, if_pos hsp, List.length_singleton]
  · by_cases he : shouldEscape c mode
    · -- the three writes of `%XY` are one
      simp only [escapeCode, if_neg hsp, if_pos he, List.length_cons, List.length_nil] at h ⊢
      have h2 : memcpy (memcpy t j ['%'.toUInt8]) (j + 1) [hexDigits.getD (c >>> 4).toNat 0] =
          memcpy t j ['%'.toUInt8, hexDigits.getD (c >>> 4).toNat 0] :=
        @memcpy_memcpy UInt8 t _ _ j (by simp; omega)
      have h3 : memcpy (memcpy t j ['%'.toUInt8, hexDigits.getD (c >>> 4).toNat 0]) (j + 2)
          [hexDigits.getD (c &&& 15).toNat 0] =
          memcpy t j ['%'.toUInt8, hexDigits.getD (c >>> 4).toNat 0,
            hexDigits.getD (c &&& 15).toNat 0] :=
        @memcpy_memcpy UInt8 t _ _ j (by simp; omega)
      simp only [escapeLoop, if_neg hsp, if_pos he, h2, h3]
    · simp only [escapeLoop, escapeCode, if_neg hsp, if_neg he, List.length_singleton]

/-- The second loop of `Escape` writes the codes of the characters one after the other. -/
lemma escapeLoop_eq (mode : EncodeMode) (s : List UInt8) :
    ∀ (j : Nat) (t : List UInt8), j + (s.flatMap (escapeCode mode)).length ≤ t.length →
      escapeLoop mode s j t = memcpy t j (s.flatMap (escapeCode mode)) := by
  induction s with
  | nil => intro j t _; simp [escapeLoop, memcpy]
  | cons c s ih =>
    intro j t h
    simp only [List.flatMap_cons, List.length_append] at h ⊢
    have hlen : (memcpy t j (escapeCode mode c)).length = t.length := length_memcpy (by omega)
    rw [escapeLoop_cons mode c s j t (by omega), ih _ _ (by omega), memcpy_memcpy (by omega)]

/-- `Escape` writes the codes of the characters one after the other: the buffer it sizes from
its two counts is exactly filled. -/
theorem escape_eq (s : List UInt8) (mode : EncodeMode) :
    escape s mode = s.flatMap (escapeCode mode) := by
  simp only [escape]
  split_ifs with h
  · -- nothing to escape: every code is the character itself
    obtain ⟨hsp, hhex⟩ := h
    rw [List.countP_eq_zero] at hsp hhex
    have hkeep : ∀ c ∈ s, escapeCode mode c = [c] := by
      intro c hc
      apply escapeCode_of_not_shouldEscape
      cases hq : isQuerySpace c mode <;> simpa [hq] using (show _ ∧ _ from ⟨hsp c hc, hhex c hc⟩)
    rw [List.flatMap_congr hkeep, List.flatMap_singleton']
  · have hlen := length_flatMap_escapeCode mode s
    rw [escapeLoop_eq mode s 0 _ (by simp [hlen, hexCount]), memcpy_of_length (by simp [hlen, hexCount])]

/-! ## `Unescape` on what `Escape` writes -/

section Roundtrip

variable {mode : EncodeMode}

/-- A character kept as it is: no `%`, and a `+` only outside query mode. -/
lemma kept_of_not_shouldEscape {c : UInt8} (h : shouldEscape c mode = false) :
    c ≠ '%'.toUInt8 ∧ (c = '+'.toUInt8 → mode ≠ .encodeQueryComponent) := by
  refine ⟨?_, ?_⟩
  · rintro rfl
    simp [shouldEscape_percent] at h
  · rintro rfl rfl
    simp [shouldEscape_plus_query] at h

lemma calculatePercentNum_percent (n : Nat) (hasPlus : Bool) (a b : UInt8) (rest : List UInt8) :
    calculatePercentNum mode n hasPlus ('%'.toUInt8 :: a :: b :: rest) =
      if unescapeDealWithPercentSign (a :: b :: rest) mode then
        calculatePercentNum mode (n + 1) hasPlus rest
      else none := rfl

attribute [local simp] calculatePercentNum unescapeDealWithPercentSign in
lemma calculatePercentNum_of_ne {c : UInt8} (hc : c ≠ '%'.toUInt8) (n : Nat) (hasPlus : Bool)
    (rest : List UInt8) :
    calculatePercentNum mode n hasPlus (c :: rest) =
      if c = '+'.toUInt8 then calculatePercentNum mode n (mode = .encodeQueryComponent) rest
      else if (mode = .encodeHost ∨ mode = .encodeZone) ∧ toSigned c < 0x80 ∧ shouldEscape c mode
      then none
      else calculatePercentNum mode n hasPlus rest := by
  rw [calculatePercentNum.eq_def]
  simp only [if_neg hc]

lemma doUnescape_percent (a b : UInt8) (rest : List UInt8) (j : Nat) (t : List UInt8) :
    doUnescape mode ('%'.toUInt8 :: a :: b :: rest) j t =
      match getHexDigit a, getHexDigit b with
      | some s1, some s2 => doUnescape mode rest (j + 1) (memcpy t j [s1 <<< 4 ||| s2])
      | _, _ => t := rfl

attribute [local simp] doUnescape in
lemma doUnescape_of_ne {c : UInt8} (hc : c ≠ '%'.toUInt8) (rest : List UInt8) (j : Nat)
    (t : List UInt8) :
    doUnescape mode (c :: rest) j t =
      if c = '+'.toUInt8 then
        doUnescape mode rest (j + 1)
          (memcpy t j [if mode = .encodeQueryComponent then ' '.toUInt8 else '+'.toUInt8])
      else doUnescape mode rest (j + 1) (memcpy t j [c]) := by
  rw [doUnescape.eq_def]
  simp only [if_neg hc]

/-- The escape `Escape` writes for a byte passes the checks of `UnescapeDealWithPercentSign`
outside the host and zone modes. -/
lemma unescapeDealWithPercentSign_escape (hm : mode ≠ .encodeHost ∧ mode ≠ .encodeZone) (c : UInt8)
    (rest : List UInt8) :
    unescapeDealWithPercentSign
      (hexDigits.getD (c >>> 4).toNat 0 :: hexDigits.getD (c &&& 15).toNat 0 :: rest) mode = true := by
  obtain ⟨hhi, hlo, -⟩ := hexDigits_getD c
  simp only [unescapeDealWithPercentSign, isHex_of_getHexDigit hhi, isHex_of_getHexDigit hlo,
    Bool.and_self, Bool.not_true, Bool.false_eq_true, if_false, hhi, hlo, hm.1, hm.2, false_and]

/-- `CalculatePercentNum` over one character's code: an escape counts and passes its checks
outside the host and zone modes, and a `+` sets `hasPlus` in query mode only. -/
lemma calculatePercentNum_escapeCode (hm : mode ≠ .encodeHost ∧ mode ≠ .encodeZone) (n : Nat)
    (hasPlus : Bool) (hplus : mode ≠ .encodeQueryComponent → hasPlus = false) (c : UInt8)
    (rest : List UInt8) :
    calculatePercentNum mode n hasPlus (escapeCode mode c ++ rest) =
      calculatePercentNum mode (if shouldEscape c mode && !isQuerySpace c mode then n + 1 else n)
        (hasPlus || isQuerySpace c mode) rest := by
  by_cases hsp : c = ' '.toUInt8 ∧ mode = .encodeQueryComponent
  · obtain ⟨rfl, rfl⟩ := hsp
    simp only [escapeCode, and_self, if_true, List.singleton_append,
      calculatePercentNum_of_ne (show '+'.toUInt8 ≠ '%'.toUInt8 by decide)]
    simp [isQuerySpace]
  · have hq : isQuerySpace c mode = false := by simpa [isQuerySpace] using hsp
    by_cases he : shouldEscape c mode
    · simp only [escapeCode, if_neg hsp, if_pos he, List.cons_append, List.nil_append,
        calculatePercentNum_percent, unescapeDealWithPercentSign_escape hm, if_true, hq,
        Bool.not_false, Bool.and_true, Bool.or_false]
    · obtain ⟨hpct, hplus'⟩ := kept_of_not_shouldEscape (Bool.eq_false_iff.mpr he)
      simp only [escapeCode, if_neg hsp, he, Bool.false_eq_true, if_false, List.singleton_append,
        calculatePercentNum_of_ne hpct, Bool.false_and, hq, Bool.or_false]
      by_cases hp : c = '+'.toUInt8
      · have hnq := hplus' hp
        simp [hp, hnq, hplus hnq]
      · simp [hp, hm.1, hm.2]

/-- `CalculatePercentNum` on `Escape`'s text: the escaped characters, and `hasPlus` exactly
when query mode wrote a space as `+`. -/
theorem calculatePercentNum_escape (hm : mode ≠ .encodeHost ∧ mode ≠ .encodeZone) (s : List UInt8) :
    ∀ (n : Nat) (hasPlus : Bool), (mode ≠ .encodeQueryComponent → hasPlus = false) →
      calculatePercentNum mode n hasPlus (s.flatMap (escapeCode mode)) =
        some (n + hexCount s mode, hasPlus || s.any (isQuerySpace · mode)) := by
  induction s with
  | nil => intro n hasPlus _; simp [calculatePercentNum, hexCount]
  | cons c s ih =>
    intro n hasPlus hplus
    have hplus' : mode ≠ .encodeQueryComponent → (hasPlus || isQuerySpace c mode) = false := by
      intro hnq
      simp [hplus hnq, isQuerySpace, hnq]
    rw [List.flatMap_cons, calculatePercentNum_escapeCode hm n hasPlus hplus, ih _ _ hplus']
    simp only [hexCount, List.countP_cons, List.any_cons, Bool.or_assoc, Option.some.injEq,
      Prod.mk.injEq, and_true]
    split_ifs <;> omega

/-- `DoUnescape` over one character's code writes the character back. -/
lemma doUnescape_escapeCode (c : UInt8) (rest : List UInt8) (j : Nat) (t : List UInt8) :
    doUnescape mode (escapeCode mode c ++ rest) j t = doUnescape mode rest (j + 1) (memcpy t j [c]) := by
  by_cases hsp : c = ' '.toUInt8 ∧ mode = .encodeQueryComponent
  · obtain ⟨rfl, rfl⟩ := hsp
    simp only [escapeCode, and_self, if_true, List.singleton_append,
      doUnescape_of_ne (show '+'.toUInt8 ≠ '%'.toUInt8 by decide)]
  · by_cases he : shouldEscape c mode
    · obtain ⟨hhi, hlo, hc⟩ := hexDigits_getD c
      simp only [escapeCode, if_neg hsp, if_pos he, List.cons_append, List.nil_append,
        doUnescape_percent, hhi, hlo, hc]
    · obtain ⟨hpct, hplus⟩ := kept_of_not_shouldEscape (Bool.eq_false_iff.mpr he)
      simp only [escapeCode, if_neg hsp, he, Bool.false_eq_true, if_false, List.singleton_append,
        doUnescape_of_ne hpct]
      by_cases hp : c = '+'.toUInt8
      · simp [hp, hplus hp]
      · simp [hp]

/-- `DoUnescape` on `Escape`'s text writes back the original characters. -/
theorem doUnescape_escape (s : List UInt8) :
    ∀ (j : Nat) (t : List UInt8), j + s.length ≤ t.length →
      doUnescape mode (s.flatMap (escapeCode mode)) j t = memcpy t j s := by
  induction s with
  | nil => intro j t _; simp [doUnescape, memcpy]
  | cons c s ih =>
    intro j t h
    simp only [List.length_cons] at h
    have hlen : (memcpy t j [c]).length = t.length := length_memcpy (by simp; omega)
    rw [List.flatMap_cons, doUnescape_escapeCode, ih _ _ (by omega)]
    exact @memcpy_memcpy UInt8 t [c] s j (by simp; omega)

/-- Text that `Escape` leaves as it is: nothing escaped and no space of query mode. -/
lemma flatMap_escapeCode_of_plain {s : List UInt8} (hhex : hexCount s mode = 0)
    (hsp : s.any (isQuerySpace · mode) = false) : s.flatMap (escapeCode mode) = s := by
  have hkeep : ∀ c ∈ s, escapeCode mode c = [c] := by
    intro c hc
    have hq : isQuerySpace c mode = false := by
      simpa using List.any_eq_false.mp hsp c hc
    have hnot := List.countP_eq_zero.mp hhex c hc
    exact escapeCode_of_not_shouldEscape (by simpa [hq] using hnot)
  rw [List.flatMap_congr hkeep, List.flatMap_singleton']

/-- Outside the host and zone modes, `Unescape` undoes `Escape`. -/
theorem unescape_escape (hm : mode ≠ .encodeHost ∧ mode ≠ .encodeZone) (s : List UInt8) :
    unescape (escape s mode) mode = s := by
  have hcount := calculatePercentNum_escape hm s 0 false (fun _ => rfl)
  rw [escape_eq, unescape, hcount]
  simp only [Nat.zero_add, Bool.false_or]
  split_ifs with h
  · exact flatMap_escapeCode_of_plain h.1 h.2
  · have hlen := length_flatMap_escapeCode mode s
    have hsize : (s.flatMap (escapeCode mode)).length - 2 * hexCount s mode = s.length := by omega
    rw [hsize, doUnescape_escape s 0 _ (by simp), memcpy_of_length (by simp)]

end Roundtrip

lemma getD_mem_hexDigits {k : Nat} (hk : k < 16) : hexDigits.getD k 0 ∈ hexDigits := by
  have hlen : hexDigits.length = 16 := rfl
  rw [List.getD_eq_getElem _ _ (hlen ▸ hk)]
  exact List.getElem_mem _

/-- Each code `Escape` writes is a character `ShouldEscape` keeps, `%` and two upper-case hex
digits, or, in query mode, `+`. -/
lemma escapeCode_cases (mode : EncodeMode) (c : UInt8) :
    (∃ k, escapeCode mode c = [k] ∧ shouldEscape k mode = false) ∨
      (∃ h l, escapeCode mode c = ['%'.toUInt8, h, l] ∧ h ∈ hexDigits ∧ l ∈ hexDigits) ∨
      (mode = .encodeQueryComponent ∧ escapeCode mode c = ['+'.toUInt8]) := by
  by_cases hsp : c = ' '.toUInt8 ∧ mode = .encodeQueryComponent
  · exact .inr (.inr ⟨hsp.2, by simp [escapeCode, hsp]⟩)
  · by_cases he : shouldEscape c mode
    · have hhi : (c >>> 4).toNat < 16 := by
        have hc : c.toNat < 256 := UInt8.toNat_lt_size c
        simp [UInt8.toNat_shiftRight, Nat.shiftRight_eq_div_pow]
        omega
      have hlo : (c &&& 15).toNat < 16 := by
        simp only [UInt8.toNat_and, UInt8.reduceToNat, Nat.and_two_pow_sub_one_eq_mod _ 4]
        omega
      exact .inr (.inl ⟨_, _, by simp [escapeCode, hsp, he], getD_mem_hexDigits hhi,
        getD_mem_hexDigits hlo⟩)
    · exact .inl ⟨c, by simp [escapeCode, hsp, he], by simpa using he⟩

/-- For every byte string and every mode but the host and zone modes, `Unescape` undoes
`Escape`, and `Escape` writes only characters `ShouldEscape` keeps, `%XY` with upper-case hex
digits, and in query mode `+`. -/
theorem escape_roundTrip (s : List UInt8) (mode : EncodeMode)
    (hm : mode ∈ [.encodePath, .encodePathSegment, .encodeUserPassword, .encodeQueryComponent,
      .encodeFragment]) :
    unescape (escape s mode) mode = s ∧
      ∃ codes : List (List UInt8), escape s mode = codes.flatten ∧ ∀ code ∈ codes,
        (∃ c, code = [c] ∧ shouldEscape c mode = false) ∨
          (∃ h l, code = ['%'.toUInt8, h, l] ∧ h ∈ hexDigits ∧ l ∈ hexDigits) ∨
          (mode = .encodeQueryComponent ∧ code = ['+'.toUInt8]) := by
  have hm' : mode ≠ .encodeHost ∧ mode ≠ .encodeZone := by
    cases mode <;> simp_all
  refine ⟨unescape_escape hm' s, s.map (escapeCode mode), by rw [escape_eq, List.flatMap_def], ?_⟩
  intro code hcode
  obtain ⟨c, -, rfl⟩ := List.mem_map.mp hcode
  exact escapeCode_cases mode c

theorem escape_roundTrip_query :
    EncodeMode.encodeQueryComponent ∈ [.encodePath, .encodePathSegment, .encodeUserPassword,
      .encodeQueryComponent, .encodeFragment] ∧
    unescape (escape (asciiBytes "a b+%") .encodeQueryComponent) .encodeQueryComponent =
      asciiBytes "a b+%" :=
  ⟨by decide, (escape_roundTrip _ _ (by decide)).1⟩

/-! ## `ResolvePath`

Paths are resolved as text, a list of characters, as paths are elsewhere in this development;
`Cutils.splitOnChar` is Go's `strings.Split`, which keeps every piece. -/

/-- `CXXUtils::Split(str, delimiter)`: the pieces `std::getline` reads one after another, `tmp`
being the piece under way. At the end of the text a piece with characters in it is read, and an
empty one is not: no piece follows a final delimiter, and the empty text has none. -/
def splitAux (delimiter : Char) (tmp : List Char) : List Char → List (List Char)
  | [] => if tmp = [] then [] else [tmp]
  | c :: str => if c = delimiter then tmp :: splitAux delimiter [] str
                else splitAux delimiter (tmp ++ [c]) str

/-- `CXXUtils::Split(str, delimiter)`. -/
def split (str : List Char) (delimiter : Char) : List (List Char) := splitAux delimiter [] str

/-- `s.find_last_of(c)`: the index of the last `c`, or `npos`. -/
def findLastOf (s : List Char) (c : Char) : Option Nat :=
  match s.reverse.dropWhile (· ≠ c) with
  | [] => none
  | l => some (l.length - 1)

/-- `GetFullPreResolvePath(base, ref)`. Without a `/` in `base`, `i + 1` is `npos + 1 = 0`. -/
def getFullPreResolvePath (base ref : List Char) : List Char :=
  if ref = [] then base
  else if ref.head? ≠ some '/' then
    base.take (match findLastOf base '/' with
      | some i => i + 1
      | none => 0) ++ ref
  else ref

/-- `v.erase(v.begin() + first, v.begin() + last)`. -/
def vectorErase {α : Type} (v : List α) (first last : Nat) : List α := v.take first ++ v.drop last

/-- One turn of the loop of `SplitFullPreResolvePath` over the segments: `..` erases the range
from `dst.begin() + dst.size()` to `dst.end()`, which is empty. -/
def splitStep (dst : List (List Char)) (elem : List Char) : List (List Char) :=
  if elem = ['.'] then dst
  else if elem = ['.', '.'] then
    if dst.length > 0 then vectorErase dst dst.length dst.length else dst
  else dst ++ [elem]

/-- `SplitFullPreResolvePath(full, dst)` from an empty `dst`; `none` where `src.at` throws. -/
def splitFullPreResolvePath (full : List Char) : Option (List (List Char)) :=
  let src := split full '/'
  let dst := src.foldl splitStep []
  match src.getLast? with
  | none => none
  | some last => some (if last = ['.'] ∨ last = ['.', '.'] then dst ++ [[]] else dst)

/-- `ResolvePath(base, ref)`; `none` where it throws `std::out_of_range`. The loop that builds
`ret` puts a `/` between the segments. -/
def resolvePath (base ref : List Char) : Option (List Char) :=
  let full := getFullPreResolvePath base ref
  if full = [] then some []
  else
    match splitFullPreResolvePath full with
    | none => none
    | some dst =>
      match ['/'].intercalate dst with
      | [] => none
      | c :: rest => some ('/' :: if c = '/' then rest else c :: rest)

/-! ### The behaviour `ResolvePath` ports -/

/-- One turn of the loop of Go's `resolvePath`: `..` drops the segment before it. -/
def goStep (dst : List (List Char)) (elem : List Char) : List (List Char) :=
  if elem = ['.'] then dst
  else if elem = ['.', '.'] then dst.dropLast
  else dst ++ [elem]

/-- Go's `resolvePath(base, ref)` of `net/url`, which `ResolvePath` follows: the same merge, all
the pieces of `strings.Split`, `.` dropped, `..` removing the segment before it, and a final `.`
or `..` leaving a final `/`. -/
def goResolvePath (base ref : List Char) : List Char :=
  let full := getFullPreResolvePath base ref
  if full = [] then []
  else
    let src := Cutils.splitOnChar '/' full
    let dst := src.foldl goStep []
    let dst := if src.getLast? = some ['.'] ∨ src.getLast? = some ['.', '.'] then dst ++ [[]]
      else dst
    let joined := ['/'].intercalate dst
    '/' :: if joined.head? = some '/' then joined.tail else joined

/-! ### The segments -/

/-- A list of pieces without its last one when that is empty. -/
def dropEmptyLast (l : List (List Char)) : List (List Char) :=
  if l.getLast? = some [] then l.dropLast else l

lemma dropEmptyLast_cons (a : List Char) {l : List (List Char)} (hl : l ≠ []) :
    dropEmptyLast (a :: l) = a :: dropEmptyLast l := by
  obtain ⟨b, l', rfl⟩ := List.exists_cons_of_ne_nil hl
  unfold dropEmptyLast
  rw [List.getLast?_cons_cons]
  split_ifs <;> simp

lemma mem_of_mem_dropEmptyLast {l : List (List Char)} {f : List Char} (h : f ∈ dropEmptyLast l) :
    f ∈ l := by
  unfold dropEmptyLast at h
  split_ifs at h
  · exact List.dropLast_subset l h
  · exact h

attribute [local simp] splitAux dropEmptyLast in
/-- `std::getline` reads the pieces of the text between delimiters, but not an empty last
one. -/
lemma splitAux_eq (d : Char) (str : List Char) :
    ∀ tmp : List Char, d ∉ tmp →
      splitAux d tmp str = dropEmptyLast (Cutils.splitOnChar d (tmp ++ str)) := by
  induction str with
  | nil =>
    intro tmp htmp
    rw [List.append_nil, Cutils.splitOnChar_of_not_mem htmp, splitAux]
    by_cases ht : tmp = [] <;> simp [dropEmptyLast, ht]
  | cons c str ih =>
    intro tmp htmp
    by_cases hc : c = d
    · subst hc
      rw [splitAux, if_pos rfl, ih [] (List.not_mem_nil), List.nil_append,
        Cutils.splitOnChar_append_sep, Cutils.splitOnChar_of_not_mem htmp, List.singleton_append,
        dropEmptyLast_cons _ (Cutils.splitOnChar_ne_nil _ _)]
    · have htmp' : d ∉ tmp ++ [c] := by simp [htmp, Ne.symm hc]
      rw [splitAux, if_neg hc, ih _ htmp', List.append_assoc, List.singleton_append]

lemma split_eq (str : List Char) (d : Char) :
    split str d = dropEmptyLast (Cutils.splitOnChar d str) := splitAux_eq d str [] List.not_mem_nil

/-- No piece holds a separator. -/
lemma not_mem_of_mem_splitOnChar {sep : Char} {s f : List Char} (h : f ∈ Cutils.splitOnChar sep s) :
    sep ∉ f := by
  induction s generalizing f with
  | nil => simp [Cutils.splitOnChar] at h; simp [h]
  | cons c cs ih =>
    rw [Cutils.splitOnChar] at h
    split_ifs at h with hc
    · rcases List.mem_cons.mp h with rfl | h
      · exact List.not_mem_nil
      · exact ih h
    · split at h
      · rename_i hnil
        exact absurd hnil (Cutils.splitOnChar_ne_nil sep cs)
      · rename_i g gs hgs
        rcases List.mem_cons.mp h with rfl | h
        · have hg : sep ∉ g := ih (by rw [hgs]; exact List.mem_cons_self)
          simp [hg, Ne.symm hc]
        · exact ih (by rw [hgs]; exact List.mem_cons_of_mem _ h)

/-- Separator-free pieces joined with the separator split back into themselves. -/
lemma splitOnChar_intercalate {sep : Char} {l : List (List Char)} (h : ∀ f ∈ l, sep ∉ f)
    (hne : l ≠ []) : Cutils.splitOnChar sep ([sep].intercalate l) = l := by
  induction l with
  | nil => exact absurd rfl hne
  | cons f l ih =>
    cases l with
    | nil => simpa using Cutils.splitOnChar_of_not_mem (h f List.mem_cons_self)
    | cons g l =>
      rw [List.intercalate_cons_cons, List.append_assoc, List.singleton_append,
        Cutils.splitOnChar_append_sep, Cutils.splitOnChar_of_not_mem (h f List.mem_cons_self),
        ih (fun x hx => h x (List.mem_cons_of_mem _ hx)) (List.cons_ne_nil _ _),
        List.singleton_append]

/-- Whether `ResolvePath` keeps a segment: neither `.` nor `..`. -/
def keepSegment (elem : List Char) : Bool := elem ≠ ['.'] && elem ≠ ['.', '.']

lemma vectorErase_length {α : Type} (v : List α) : vectorErase v v.length v.length = v := by
  simp [vectorErase]

attribute [local simp] keepSegment in
/-- The loop of `SplitFullPreResolvePath` keeps every segment but `.` and `..`: its `..` erases
nothing. -/
lemma foldl_splitStep (src : List (List Char)) :
    ∀ dst : List (List Char), src.foldl splitStep dst = dst ++ src.filter keepSegment := by
  induction src with
  | nil => intro dst; simp
  | cons e src ih =>
    intro dst
    rw [List.foldl_cons, ih, List.filter_cons]
    by_cases h1 : e = ['.']
    · simp [splitStep, h1, keepSegment]
    · by_cases h2 : e = ['.', '.']
      · by_cases hd : dst.length > 0 <;> simp [splitStep, h2, keepSegment, hd, vectorErase_length]
      · simp [splitStep, h1, h2, keepSegment]

/-- Go's loop, on segments that are neither `.` nor `..`, keeps them all. -/
lemma foldl_goStep_of_keep {src : List (List Char)} (h : ∀ e ∈ src, keepSegment e = true) :
    ∀ dst : List (List Char), src.foldl goStep dst = dst ++ src := by
  induction src with
  | nil => intro dst; simp
  | cons e src ih =>
    intro dst
    have he := h e List.mem_cons_self
    simp only [keepSegment, Bool.and_eq_true, decide_eq_true_eq] at he
    rw [List.foldl_cons, ih (fun x hx => h x (List.mem_cons_of_mem _ hx))]
    simp [goStep, he.1, he.2]

/-- A text that does not end with the separator has a last piece that is not empty. -/
lemma getLast_splitOnChar_ne_nil {sep : Char} {s : List Char} (hs : s ≠ [])
    (hlast : s.getLast? ≠ some sep) : ∃ init last, Cutils.splitOnChar sep s = init ++ [last] ∧
      last ≠ [] := by
  obtain ⟨a, c, rfl⟩ : ∃ a c, s = a ++ [c] :=
    ⟨s.dropLast, s.getLast hs, (List.dropLast_append_getLast hs).symm⟩
  have hc : sep ∉ [c] := by simpa [eq_comm] using hlast
  obtain ⟨init, last, -, hst⟩ := Cutils.splitOnChar_append_of_not_mem hc a
  exact ⟨init, last ++ [c], hst, by simp⟩

/-! ### What `ResolvePath` yields -/

attribute [local simp] resolvePath splitFullPreResolvePath in
/-- Every segment of what `ResolvePath` yields is a piece of the merged path or empty, never
`..`: nothing it yields steps up. -/
theorem resolvePath_no_dotdot {base ref r : List Char} (h : resolvePath base ref = some r) :
    ['.', '.'] ∉ Cutils.splitOnChar '/' r := by
  simp only [resolvePath] at h
  split_ifs at h with hfull
  · cases h
    simp [Cutils.splitOnChar]
  · split at h
    · cases h
    · rename_i dst hdst
      -- the segments kept: pieces of the path without `/`, none of them `..`
      have hplain : ∀ f ∈ dst, '/' ∉ f ∧ f ≠ ['.', '.'] := by
        simp only [splitFullPreResolvePath, foldl_splitStep, List.nil_append] at hdst
        split at hdst
        · cases hdst
        · injection hdst with hdst
          subst hdst
          intro f hf
          have hpiece : f ∈ (split (getFullPreResolvePath base ref) '/').filter keepSegment ∨
              f = [] := by
            split_ifs at hf <;> simp_all
          rcases hpiece with hpiece | rfl
          · obtain ⟨hmem, hkeep⟩ := List.mem_filter.mp hpiece
            rw [split_eq] at hmem
            simp only [keepSegment, Bool.and_eq_true, decide_eq_true_eq] at hkeep
            exact ⟨not_mem_of_mem_splitOnChar (mem_of_mem_dropEmptyLast hmem), hkeep.2⟩
          · simp
      split at h
      · cases h
      · rename_i c rest hret
        injection h with h
        subst h
        have hne : dst ≠ [] := by
          rintro rfl
          simp at hret
        have hsplit := splitOnChar_intercalate (fun f hf => (hplain f hf).1) hne
        by_cases hc : c = '/'
        · -- `ret` began with `/`, which was erased: what is left is `ret` itself
          subst hc
          rw [if_pos rfl, ← hret, hsplit]
          exact fun hmem => (hplain _ hmem).2 rfl
        · rw [if_neg hc, Cutils.splitOnChar, if_pos rfl, ← hret, hsplit]
          simp only [List.mem_cons, List.cons_ne_nil, false_or]
          exact fun hmem => (hplain _ hmem).2 rfl

/-- Where the merged path has neither `.` nor `..` segments and does not end with `/`,
`ResolvePath` is Go's `resolvePath`. -/
theorem resolvePath_eq_goResolvePath {base ref : List Char}
    (hne : getFullPreResolvePath base ref ≠ [])
    (hlast : (getFullPreResolvePath base ref).getLast? ≠ some '/')
    (hkeep : ∀ seg ∈ Cutils.splitOnChar '/' (getFullPreResolvePath base ref), keepSegment seg) :
    resolvePath base ref = some (goResolvePath base ref) := by
  obtain ⟨init, last, hpieces, hlastne⟩ := getLast_splitOnChar_ne_nil hne hlast
  have hlastkeep := hkeep last (by rw [hpieces]; simp)
  simp only [keepSegment, Bool.and_eq_true, decide_eq_true_eq] at hlastkeep
  have hgetLast : (Cutils.splitOnChar '/' (getFullPreResolvePath base ref)).getLast? = some last := by
    rw [hpieces, List.getLast?_concat]
  -- `std::getline` reads all the pieces here, the last one being non-empty
  have hsplit : split (getFullPreResolvePath base ref) '/' =
      Cutils.splitOnChar '/' (getFullPreResolvePath base ref) := by
    rw [split_eq, dropEmptyLast, hgetLast]
    simp [hlastne]
  have hdst : splitFullPreResolvePath (getFullPreResolvePath base ref) =
      some (Cutils.splitOnChar '/' (getFullPreResolvePath base ref)) := by
    simp only [splitFullPreResolvePath, hsplit, foldl_splitStep, List.nil_append,
      List.filter_eq_self.mpr hkeep, hgetLast]
    simp [hlastkeep]
  have hjoin := Cutils.intercalate_splitOnChar '/' (getFullPreResolvePath base ref)
  obtain ⟨c, rest, hcr⟩ := List.exists_cons_of_ne_nil hne
  have hgo : goResolvePath base ref = '/' :: if c = '/' then rest else c :: rest := by
    simp only [goResolvePath, if_neg hne, foldl_goStep_of_keep hkeep, List.nil_append, hgetLast,
      Option.some.injEq, hlastkeep.1, hlastkeep.2, or_self, if_false, hjoin]
    rw [hcr]
    by_cases hc : c = '/' <;> simp [hc]
  simp only [resolvePath, if_neg hne, hdst, hjoin]
  rw [hcr, hgo]

/-- `ResolvePath` keeps the segment a `..` should remove, drops a final `/`, and throws on the
root: `/a/b/` with `../c` gives `/a/b/c` where Go gives `/a/c`, `/a/b/` alone gives `/a/b` where
Go keeps `/a/b/`, and `/` alone throws `std::out_of_range` where Go gives `/`. -/
theorem resolvePath_keeps_parent_segment :
    (resolvePath "/a/b/".toList "../c".toList = some "/a/b/c".toList ∧
      goResolvePath "/a/b/".toList "../c".toList = "/a/c".toList) ∧
    (resolvePath "/a/b/".toList [] = some "/a/b".toList ∧
      goResolvePath "/a/b/".toList [] = "/a/b/".toList) ∧
    (resolvePath "/".toList [] = none ∧ goResolvePath "/".toList [] = "/".toList) := by
  decide

/-! ## `ParseQuery`

The loop of `ParseQuery(m, query)` takes the whole of `query` as its key each time, and shortens
`query` only when it holds neither `&` nor `;`, by emptying it. So a query with a separator is
never consumed: the loop runs for ever, appending a value at each pass
(`parseQueryLoop_of_separator`). A query without one is consumed in one pass
(`parseQueryLoop_of_no_separator`), its key unescaped and its value not; without `=` both are
the whole query. -/

section ParseQuery

/-- The `std::map<std::string, std::vector<std::string>>` of `ParseQuery`, as the values of each
key. -/
abbrev QueryMap := List UInt8 → List (List UInt8)

/-- `m[key].push_back(value)`. -/
def queryPush (m : QueryMap) (key value : List UInt8) : QueryMap :=
  fun k => if k = key then m key ++ [value] else m k

/-- The key and the value of `key.find("=")`: before and after the first `=`; with none,
`npos + 1` wraps to `0` and both are the whole text. -/
def querySplitKeyValue (key : List UInt8) : List UInt8 × List UInt8 :=
  match key.idxOf? '='.toUInt8 with
  | none => (key, key)
  | some i => (key.take i, key.drop (i + 1))

/-- One pass of the loop on a non-empty `query`: the map and the query after it. -/
def parseQueryStep (m : QueryMap) (query : List UInt8) : QueryMap × List UInt8 :=
  -- `query` is emptied only when it has no separator
  let query' := if query.contains '&'.toUInt8 || query.contains ';'.toUInt8 then query else []
  let key := unescape (querySplitKeyValue query).1 .encodeQueryComponent
  if key.isEmpty then (m, query') else (queryPush m key (querySplitKeyValue query).2, query')

/-- `ParseQuery(m, query)` on `fuel` passes; `none` when they do not suffice. -/
def parseQueryLoop : Nat → QueryMap → List UInt8 → Option QueryMap
  | _, m, [] => some m
  | 0, _, _ :: _ => none
  | fuel + 1, m, c :: cs =>
    parseQueryLoop fuel (parseQueryStep m (c :: cs)).1 (parseQueryStep m (c :: cs)).2

attribute [local simp] parseQueryStep in
/-- A query with a separator is what it was after a pass. -/
lemma parseQueryStep_of_separator {m : QueryMap} {query : List UInt8}
    (h : '&'.toUInt8 ∈ query ∨ ';'.toUInt8 ∈ query) : (parseQueryStep m query).2 = query := by
  have hsep : (query.contains '&'.toUInt8 || query.contains ';'.toUInt8) = true := by
    simpa [List.contains_iff_mem] using h
  simp only [parseQueryStep, hsep, if_true]
  split <;> rfl

attribute [local simp] parseQueryLoop in
/-- No number of passes consumes a query with a separator: `ParseQuery` does not return. -/
theorem parseQueryLoop_of_separator {query : List UInt8}
    (h : '&'.toUInt8 ∈ query ∨ ';'.toUInt8 ∈ query) :
    ∀ (fuel : Nat) (m : QueryMap), parseQueryLoop fuel m query = none := by
  intro fuel
  induction fuel with
  | zero =>
    intro m
    cases query with
    | nil => simp at h
    | cons c cs => rfl
  | succ fuel ih =>
    intro m
    cases query with
    | nil => simp at h
    | cons c cs =>
      -- the pass leaves the query as it was, whatever it did to the map
      rw [parseQueryLoop, parseQueryStep_of_separator h]
      exact ih _

/-- A query without a separator is consumed in one pass. -/
theorem parseQueryLoop_of_no_separator {query : List UInt8} (hne : query ≠ [])
    (hamp : '&'.toUInt8 ∉ query) (hsemi : ';'.toUInt8 ∉ query) (fuel : Nat) (m : QueryMap) :
    parseQueryLoop (fuel + 1) m query = some (parseQueryStep m query).1 := by
  have hsep : (query.contains '&'.toUInt8 || query.contains ';'.toUInt8) = false := by
    simpa [List.contains_iff_mem] using And.intro hamp hsemi
  have hstep : (parseQueryStep m query).2 = [] := by
    simp only [parseQueryStep, hsep, Bool.false_eq_true, if_false]
    split <;> rfl
  obtain ⟨c, cs, rfl⟩ := List.exists_cons_of_ne_nil hne
  rw [parseQueryLoop, hstep]
  cases fuel <;> rfl

/-- `ParseQuery` returns exactly on the queries without a separator. -/
theorem parseQueryLoop_terminates_iff (query : List UInt8) (m : QueryMap) :
    (∃ fuel r, parseQueryLoop fuel m query = some r) ↔
      '&'.toUInt8 ∉ query ∧ ';'.toUInt8 ∉ query := by
  constructor
  · rintro ⟨fuel, r, hr⟩
    by_contra hsep
    have h : '&'.toUInt8 ∈ query ∨ ';'.toUInt8 ∈ query := by tauto
    rw [parseQueryLoop_of_separator h fuel m] at hr
    cases hr
  · rintro ⟨hamp, hsemi⟩
    cases query with
    | nil => exact ⟨0, m, rfl⟩
    | cons c cs =>
      exact ⟨1, _, parseQueryLoop_of_no_separator (List.cons_ne_nil c cs) hamp hsemi 0 m⟩

end ParseQuery

/-- `a=1&b=2` is never consumed; `a=%41` gives `a` the value `%41`, not unescaped, and `a` gives
`a` the value `a`, not the empty one. -/
theorem parseQuery_loops_and_keeps_escapes :
    (∀ fuel, parseQueryLoop fuel (fun _ => []) (asciiBytes "a=1&b=2") = none) ∧
    (parseQueryLoop 1 (fun _ => []) (asciiBytes "a=%41")).map (· (asciiBytes "a")) =
      some [asciiBytes "%41"] ∧
    (parseQueryLoop 1 (fun _ => []) (asciiBytes "a")).map (· (asciiBytes "a")) =
      some [asciiBytes "a"] := by
  refine ⟨fun fuel => parseQueryLoop_of_separator (Or.inl (by decide)) fuel _, by decide, by decide⟩

end Url

end Isulad
