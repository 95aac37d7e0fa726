import Mathlib

/-!
# What a `printf` format asks of its arguments

`vsnprintf(buf, size, format, ap)` copies the characters of `format` and replaces each
conversion (`%`, flags, width, precision and length, then a conversion letter) by the text of
the next variadic argument; `*` as a width or precision takes an argument too, `%%` prints a
`%`, and `%n` stores the count written so far through the pointer it takes. The pieces of a
format (`pieces`) say how many arguments a call reads (`argsRead`) and how many stores it
makes (`nWrites`); a format with no conversion prints exactly its text (`render`).

A text with no `%` is its own rendering, reads nothing and writes nothing
(`render_of_no_percent`): only such a text may be passed as a format with no arguments.

The conversion `%0wd` prints a number's decimal digits with zeros in front up to width `w`
(`zeroPad`).  Below `10 ^ w` these are exactly `w` digits (`zeroPad_eq_fixedDigits`), and reading
them back with the C idiom `sum = sum * 10 + c - '0'` gives the number again
(`foldl_shift_fixedDigits`).
-/

namespace Printf

/-- A piece of a format: a character copied, or a conversion with its flags, width,
precision and length characters and its letter. -/
inductive Piece
  | lit (c : Char)
  | conv (spec : List Char) (letter : Char)
  deriving DecidableEq, Repr

/-- The characters that may stand between `%` and the conversion letter. -/
def isSpecChar (c : Char) : Bool := c ∈ "-+ #0123456789.*hlLqjzt".toList

/-- The conversion letters. -/
def isConversionLetter (c : Char) : Bool := c ∈ "diouxXeEfFgGaAcspnm%".toList

/-- The scan of a format; `spec` holds what follows a `%` still open. A `%` whose conversion
never ends prints as it stands. -/
def piecesAux : Option (List Char) → List Char → List Piece
  | none, [] => []
  | none, c :: rest => if c = '%' then piecesAux (some []) rest else .lit c :: piecesAux none rest
  | some spec, [] => ('%' :: spec).map .lit
  | some spec, c :: rest =>
    if isConversionLetter c then .conv spec c :: piecesAux none rest
    else if isSpecChar c then piecesAux (some (spec ++ [c])) rest
    else ('%' :: spec ++ [c]).map .lit ++ piecesAux none rest

/-- The pieces of a format. -/
def pieces (format : List Char) : List Piece := piecesAux none format

/-- The variadic arguments a piece takes. -/
def Piece.argsRead : Piece → Nat
  | .lit _ => 0
  | .conv spec letter => spec.count '*' + (if letter = '%' ∨ letter = 'm' then 0 else 1)

/-- The variadic arguments a call with this format reads. -/
def argsRead (format : List Char) : Nat := ((pieces format).map Piece.argsRead).sum

/-- The stores `%n` makes through its arguments. -/
def nWrites (format : List Char) : Nat := (pieces format).countP fun p => p matches .conv _ 'n'

/-- The text of a piece that needs no argument. -/
def Piece.text : Piece → Option (List Char)
  | .lit c => some [c]
  | .conv [] '%' => some ['%']
  | .conv _ _ => none

/-- What the format prints when that depends on no argument and on no `errno`. -/
def render (format : List Char) : Option (List Char) :=
  ((pieces format).mapM Piece.text).map List.flatten

lemma piecesAux_of_no_percent {s : List Char} (h : '%' ∉ s) :
    piecesAux none s = s.map .lit := by
  induction s with
  | nil => rfl
  | cons c cs ih =>
    have hc : c ≠ '%' := fun hc => h (hc ▸ List.mem_cons_self)
    have hcs : '%' ∉ cs := fun hm => h (List.mem_cons_of_mem _ hm)
    simp [piecesAux, hc, ih hcs]

lemma flatten_map_singleton (s : List Char) : (s.map fun c => [c]).flatten = s := by
  induction s with
  | nil => rfl
  | cons c cs ih => simp [ih]

/-- A text with no `%` prints as itself and takes no argument. -/
theorem render_of_no_percent {s : List Char} (h : '%' ∉ s) :
    render s = some s ∧ argsRead s = 0 ∧ nWrites s = 0 := by
  have hp : pieces s = s.map .lit := piecesAux_of_no_percent h
  have hmap : (s.map Piece.lit).mapM Piece.text = some (s.map fun c => [c]) := by
    induction s with
    | nil => rfl
    | cons c cs ih =>
      simp only [List.map_cons, List.mapM_cons, Piece.text]
      rw [ih (fun hm => h (List.mem_cons_of_mem _ hm))
        (piecesAux_of_no_percent fun hm => h (List.mem_cons_of_mem _ hm))]
      rfl
  refine ⟨?_, ?_, ?_⟩
  · simp [render, hp, hmap, flatten_map_singleton]
  · simp [argsRead, hp, Function.comp_def, Piece.argsRead]
  · simp [nWrites, hp]

/-! ## Zero-padded decimals -/

/-- The decimal digits of `n` with zeros in front up to width `w`. -/
def padDigits (w n : Nat) : List Char :=
  List.replicate (w - (Nat.toDigits 10 n).length) '0' ++ Nat.toDigits 10 n

/-- `%0wd`: a negative number prints its sign first, inside the width. -/
def zeroPad (w : Nat) (n : Int) : List Char :=
  if n < 0 then '-' :: padDigits (w - 1) n.natAbs else padDigits w n.toNat

/-- Exactly the last `w` decimal digits of `n`, the most significant first. -/
def fixedDigits : Nat → Nat → List Char
  | 0, _ => []
  | w + 1, n => fixedDigits w (n / 10) ++ [Nat.digitChar (n % 10)]

/-- One step of reading decimal digits: `sum * 10 + c - '0'`. -/
def shift (sum : Int) (c : Char) : Int := sum * 10 + ((c.toNat : Int) - ('0'.toNat : Int))

attribute [local simp] fixedDigits in
@[simp] lemma length_fixedDigits (w n : Nat) : (fixedDigits w n).length = w := by
  induction w generalizing n with
  | zero => rfl
  | succ w ih => simp [fixedDigits, ih]

lemma digitChar_toNat {d : Nat} (hd : d < 10) : (Nat.digitChar d).toNat = d + '0'.toNat := by
  interval_cases d <;> rfl

lemma isDigit_digitChar {d : Nat} (hd : d < 10) : (Nat.digitChar d).isDigit = true := by
  interval_cases d <;> rfl

lemma mem_fixedDigits {w n : Nat} {c : Char} (hc : c ∈ fixedDigits w n) :
    ∃ d < 10, c = Nat.digitChar d := by
  induction w generalizing n with
  | zero => simp [fixedDigits] at hc
  | succ w ih =>
    simp only [fixedDigits, List.mem_append, List.mem_singleton] at hc
    rcases hc with hc | rfl
    · exact ih hc
    · exact ⟨n % 10, Nat.mod_lt n (by decide), rfl⟩

lemma isDigit_of_mem_fixedDigits {w n : Nat} {c : Char} (hc : c ∈ fixedDigits w n) :
    c.isDigit = true := by
  obtain ⟨d, hd, rfl⟩ := mem_fixedDigits hc
  exact isDigit_digitChar hd

/-- The first `a` of `a + b` digits are those of the number without its last `b` digits. -/
lemma fixedDigits_add (a b n : Nat) :
    fixedDigits (a + b) n = fixedDigits a (n / 10 ^ b) ++ fixedDigits b n := by
  induction b generalizing n with
  | zero => simp [fixedDigits]
  | succ b ih =>
    rw [← Nat.add_assoc, fixedDigits, ih, fixedDigits, List.append_assoc, Nat.div_div_eq_div_mul,
      ← Nat.pow_succ']

/-- Reading back `w` digits of a number below `10 ^ w` shifts it in whole. -/
lemma foldl_shift_fixedDigits {w n : Nat} (h : n < 10 ^ w) (sum : Int) :
    (fixedDigits w n).foldl shift sum = sum * 10 ^ w + n := by
  induction w generalizing n with
  | zero =>
    have hn : n = 0 := by simpa using h
    simp [fixedDigits, hn]
  | succ w ih =>
    have hq : n / 10 < 10 ^ w := by
      rw [Nat.div_lt_iff_lt_mul (by decide)]
      rwa [Nat.pow_succ] at h
    rw [fixedDigits, List.foldl_append, ih hq]
    simp only [List.foldl_cons, List.foldl_nil, shift, digitChar_toNat (Nat.mod_lt n (by decide))]
    push_cast
    have hdm : (n : Int) / 10 * 10 + (n : Int) % 10 = n := by omega
    rw [pow_succ]
    linear_combination hdm

attribute [local simp] padDigits in
/-- Below `10 ^ w`, one more digit in front is a zero. -/
lemma padDigits_succ {w : Nat} (hw : 0 < w) (n : Nat) :
    padDigits (w + 1) n = padDigits w (n / 10) ++ [Nat.digitChar (n % 10)] := by
  by_cases hn : n < 10
  · have hq : n / 10 = 0 := Nat.div_eq_of_lt hn
    have hz : Nat.digitChar 0 = '0' := rfl
    rw [hq, Nat.mod_eq_of_lt hn]
    simp only [padDigits, Nat.toDigits_of_lt_base hn, Nat.toDigits_of_lt_base (by decide : 0 < 10),
      List.length_singleton, hz]
    rw [← List.replicate_succ', show w + 1 - 1 = w by omega, show w - 1 + 1 = w by omega]
  · have hsplit : Nat.toDigits 10 n = Nat.toDigits 10 (n / 10) ++ [Nat.digitChar (n % 10)] := by
      rw [← Nat.toDigits_of_lt_base (Nat.mod_lt n (by decide)),
        Nat.toDigits_append_toDigits (by decide) (by omega) (Nat.mod_lt n (by decide)),
        Nat.div_add_mod]
    simp only [padDigits, hsplit, List.length_append, List.length_singleton, List.append_assoc]
    rw [show w + 1 - ((Nat.toDigits 10 (n / 10)).length + 1) =
      w - (Nat.toDigits 10 (n / 10)).length by omega]

/-- Below `10 ^ w`, `%0wd` prints exactly `w` digits. -/
lemma padDigits_eq_fixedDigits {w n : Nat} (hw : 0 < w) (h : n < 10 ^ w) :
    padDigits w n = fixedDigits w n := by
  induction w generalizing n with
  | zero => omega
  | succ w ih =>
    rcases Nat.eq_zero_or_pos w with rfl | hw'
    · simp only [zero_add, pow_one] at h
      simp [padDigits, fixedDigits, Nat.toDigits_of_lt_base h, Nat.mod_eq_of_lt h]
    · have hq : n / 10 < 10 ^ w := by
        rw [Nat.div_lt_iff_lt_mul (by decide)]
        rwa [Nat.pow_succ] at h
      rw [padDigits_succ hw', ih hw' hq, fixedDigits]

lemma zeroPad_eq_fixedDigits {w : Nat} {n : Int} (hw : 0 < w) (h0 : 0 ≤ n) (h : n < 10 ^ w) :
    zeroPad w n = fixedDigits w n.toNat := by
  rw [zeroPad, if_neg (by omega)]
  apply padDigits_eq_fixedDigits hw
  zify [h0]
  rwa [Int.toNat_of_nonneg h0]

end Printf
