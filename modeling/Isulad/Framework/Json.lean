import Mathlib

/-!
# JSON text (RFC 8259)

A JSON value, and a parser of JSON text that accepts exactly the grammar of RFC 8259: values
between any amount of whitespace, strings whose characters below `0x20` are escaped, the
escapes `\"`, `\\`, `\/`, `\b`, `\f`, `\n`, `\r`, `\t` and `\uXXXX`, numbers
`-? int frac? exp?`, and the literals `true`, `false` and `null`. A number keeps its text, as a
tree that was read from text does. An escape `\uXXXX` gives the character of that code
(`Char.ofNat`, which reads a lone surrogate as `\0`).

The parser runs on fuel: each value, member and element it reads spends one unit
(`JsonValue.size`). `parseJson` gives it one more than the text is long, which is always
enough, and accepts a text that is one value between whitespace. It is the grammar, what the
JSON library and the program's own printers are measured against, not a model of the library.

The lemmas read the parser one token at a time: whitespace (`skipWs_append`), a string body
character by character (`parseStringBody_plain`, `parseStringBody_escape`), each kind of value
after whitespace, and one member or element of an object or array followed by `,` or by its
closing bracket. A printer's round trip is proved from them.
-/

namespace Json

/-- A JSON value; an object keeps its members in order, a number its text. -/
inductive JsonValue
  | object (members : List (List Char × JsonValue))
  | array (elements : List JsonValue)
  | string (s : List Char)
  | number (text : List Char)
  | bool (b : Bool)
  | null
  deriving Repr

mutual

/-- The number of values and members in a value, itself included: the fuel its parse needs. -/
def JsonValue.size : JsonValue → Nat
  | .object members => sizeMembers members + 1
  | .array elements => sizeElements elements + 1
  | _ => 1

def sizeMembers : List (List Char × JsonValue) → Nat
  | [] => 0
  | (_, v) :: members => v.size + sizeMembers members + 1

def sizeElements : List JsonValue → Nat
  | [] => 0
  | v :: elements => v.size + sizeElements elements + 1

end

/-! ## Whitespace -/

/-- Space, tab, newline and carriage return. -/
def isWs (c : Char) : Bool := c == ' ' || c == '\t' || c == '\n' || c == '\r'

def skipWs (s : List Char) : List Char := s.dropWhile isWs

attribute [local simp] Json.skipWs in
lemma skipWs_append {w : List Char} (hw : ∀ c ∈ w, isWs c = true) (s : List Char) :
    skipWs (w ++ s) = skipWs s := by
  induction w with
  | nil => rfl
  | cons c w ih =>
    rw [List.cons_append, skipWs, List.dropWhile_cons_of_pos (hw c List.mem_cons_self)]
    exact ih fun d hd => hw d (List.mem_cons_of_mem _ hd)

lemma skipWs_cons {c : Char} (hc : isWs c = false) (s : List Char) : skipWs (c :: s) = c :: s := by
  rw [skipWs, List.dropWhile_cons_of_neg (by simp [hc])]

lemma skipWs_ws_cons {w : List Char} (hw : ∀ c ∈ w, isWs c = true) {c : Char} (hc : isWs c = false)
    (s : List Char) : skipWs (w ++ c :: s) = c :: s := by
  rw [skipWs_append hw, skipWs_cons hc]

attribute [local simp] Json.isWs in
lemma isWs_space : ∀ c ∈ [' '], isWs c = true := by
  simp [isWs]

lemma isWs_newline : ∀ c ∈ ['\n'], isWs c = true := by
  simp [isWs]

/-! ## Strings -/

/-- The value of a hexadecimal digit. -/
def hexValue (c : Char) : Option Nat :=
  if c.isDigit then some (c.toNat - '0'.toNat)
  else if 'A' ≤ c ∧ c ≤ 'F' then some (c.toNat - 'A'.toNat + 10)
  else if 'a' ≤ c ∧ c ≤ 'f' then some (c.toNat - 'a'.toNat + 10)
  else none

/-- The code of four hexadecimal digits. -/
def hex4 (a b c d : Char) : Option Nat := do
  let a ← hexValue a
  let b ← hexValue b
  let c ← hexValue c
  let d ← hexValue d
  pure (((a * 16 + b) * 16 + c) * 16 + d)

/-- The character an escape `\e` stands for, for the one-letter escapes. -/
def shortEscape : Char → Option Char
  | '"' => some '"'
  | '\\' => some '\\'
  | '/' => some '/'
  | 'b' => some '\x08'
  | 'f' => some '\x0C'
  | 'n' => some '\n'
  | 'r' => some '\r'
  | 't' => some '\t'
  | _ => none

/-- The body of a string after its opening quote: the characters up to the closing quote, and
what follows it. -/
def parseStringBody : List Char → Option (List Char × List Char)
  | [] => none
  | c :: rest =>
    if c = '"' then some ([], rest)
    else if c = '\\' then
      match rest with
      | e :: rest =>
        if e = 'u' then
          match rest with
          | a :: b :: d :: f :: rest =>
            match hex4 a b d f with
            | some n => (parseStringBody rest).map fun (str, r) => (Char.ofNat n :: str, r)
            | none => none
          | _ => none
        else
          match shortEscape e with
          | some c => (parseStringBody rest).map fun (str, r) => (c :: str, r)
          | none => none
      | [] => none
    else if c.toNat < 0x20 then none
    else (parseStringBody rest).map fun (str, r) => (c :: str, r)

/-- A character that stands for itself in a string. -/
def isPlain (c : Char) : Bool := c != '"' && c != '\\' && 0x20 ≤ c.toNat

section Strings

variable {c : Char} {s : List Char}

attribute [local simp] Json.parseStringBody in
lemma parseStringBody_quote (s : List Char) : parseStringBody ('"' :: s) = some ([], s) := by
  rw [parseStringBody.eq_def]
  simp

lemma parseStringBody_plain (hc : isPlain c = true) :
    parseStringBody (c :: s) = (parseStringBody s).map fun (str, r) => (c :: str, r) := by
  simp only [isPlain, Bool.and_eq_true, bne_iff_ne, ne_eq, decide_eq_true_eq] at hc
  obtain ⟨⟨hq, hb⟩, hctl⟩ := hc
  rw [parseStringBody.eq_def]
  simp [hq, hb, Nat.not_lt.2 hctl]

/-- A one-letter escape stands for its character. -/
lemma parseStringBody_escape {e : Char} (he : shortEscape e = some c) (hu : e ≠ 'u') :
    parseStringBody ('\\' :: e :: s) = (parseStringBody s).map fun (str, r) => (c :: str, r) := by
  rw [parseStringBody.eq_def]
  simp [hu, he]

/-- `\uXXXX` stands for the character of its code. -/
lemma parseStringBody_unicode {a b d e : Char} {n : Nat} (h : hex4 a b d e = some n) :
    parseStringBody ('\\' :: 'u' :: a :: b :: d :: e :: s) =
      (parseStringBody s).map fun (str, r) => (Char.ofNat n :: str, r) := by
  rw [parseStringBody.eq_def]
  simp [h]

/-- A body of plain characters reads as itself up to the closing quote. -/
lemma parseStringBody_plain_append {str : List Char} (hstr : ∀ c ∈ str, isPlain c = true)
    (rest : List Char) : parseStringBody (str ++ '"' :: rest) = some (str, rest) := by
  induction str with
  | nil => exact parseStringBody_quote rest
  | cons c str ih =>
    rw [List.cons_append, parseStringBody_plain (hstr c List.mem_cons_self),
      ih fun d hd => hstr d (List.mem_cons_of_mem _ hd)]
    rfl

end Strings

/-! ## Numbers -/

/-- A character that can stand in a number. -/
def isNumberChar (c : Char) : Bool :=
  c.isDigit || c == '-' || c == '+' || c == '.' || c == 'e' || c == 'E'

/-- One digit or more, and what follows them. -/
def digits1 : List Char → Option (List Char)
  | d :: r => if d.isDigit then some (r.dropWhile Char.isDigit) else none
  | [] => none

/-- `int`: `0`, or a digit and more digits. -/
def intPart (t : List Char) : Option (List Char) :=
  if t.head? = some '0' then some t.tail else digits1 t

/-- `frac`, if any. -/
def fracPart (t : List Char) : Option (List Char) :=
  if t.head? = some '.' then digits1 t.tail else some t

/-- A sign, if any. -/
def dropSign (t : List Char) : List Char :=
  if t.head? = some '+' ∨ t.head? = some '-' then t.tail else t

/-- `exp`, if any. -/
def expPart (t : List Char) : Option (List Char) :=
  if t.head? = some 'e' ∨ t.head? = some 'E' then digits1 (dropSign t.tail) else some t

/-- A number of the grammar: `-? int frac? exp?`. -/
def isJsonNumber (t : List Char) : Bool :=
  let t := if t.head? = some '-' then t.tail else t
  match intPart t >>= fracPart >>= expPart with
  | some [] => true
  | _ => false

attribute [local simp] Json.isJsonNumber Json.digits1 in
/-- A number begins with `-` or a digit. -/
lemma isJsonNumber_head {t : List Char} (h : isJsonNumber t = true) :
    ∃ c r, t = c :: r ∧ (c = '-' ∨ c.isDigit = true) := by
  cases t with
  | nil => simp [isJsonNumber, intPart, digits1] at h
  | cons c r =>
    refine ⟨c, r, rfl, ?_⟩
    by_cases hm : c = '-'
    · exact .inl hm
    · right
      by_contra hd
      have h0 : c ≠ '0' := by
        rintro rfl
        exact hd rfl
      -- no `int` begins with `c`
      simp [isJsonNumber, intPart, digits1, hm, h0, hd] at h

/-- What a stage of the number grammar reads is number characters. -/
def ReadsNumberChars (stage : List Char → Option (List Char)) : Prop :=
  ∀ t r, stage t = some r → ∃ p, t = p ++ r ∧ ∀ c ∈ p, isNumberChar c = true

attribute [local simp] Json.isNumberChar in
lemma isNumberChar_of_isDigit {c : Char} (h : c.isDigit = true) : isNumberChar c = true := by
  simp [isNumberChar, h]

lemma digits1_reads : ReadsNumberChars digits1 := by
  intro t r h
  cases t with
  | nil => cases h
  | cons d t =>
    simp only [digits1] at h
    split at h
    · rename_i hd
      cases h
      refine ⟨d :: t.takeWhile Char.isDigit, by simp, ?_⟩
      intro c hc
      rcases List.mem_cons.1 hc with rfl | hc
      · exact isNumberChar_of_isDigit hd
      · exact isNumberChar_of_isDigit (List.mem_takeWhile_imp hc)
    · cases h

/-- A stage that reads its head character when it is `c`, and then maybe a stage. -/
lemma reads_of_head {c : Char} (hc : isNumberChar c = true) {stage : List Char → Option (List Char)}
    (hstage : ReadsNumberChars stage) :
    ReadsNumberChars fun t => if t.head? = some c then stage t.tail else some t := by
  intro t r h
  dsimp only at h
  split at h
  · rename_i hhead
    obtain ⟨p, hp, hpc⟩ := hstage _ _ h
    cases t with
    | nil => cases hhead
    | cons d t =>
      cases hhead
      simp only [List.tail_cons] at hp
      refine ⟨c :: p, by rw [hp, List.cons_append], ?_⟩
      intro e he
      rcases List.mem_cons.1 he with rfl | he
      · exact hc
      · exact hpc e he
  · cases h
    exact ⟨[], rfl, by simp⟩

lemma intPart_reads : ReadsNumberChars intPart := by
  intro t r h
  unfold intPart at h
  split at h
  · rename_i hhead
    cases h
    cases t with
    | nil => cases hhead
    | cons d t =>
      cases hhead
      exact ⟨['0'], rfl, by simp [isNumberChar]⟩
  · exact digits1_reads t r h

lemma fracPart_reads : ReadsNumberChars fracPart :=
  reads_of_head (by decide) digits1_reads

lemma expPart_reads : ReadsNumberChars expPart := by
  intro t r h
  unfold expPart at h
  split at h
  · rename_i hhead
    -- `e` or `E`, a sign if any, then digits
    obtain ⟨p, hp, hpc⟩ := digits1_reads _ _ h
    have hsign : ∃ q, t.tail = q ++ dropSign t.tail ∧ ∀ c ∈ q, isNumberChar c = true := by
      unfold dropSign
      split
      · rename_i hs
        cases ht : t.tail with
        | nil => simp [ht] at hs
        | cons d u =>
          refine ⟨[d], by simp, ?_⟩
          simp only [ht, List.head?_cons, Option.some.injEq] at hs
          rcases hs with rfl | rfl <;> simp [isNumberChar]
      · exact ⟨[], rfl, by simp⟩
    obtain ⟨q, hq, hqc⟩ := hsign
    cases t with
    | nil => simp at hhead
    | cons e u =>
      refine ⟨e :: (q ++ p), ?_, ?_⟩
      · simp only [List.tail_cons] at hq hp
        rw [hq, hp]
        simp
      · intro c hc
        rcases List.mem_cons.1 hc with rfl | hc
        · simp only [List.head?_cons, Option.some.injEq] at hhead
          rcases hhead with rfl | rfl <;> decide
        · rcases List.mem_append.1 hc with hc | hc
          · exact hqc c hc
          · exact hpc c hc
  · cases h
    exact ⟨[], rfl, by simp⟩

lemma minus_prefix (t : List Char) :
    ∃ p, t = p ++ (if t.head? = some '-' then t.tail else t) ∧ ∀ c ∈ p, isNumberChar c = true := by
  split
  · rename_i h
    cases t with
    | nil => cases h
    | cons d u =>
      obtain rfl : d = '-' := by simpa using h
      exact ⟨['-'], rfl, by simp [isNumberChar]⟩
  · exact ⟨[], rfl, by simp⟩

/-- A number of the grammar is made of number characters. -/
lemma isNumberChar_of_isJsonNumber {t : List Char} (h : isJsonNumber t = true) :
    ∀ c ∈ t, isNumberChar c = true := by
  unfold isJsonNumber at h
  dsimp only at h
  split at h
  · rename_i hchain
    simp only [Option.bind_eq_bind, Option.bind_eq_some_iff] at hchain
    obtain ⟨b, ⟨a, ha, hb⟩, hc⟩ := hchain
    obtain ⟨p₀, h₀, hc₀⟩ := minus_prefix t
    obtain ⟨p₁, h₁, hc₁⟩ := intPart_reads _ _ ha
    obtain ⟨p₂, h₂, hc₂⟩ := fracPart_reads _ _ hb
    obtain ⟨p₃, h₃, hc₃⟩ := expPart_reads _ _ hc
    intro c hcmem
    rw [h₀, h₁, h₂, h₃] at hcmem
    simp only [List.append_nil, List.mem_append] at hcmem
    rcases hcmem with h | h | h | h
    · exact hc₀ c h
    · exact hc₁ c h
    · exact hc₂ c h
    · exact hc₃ c h
  · cases h

/-! ## Values -/

mutual

/-- A value after whitespace, and what follows it, for at most `fuel` values and members. -/
def parseValue : Nat → List Char → Option (JsonValue × List Char)
  | 0, _ => none
  | fuel + 1, s =>
    match skipWs s with
    | [] => none
    | c :: r =>
      if c = '{' then
        if (skipWs r).head? = some '}' then some (.object [], (skipWs r).tail)
        else (parseMembers fuel r).map fun (members, r) => (.object members, r)
      else if c = '[' then
        if (skipWs r).head? = some ']' then some (.array [], (skipWs r).tail)
        else (parseElements fuel r).map fun (vs, r) => (.array vs, r)
      else if c = '"' then (parseStringBody r).map fun (str, r) => (.string str, r)
      else if c = 't' then
        if r.take 3 = ['r', 'u', 'e'] then some (.bool true, r.drop 3) else none
      else if c = 'f' then
        if r.take 4 = ['a', 'l', 's', 'e'] then some (.bool false, r.drop 4) else none
      else if c = 'n' then
        if r.take 3 = ['u', 'l', 'l'] then some (.null, r.drop 3) else none
      else if isJsonNumber ((c :: r).takeWhile isNumberChar) then
        some (.number ((c :: r).takeWhile isNumberChar), (c :: r).dropWhile isNumberChar)
      else none

/-- Elements after `[`: values separated by `,`, up to `]`. -/
def parseElements : Nat → List Char → Option (List JsonValue × List Char)
  | 0, _ => none
  | fuel + 1, s => do
    let (v, r) ← parseValue fuel s
    match skipWs r with
    | [] => none
    | c :: r =>
      if c = ',' then do
        let (vs, r) ← parseElements fuel r
        pure (v :: vs, r)
      else if c = ']' then pure ([v], r)
      else none

/-- Members after `{`: a string, `:` and a value, separated by `,`, up to `}`. -/
def parseMembers : Nat → List Char → Option (List (List Char × JsonValue) × List Char)
  | 0, _ => none
  | fuel + 1, s =>
    if (skipWs s).head? = some '"' then do
      let (key, r) ← parseStringBody (skipWs s).tail
      if (skipWs r).head? = some ':' then do
        let (v, r) ← parseValue fuel (skipWs r).tail
        match skipWs r with
        | [] => none
        | c :: r =>
          if c = ',' then do
            let (members, r) ← parseMembers fuel r
            pure ((key, v) :: members, r)
          else if c = '}' then pure ([(key, v)], r)
          else none
      else none
    else none

end

/-! ## Reading values token by token -/

section Tokens

variable {fuel : Nat} {w : List Char}

attribute [local simp] Json.parseValue in
/-- Whitespace before a value is skipped. -/
lemma parseValue_ws_cons (hw : ∀ c ∈ w, isWs c = true) (c : Char) (r : List Char) :
    parseValue (fuel + 1) (w ++ c :: r) = parseValue (fuel + 1) (c :: r) := by
  rw [parseValue, parseValue, skipWs_append hw]

lemma parseValue_string (hw : ∀ c ∈ w, isWs c = true) (s : List Char) :
    parseValue (fuel + 1) (w ++ '"' :: s) = (parseStringBody s).map fun (str, r) => (.string str, r) := by
  rw [parseValue_ws_cons hw, parseValue, skipWs_cons (by decide)]
  simp

lemma parseValue_true (hw : ∀ c ∈ w, isWs c = true) (r : List Char) :
    parseValue (fuel + 1) (w ++ 't' :: 'r' :: 'u' :: 'e' :: r) = some (.bool true, r) := by
  rw [parseValue_ws_cons hw, parseValue, skipWs_cons (by decide)]
  simp

lemma parseValue_false (hw : ∀ c ∈ w, isWs c = true) (r : List Char) :
    parseValue (fuel + 1) (w ++ 'f' :: 'a' :: 'l' :: 's' :: 'e' :: r) = some (.bool false, r) := by
  rw [parseValue_ws_cons hw, parseValue, skipWs_cons (by decide)]
  simp

lemma parseValue_null (hw : ∀ c ∈ w, isWs c = true) (r : List Char) :
    parseValue (fuel + 1) (w ++ 'n' :: 'u' :: 'l' :: 'l' :: r) = some (.null, r) := by
  rw [parseValue_ws_cons hw, parseValue, skipWs_cons (by decide)]
  simp

/-- A digit opens no value but a number, and is not whitespace. -/
lemma isDigit_ne {d : Char} (hd : d.isDigit = true) :
    d ≠ '{' ∧ d ≠ '[' ∧ d ≠ '"' ∧ d ≠ 't' ∧ d ≠ 'f' ∧ d ≠ 'n' ∧ isWs d = false := by
  have hws : isWs d = false := by
    cases h : isWs d
    · rfl
    · simp only [isWs, Bool.or_eq_true, beq_iff_eq] at h
      rcases h with ((rfl | rfl) | rfl) | rfl <;> revert hd <;> decide
  refine ⟨?_, ?_, ?_, ?_, ?_, ?_, hws⟩ <;> (rintro rfl; revert hd; decide)

/-- A number is read to the first character that cannot stand in one. -/
lemma parseValue_number (hw : ∀ c ∈ w, isWs c = true) {t : List Char} (ht : isJsonNumber t = true)
    {r : List Char} (hr : ∀ c ∈ r.head?, isNumberChar c = false) :
    parseValue (fuel + 1) (w ++ (t ++ r)) = some (.number t, r) := by
  obtain ⟨c, u, rfl, hc⟩ := isJsonNumber_head ht
  have hnum := isNumberChar_of_isJsonNumber ht
  -- `c` opens no other kind of value
  have hne : c ≠ '{' ∧ c ≠ '[' ∧ c ≠ '"' ∧ c ≠ 't' ∧ c ≠ 'f' ∧ c ≠ 'n' ∧ isWs c = false := by
    rcases hc with rfl | hd
    · decide
    · exact isDigit_ne hd
  obtain ⟨h1, h2, h3, h4, h5, h6, hws⟩ := hne
  have htake : (c :: (u ++ r)).takeWhile isNumberChar = c :: u := by
    rw [← List.cons_append, List.takeWhile_append_of_pos hnum]
    cases r with
    | nil => simp
    | cons d r =>
      rw [List.takeWhile_cons_of_neg (by simpa using hr d rfl), List.append_nil]
  have hdrop : (c :: (u ++ r)).dropWhile isNumberChar = r := by
    rw [← List.cons_append, List.dropWhile_append_of_pos hnum]
    cases r with
    | nil => rfl
    | cons d r => exact List.dropWhile_cons_of_neg (by simpa using hr d rfl)
  rw [List.cons_append, parseValue_ws_cons hw, parseValue, skipWs_cons hws]
  simp [h1, h2, h3, h4, h5, h6, htake, hdrop, ht]

lemma parseValue_empty_object (hw : ∀ c ∈ w, isWs c = true) {w' : List Char}
    (hw' : ∀ c ∈ w', isWs c = true) (r : List Char) :
    parseValue (fuel + 1) (w ++ '{' :: (w' ++ '}' :: r)) = some (.object [], r) := by
  rw [parseValue_ws_cons hw, parseValue, skipWs_cons (by decide)]
  simp [skipWs_append hw', skipWs_cons (show isWs '}' = false by decide)]

/-- An object with members: what follows `{` is read as its members. -/
lemma parseValue_object (hw : ∀ c ∈ w, isWs c = true) {s : List Char}
    (hs : (skipWs s).head? ≠ some '}') :
    parseValue (fuel + 1) (w ++ '{' :: s) =
      (parseMembers fuel s).map fun (members, r) => (.object members, r) := by
  rw [parseValue_ws_cons hw, parseValue, skipWs_cons (by decide)]
  simp [hs]

lemma parseValue_empty_array (hw : ∀ c ∈ w, isWs c = true) {w' : List Char}
    (hw' : ∀ c ∈ w', isWs c = true) (r : List Char) :
    parseValue (fuel + 1) (w ++ '[' :: (w' ++ ']' :: r)) = some (.array [], r) := by
  rw [parseValue_ws_cons hw, parseValue, skipWs_cons (by decide)]
  simp [skipWs_append hw', skipWs_cons (show isWs ']' = false by decide)]

lemma parseValue_array (hw : ∀ c ∈ w, isWs c = true) {s : List Char}
    (hs : (skipWs s).head? ≠ some ']') :
    parseValue (fuel + 1) (w ++ '[' :: s) =
      (parseElements fuel s).map fun (vs, r) => (.array vs, r) := by
  rw [parseValue_ws_cons hw, parseValue, skipWs_cons (by decide)]
  simp [hs]

variable {s r r' : List Char} {v : JsonValue}

attribute [local simp] Json.parseElements in
/-- An element followed by `,`: the elements go on. -/
lemma parseElements_cons (hv : parseValue fuel s = some (v, r)) (hsep : skipWs r = ',' :: r') :
    parseElements (fuel + 1) s = (parseElements fuel r').map fun (vs, r) => (v :: vs, r) := by
  rw [parseElements, hv]
  simp only [Option.bind_eq_bind, Option.bind_some, hsep, if_true]
  cases parseElements fuel r' <;> rfl

/-- The last element, followed by `]`. -/
lemma parseElements_last (hv : parseValue fuel s = some (v, r)) (hend : skipWs r = ']' :: r') :
    parseElements (fuel + 1) s = some ([v], r') := by
  rw [parseElements, hv]
  simp [hend]

variable {key r₁ r₂ : List Char}

attribute [local simp] Json.parseMembers in
/-- A member followed by `,`: the members go on. -/
lemma parseMembers_cons (hw : ∀ c ∈ w, isWs c = true) (hkey : parseStringBody s = some (key, r₁))
    (hcolon : skipWs r₁ = ':' :: r₂) (hv : parseValue fuel r₂ = some (v, r))
    (hsep : skipWs r = ',' :: r') :
    parseMembers (fuel + 1) (w ++ '"' :: s) =
      (parseMembers fuel r').map fun (members, r) => ((key, v) :: members, r) := by
  rw [parseMembers, skipWs_append hw, skipWs_cons (by decide)]
  simp only [List.head?_cons, if_true, List.tail_cons, hkey, hcolon, hv, hsep, Option.bind_eq_bind,
    Option.bind_some]
  cases parseMembers fuel r' <;> rfl

/-- The last member, followed by `}`. -/
lemma parseMembers_last (hw : ∀ c ∈ w, isWs c = true) (hkey : parseStringBody s = some (key, r₁))
    (hcolon : skipWs r₁ = ':' :: r₂) (hv : parseValue fuel r₂ = some (v, r))
    (hend : skipWs r = '}' :: r') :
    parseMembers (fuel + 1) (w ++ '"' :: s) = some ([(key, v)], r') := by
  rw [parseMembers, skipWs_append hw, skipWs_cons (by decide)]
  simp [hkey, hcolon, hv, hend]

end Tokens

/-- A JSON text: one value between whitespace. -/
def parseJson (s : List Char) : Option JsonValue :=
  match parseValue (s.length + 1) s with
  | some (v, r) => if skipWs r = [] then some v else none
  | none => none

end Json
