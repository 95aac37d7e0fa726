import Isulad.Framework.Json
import Mathlib

/-!
# Printing JSON, looking values up in a tree, and the JSON library

`genValue` prints a value with nothing between its tokens: an object as `{"key":value,...}`, an
array as `[value,...]`, a string between quotes with a quote, a backslash and the control
characters escaped, and a number as its text; an integer is printed in decimal (`intText`, the
`%lld` of `map_int`). Every value whose numbers are of the grammar reads back as itself
(`parseJson_genValue`), whatever the characters of its keys and strings, and the text has no
control character (`genValue_printable`).

`yajl_tree_get(tree, {name, NULL}, type)` looks a key up in an object: the value of the first
member of that name, when it has the type asked for (`treeGet`).

The reader `yajl_tree_parse` and the printer `yajl_gen` belong to the library, not to the
program, and the models that call them take them as a parameter `Yajl`, with what the library
documents of them as its fields: a text without escapes is read as the grammar reads it (yajl
reads more, comments for one, and a `\u` escape of a surrogate pair as one character), what
the printer writes is read back as the value printed, and the printer escapes every control
character. `genValue` with the grammar's reader meets them (`Yajl.ofGrammar`).
-/

namespace Json

/-! ## Strings -/

/-- `hexchar` of `CharToHex`: the digits it writes, upper case. -/
def hexChars : List Char :=
  ['0', '1', '2', '3', '4', '5', '6', '7', '8', '9', 'A', 'B', 'C', 'D', 'E', 'F']

/-- `yajl_string_encode` with `escape_solidus` off, for one character. -/
def encodeChar (c : Char) : List Char :=
  if c = '\r' then ['\\', 'r']
  else if c = '\n' then ['\\', 'n']
  else if c = '\\' then ['\\', '\\']
  else if c = '"' then ['\\', '"']
  else if c = '\x0C' then ['\\', 'f']
  else if c = '\x08' then ['\\', 'b']
  else if c = '\t' then ['\\', 't']
  else if c.toNat < 0x20 then
    ['\\', 'u', '0', '0', hexChars.getD (c.toNat / 16) '0', hexChars.getD (c.toNat % 16) '0']
  else [c]

/-- `yajl_gen_string`: the string between quotes, encoded. -/
def genString (s : List Char) : List Char := '"' :: (s.flatMap encodeChar ++ ['"'])

/-! ## Values -/

/-- What follows an element or a member: a comma unless it is the last. -/
def separator (last : Bool) (rest : List Char) : List Char := if last then [] else ',' :: rest

mutual

/-- `yajl_gen` without beautifying, over a whole value. -/
def genValue : JsonValue → List Char
  | .object members => '{' :: (genMembers members ++ ['}'])
  | .array elements => '[' :: (genElements elements ++ [']'])
  | .string s => genString s
  | .number text => text
  | .bool true => ['t', 'r', 'u', 'e']
  | .bool false => ['f', 'a', 'l', 's', 'e']
  | .null => ['n', 'u', 'l', 'l']

/-- The members of an object: each key, a colon and the value, separated by commas. -/
def genMembers : List (List Char × JsonValue) → List Char
  | [] => []
  | (key, v) :: members =>
    genString key ++ ':' :: (genValue v ++ separator members.isEmpty (genMembers members))

/-- The elements of an array, separated by commas. -/
def genElements : List JsonValue → List Char
  | [] => []
  | v :: elements => genValue v ++ separator elements.isEmpty (genElements elements)

end

mutual

/-- A value whose numbers are all of the grammar. -/
def numbersValid : JsonValue → Bool
  | .object members => numbersValidMembers members
  | .array elements => numbersValidElements elements
  | .number text => isJsonNumber text
  | _ => true

def numbersValidMembers : List (List Char × JsonValue) → Bool
  | [] => true
  | (_, v) :: members => numbersValid v && numbersValidMembers members

def numbersValidElements : List JsonValue → Bool
  | [] => true
  | v :: elements => numbersValid v && numbersValidElements elements

end

attribute [local simp] Json.numbersValidMembers Json.genMembers in
@[simp] lemma numbersValidMembers_eq_all (members : List (List Char × JsonValue)) :
    numbersValidMembers members = members.all (numbersValid ·.2) := by
  induction members with
  | nil => rfl
  | cons m members ih => simp [numbersValidMembers, ih]

attribute [local simp] Json.numbersValidElements Json.genElements in
@[simp] lemma numbersValidElements_eq_all (elements : List JsonValue) :
    numbersValidElements elements = elements.all numbersValid := by
  induction elements with
  | nil => rfl
  | cons v elements ih => simp [numbersValidElements, ih]

/-! ## Integers -/

/-- `map_int`: the decimal text `%lld` prints, a sign for a negative number. -/
def intText (n : Int) : List Char := (if n < 0 then ['-'] else []) ++ Nat.toDigits 10 n.natAbs

/-- From ten on, the decimal digits are those of the number without its last digit, and that
digit. -/
lemma toDigits_split {n : Nat} (hn : 10 ≤ n) :
    Nat.toDigits 10 n = Nat.toDigits 10 (n / 10) ++ [Nat.digitChar (n % 10)] := by
  rw [← Nat.toDigits_of_lt_base (Nat.mod_lt n (by decide)),
    Nat.toDigits_append_toDigits (by decide) (by omega) (Nat.mod_lt n (by decide)), Nat.div_add_mod]

/-- Every character of a decimal text is the digit of a number below ten. -/
lemma mem_toDigits {n : Nat} {c : Char} (hc : c ∈ Nat.toDigits 10 n) :
    ∃ d < 10, c = Nat.digitChar d := by
  induction n using Nat.strong_induction_on with
  | _ n ih =>
    by_cases hn : n < 10
    · rw [Nat.toDigits_of_lt_base hn, List.mem_singleton] at hc
      exact ⟨n, hn, hc⟩
    · rw [toDigits_split (by omega), List.mem_append, List.mem_singleton] at hc
      rcases hc with hc | rfl
      · exact ih (n / 10) (by omega) hc
      · exact ⟨n % 10, Nat.mod_lt n (by decide), rfl⟩

/-- A positive number's decimal text does not begin with `0`. -/
lemma toDigits_head {n : Nat} (hn : 0 < n) :
    ∃ c t, Nat.toDigits 10 n = c :: t ∧ c.isDigit = true ∧ c ≠ '0' := by
  induction n using Nat.strong_induction_on with
  | _ n ih =>
    by_cases hlt : n < 10
    · refine ⟨Nat.digitChar n, [], Nat.toDigits_of_lt_base hlt, by simp [hlt], ?_⟩
      interval_cases n <;> decide
    · obtain ⟨c, t, hct, hc, hc0⟩ := ih (n / 10) (by omega) (by omega)
      exact ⟨c, t ++ [Nat.digitChar (n % 10)], by rw [toDigits_split (by omega), hct]; rfl, hc, hc0⟩

lemma isDigit_of_mem_toDigits {n : Nat} {c : Char} (hc : c ∈ Nat.toDigits 10 n) :
    c.isDigit = true := by
  obtain ⟨d, hd, rfl⟩ := mem_toDigits hc
  simp [hd]

/-- The digits after the first are read by `digits1` to the end. -/
lemma dropWhile_isDigit_toDigits (n : Nat) : (Nat.toDigits 10 n).dropWhile Char.isDigit = [] :=
  List.dropWhile_eq_nil_iff.2 fun _ hc => isDigit_of_mem_toDigits hc

/-- The decimal text of an integer is a number of the grammar. -/
lemma isJsonNumber_intText (n : Int) : isJsonNumber (intText n) = true := by
  -- after the sign, `0` alone or a digit that is not `0` and more digits
  have hint : (intPart (Nat.toDigits 10 n.natAbs)) = some [] := by
    rcases Nat.eq_zero_or_pos n.natAbs with h0 | hpos
    · rw [h0]
      rfl
    · obtain ⟨c, t, hct, hc, hc0⟩ := toDigits_head hpos
      have htail : t.dropWhile Char.isDigit = [] := by
        have := dropWhile_isDigit_toDigits n.natAbs
        rwa [hct, List.dropWhile_cons_of_pos hc] at this
      simp [intPart, hct, hc0, digits1, hc, htail]
  have hsign : (if (intText n).head? = some '-' then (intText n).tail else intText n) =
      Nat.toDigits 10 n.natAbs := by
    unfold intText
    by_cases hneg : n < 0
    · simp [hneg]
    · -- without a sign the text begins with a digit
      have hnot : (Nat.toDigits 10 n.natAbs).head? ≠ some '-' := fun h =>
        absurd (isDigit_of_mem_toDigits (List.mem_of_mem_head? h)) (by decide)
      simp [hneg, hnot]
  simp only [isJsonNumber, hsign, hint]
  rfl

/-! ## Strings read back -/

/-- The `\u00XX` of a control character names its code. -/
lemma hex4_hexChars : ∀ n < 0x20,
    hex4 '0' '0' (hexChars.getD (n / 16) '0') (hexChars.getD (n % 16) '0') = some n := by
  decide

/-- Each character that `yajl_string_encode` escapes reads back as itself. -/
lemma parseStringBody_encodeChar (c : Char) (s : List Char) :
    parseStringBody (encodeChar c ++ s) = (parseStringBody s).map fun (str, r) => (c :: str, r) := by
  unfold encodeChar
  split_ifs with h1 h2 h3 h4 h5 h6 h7 h8
  -- the seven short escapes
  all_goals first
    | (subst c; exact parseStringBody_escape (by decide) (by decide))
    | skip
  · -- a control character without a short escape
    rw [List.cons_append, List.cons_append, List.cons_append, List.cons_append, List.cons_append,
      List.cons_append, List.nil_append, parseStringBody_unicode (hex4_hexChars c.toNat h8),
      Char.ofNat_toNat]
  · -- any other character stands for itself
    have hplain : isPlain c = true := by
      simp [isPlain, h3, h4, Nat.not_lt.1 h8]
    rw [List.singleton_append, parseStringBody_plain hplain]

/-- An encoded string reads back whole, up to its closing quote. -/
lemma parseStringBody_encode_append (str rest : List Char) :
    parseStringBody (str.flatMap encodeChar ++ '"' :: rest) = some (str, rest) := by
  induction str with
  | nil => exact parseStringBody_quote rest
  | cons c str ih =>
    rw [List.flatMap_cons, List.append_assoc, parseStringBody_encodeChar, ih]
    rfl

/-! ## Values read back -/

attribute [local simp] Json.JsonValue.size in
lemma one_le_size (v : JsonValue) : 1 ≤ v.size := by
  cases v <;> simp [JsonValue.size]

attribute [local simp] Json.sizeMembers in
lemma one_le_sizeMembers (m : List Char × JsonValue) (members : List (List Char × JsonValue)) :
    1 ≤ sizeMembers (m :: members) := by
  simp [sizeMembers]

attribute [local simp] Json.sizeElements in
lemma one_le_sizeElements (v : JsonValue) (elements : List JsonValue) :
    1 ≤ sizeElements (v :: elements) := by
  simp [sizeElements]

attribute [local simp] Json.numbersValid in
/-- A generated value begins with a character that is neither whitespace nor `]`. -/
lemma genValue_cons {v : JsonValue} (hv : numbersValid v = true) :
    ∃ c t, genValue v = c :: t ∧ isWs c = false ∧ c ≠ ']' := by
  cases v with
  | object members => exact ⟨'{', _, rfl, by decide, by decide⟩
  | array elements => exact ⟨'[', _, rfl, by decide, by decide⟩
  | string s => exact ⟨'"', _, rfl, by decide, by decide⟩
  | number text =>
    obtain ⟨c, u, rfl, hc⟩ := isJsonNumber_head (by simpa [numbersValid] using hv)
    refine ⟨c, u, rfl, ?_, ?_⟩
    · rcases hc with rfl | hd
      · decide
      · exact (isDigit_ne hd).2.2.2.2.2.2
    · rintro rfl
      rcases hc with hc | hd
      · exact absurd hc (by decide)
      · exact absurd hd (by decide)
  | bool b =>
    cases b
    · exact ⟨'f', _, rfl, by decide, by decide⟩
    · exact ⟨'t', _, rfl, by decide, by decide⟩
  | null => exact ⟨'n', _, rfl, by decide, by decide⟩

mutual

/-- A generated value reads back as itself, whatever follows it that cannot go on a number. The
recursion follows the value; a member or an element spends one unit of fuel. -/
theorem parseValue_genValue : ∀ (v : JsonValue) (fuel : Nat) (r : List Char),
    numbersValid v = true → v.size ≤ fuel → (∀ c ∈ r.head?, isNumberChar c = false) →
    parseValue fuel (genValue v ++ r) = some (v, r)
  | v, 0, _, _, hsize, _ => absurd hsize (by have := one_le_size v; omega)
  | .string s, fuel + 1, r, _, _, _ => by
    rw [show genValue (.string s) ++ r = [] ++ '"' :: (s.flatMap encodeChar ++ '"' :: r) by
      simp [genValue, genString], parseValue_string (by simp), parseStringBody_encode_append]
    rfl
  | .number text, fuel + 1, r, hvalid, _, hr => by
    rw [show genValue (.number text) ++ r = [] ++ (text ++ r) by simp [genValue]]
    exact parseValue_number (by simp) (by simpa [numbersValid] using hvalid) hr
  | .bool true, fuel + 1, r, _, _, _ => parseValue_true (w := []) (by simp) r
  | .bool false, fuel + 1, r, _, _, _ => parseValue_false (w := []) (by simp) r
  | .null, fuel + 1, r, _, _, _ => parseValue_null (w := []) (by simp) r
  | .object [], fuel + 1, r, _, _, _ => by
    rw [show genValue (.object []) ++ r = [] ++ '{' :: ([] ++ '}' :: r) by
      simp [genValue, genMembers]]
    exact parseValue_empty_object (by simp) (by simp) r
  | .object ((key, v) :: members), fuel + 1, r, hvalid, hsize, _ => by
    have hmembers := parseMembers_genMembers ((key, v) :: members) fuel r (List.cons_ne_nil _ _)
      (by simpa [numbersValid] using hvalid) (by simp only [JsonValue.size] at hsize; omega)
    -- the members begin with the key's quote, not with `}`
    have hopen : (skipWs (genMembers ((key, v) :: members) ++ '}' :: r)).head? ≠ some '}' := by
      simp [genMembers, genString, skipWs_cons (show isWs '"' = false by decide)]
    rw [show genValue (.object ((key, v) :: members)) ++ r =
        [] ++ '{' :: (genMembers ((key, v) :: members) ++ '}' :: r) by simp [genValue],
      parseValue_object (by simp) hopen, hmembers]
    rfl
  | .array [], fuel + 1, r, _, _, _ => by
    rw [show genValue (.array []) ++ r = [] ++ '[' :: ([] ++ ']' :: r) by
      simp [genValue, genElements]]
    exact parseValue_empty_array (by simp) (by simp) r
  | .array (v :: elements), fuel + 1, r, hvalid, hsize, _ => by
    have hvalid' : numbersValidElements (v :: elements) = true := by
      simpa [numbersValid] using hvalid
    have helements := parseElements_genElements (v :: elements) fuel r (List.cons_ne_nil _ _)
      hvalid' (by simp only [JsonValue.size] at hsize; omega)
    -- the elements begin with a value, which does not begin with `]`
    have hopen : (skipWs (genElements (v :: elements) ++ ']' :: r)).head? ≠ some ']' := by
      simp only [numbersValidElements, Bool.and_eq_true] at hvalid'
      obtain ⟨c, t, hct, hws, hc⟩ := genValue_cons hvalid'.1
      simp [genElements, hct, skipWs_cons hws, hc]
    rw [show genValue (.array (v :: elements)) ++ r =
        [] ++ '[' :: (genElements (v :: elements) ++ ']' :: r) by simp [genValue],
      parseValue_array (by simp) hopen, helements]
    rfl

/-- The generated members of an object read back, up to its closing brace. -/
theorem parseMembers_genMembers : ∀ (members : List (List Char × JsonValue)) (fuel : Nat)
    (r : List Char), members ≠ [] → numbersValidMembers members = true →
    sizeMembers members ≤ fuel → parseMembers fuel (genMembers members ++ '}' :: r) = some (members, r)
  | [], _, _, hne, _, _ => absurd rfl hne
  | m :: members, 0, _, _, _, hsize =>
    absurd hsize (by have := one_le_sizeMembers m members; omega)
  | (key, v) :: members, fuel + 1, r, _, hvalid, hsize => by
    simp only [numbersValidMembers, Bool.and_eq_true] at hvalid
    obtain ⟨hv, hrest⟩ := hvalid
    simp only [sizeMembers] at hsize
    cases members with
    | nil =>
      -- the last member, followed by the closing brace
      have hval := parseValue_genValue v fuel ('}' :: r) hv (by omega) (by simp [isNumberChar])
      rw [show genMembers [(key, v)] ++ '}' :: r =
          [] ++ '"' :: (key.flatMap encodeChar ++ '"' :: ':' :: (genValue v ++ '}' :: r)) by
        simp [genMembers, genString, separator]]
      exact parseMembers_last (by simp) (parseStringBody_encode_append key _)
        (skipWs_cons (by decide) _) hval (skipWs_cons (by decide) _)
    | cons m members =>
      have hval := parseValue_genValue v fuel (',' :: (genMembers (m :: members) ++ '}' :: r)) hv
        (by omega) (by simp [isNumberChar])
      have hnext := parseMembers_genMembers (m :: members) fuel r (List.cons_ne_nil _ _) hrest
        (by omega)
      rw [show genMembers ((key, v) :: m :: members) ++ '}' :: r =
          [] ++ '"' :: (key.flatMap encodeChar ++ '"' :: ':' ::
            (genValue v ++ ',' :: (genMembers (m :: members) ++ '}' :: r))) by
        simp [genMembers, genString, separator],
        parseMembers_cons (by simp) (parseStringBody_encode_append key _)
          (skipWs_cons (by decide) _) hval (skipWs_cons (by decide) _), hnext]
      rfl

/-- The generated elements of an array read back, up to its closing bracket. -/
theorem parseElements_genElements : ∀ (elements : List JsonValue) (fuel : Nat) (r : List Char),
    elements ≠ [] → numbersValidElements elements = true → sizeElements elements ≤ fuel →
    parseElements fuel (genElements elements ++ ']' :: r) = some (elements, r)
  | [], _, _, hne, _, _ => absurd rfl hne
  | v :: elements, 0, _, _, _, hsize =>
    absurd hsize (by have := one_le_sizeElements v elements; omega)
  | v :: elements, fuel + 1, r, _, hvalid, hsize => by
    simp only [numbersValidElements, Bool.and_eq_true] at hvalid
    obtain ⟨hv, hrest⟩ := hvalid
    simp only [sizeElements] at hsize
    cases elements with
    | nil =>
      have hval := parseValue_genValue v fuel (']' :: r) hv (by omega) (by simp [isNumberChar])
      rw [show genElements [v] ++ ']' :: r = genValue v ++ ']' :: r by
        simp [genElements, separator]]
      exact parseElements_last hval (skipWs_cons (by decide) _)
    | cons e elements =>
      have hval := parseValue_genValue v fuel (',' :: (genElements (e :: elements) ++ ']' :: r))
        hv (by omega) (by simp [isNumberChar])
      have hnext := parseElements_genElements (e :: elements) fuel r (List.cons_ne_nil _ _) hrest
        (by omega)
      rw [show genElements (v :: e :: elements) ++ ']' :: r =
          genValue v ++ ',' :: (genElements (e :: elements) ++ ']' :: r) by
        simp [genElements, separator],
        parseElements_cons hval (skipWs_cons (by decide) _), hnext]
      rfl

end

mutual

/-- A generated value has at least one character for each value and member in it. -/
theorem size_le_genValue : ∀ v : JsonValue, numbersValid v = true → v.size ≤ (genValue v).length
  | .object members, hvalid => by
    have := sizeMembers_le_genMembers members (by simpa [numbersValid] using hvalid)
    simp only [JsonValue.size, genValue, List.length_cons, List.length_append]
    omega
  | .array elements, hvalid => by
    have := sizeElements_le_genElements elements (by simpa [numbersValid] using hvalid)
    simp only [JsonValue.size, genValue, List.length_cons, List.length_append]
    omega
  | .string s, _ => by simp [JsonValue.size, genValue, genString]
  | .number text, hvalid => by
    obtain ⟨c, u, rfl, -⟩ := isJsonNumber_head (by simpa [numbersValid] using hvalid)
    simp [JsonValue.size, genValue]
  | .bool b, _ => by cases b <;> simp [JsonValue.size, genValue]
  | .null, _ => by simp [JsonValue.size, genValue]

theorem sizeMembers_le_genMembers : ∀ members : List (List Char × JsonValue),
    numbersValidMembers members = true → sizeMembers members ≤ (genMembers members).length
  | [], _ => by simp [sizeMembers]
  | (key, v) :: members, hvalid => by
    simp only [numbersValidMembers, Bool.and_eq_true] at hvalid
    have hv := size_le_genValue v hvalid.1
    have hrest := sizeMembers_le_genMembers members hvalid.2
    -- one character for the member itself: its key's opening quote
    cases members with
    | nil =>
      simp only [sizeMembers, genMembers, genString, separator, List.isEmpty_nil, if_true,
        List.length_append, List.length_cons] at hrest ⊢
      omega
    | cons m members =>
      simp only [sizeMembers, genMembers, genString, separator, List.isEmpty_cons,
        Bool.false_eq_true, if_false, List.length_append, List.length_cons] at hrest ⊢
      omega

theorem sizeElements_le_genElements : ∀ elements : List JsonValue,
    numbersValidElements elements = true →
      sizeElements elements ≤ (genElements elements).length + 1
  | [], _ => by simp [sizeElements]
  | v :: elements, hvalid => by
    simp only [numbersValidElements, Bool.and_eq_true] at hvalid
    have hv := size_le_genValue v hvalid.1
    have hrest := sizeElements_le_genElements elements hvalid.2
    -- one character for each element but the last: the comma after it
    cases elements with
    | nil =>
      simp only [sizeElements, genElements, separator, List.isEmpty_nil, if_true,
        List.length_append, List.length_nil] at hrest ⊢
      omega
    | cons e elements =>
      simp only [sizeElements, genElements, separator, List.isEmpty_cons, Bool.false_eq_true,
        if_false, List.length_append, List.length_cons] at hrest ⊢
      omega

end

/-- What `yajl_gen` prints for a value whose numbers are of the grammar parses back as that
value. -/
theorem parseJson_genValue {v : JsonValue} (hv : numbersValid v = true) :
    parseJson (genValue v) = some v := by
  have h := parseValue_genValue v ((genValue v).length + 1) [] hv
    (by have := size_le_genValue v hv; omega) (by simp)
  rw [List.append_nil] at h
  simp [parseJson, h, skipWs]

/-! ## No control character in the text -/

/-- A character of the text that is not a control character. -/
def Printable (c : Char) : Prop := 0x20 ≤ c.toNat

instance : DecidablePred Printable := fun c => inferInstanceAs (Decidable (0x20 ≤ c.toNat))

/-- A literal text is checked character by character with `List.all`, which evaluates where the
decision of a bounded `∀` over the list does not. -/
lemma printable_of_all {s : List Char} (h : s.all (fun c => decide (Printable c)) = true) :
    ∀ d ∈ s, Printable d := by
  simpa using h

lemma printable_hexChars (i : Nat) : Printable (hexChars.getD i '0') := by
  rw [List.getD_eq_getElem?_getD]
  cases h : hexChars[i]? with
  | none => decide
  | some c =>
    have hall : ∀ c ∈ hexChars, Printable c := printable_of_all (by decide)
    exact hall c (List.mem_of_getElem? h)

/-- `yajl_string_encode` writes no control character: it escapes every one. -/
lemma encodeChar_printable (c : Char) : ∀ d ∈ encodeChar c, Printable d := by
  unfold encodeChar
  split_ifs with h1 h2 h3 h4 h5 h6 h7 h8
  all_goals first
    | exact printable_of_all (by decide)
    | skip
  · -- `\u00` and two digits
    intro d hd
    simp only [List.mem_cons, List.not_mem_nil, or_false] at hd
    rcases hd with rfl | rfl | rfl | rfl | rfl | rfl
    · decide
    · decide
    · decide
    · decide
    · exact printable_hexChars _
    · exact printable_hexChars _
  · intro d hd
    rw [List.mem_singleton.1 hd]
    exact Nat.not_lt.1 h8

lemma genString_printable (s : List Char) : ∀ d ∈ genString s, Printable d := by
  intro d hd
  simp only [genString, List.mem_cons, List.mem_append, List.mem_flatMap, List.not_mem_nil,
    or_false] at hd
  rcases hd with rfl | ⟨c, -, hc⟩ | rfl
  · decide
  · exact encodeChar_printable c d hc
  · decide

lemma printable_of_isNumberChar {c : Char} (h : isNumberChar c = true) : Printable c := by
  simp only [isNumberChar, Bool.or_eq_true, beq_iff_eq] at h
  rcases h with ((((hd | rfl) | rfl) | rfl) | rfl) | rfl
  · simp only [Char.isDigit, Bool.and_eq_true, decide_eq_true_eq] at hd
    have h0 : ('0' : Char).val.toNat ≤ c.val.toNat := UInt32.le_iff_toNat_le.1 hd.1
    exact le_trans (by decide) h0
  all_goals decide

lemma separator_printable {last : Bool} {rest : List Char} (h : ∀ d ∈ rest, Printable d) :
    ∀ d ∈ separator last rest, Printable d := by
  unfold separator
  split
  · simp
  · intro d hd
    rcases List.mem_cons.1 hd with rfl | hd
    · decide
    · exact h d hd

mutual

/-- The text `yajl_gen` prints for a value whose numbers are of the grammar has no control
character, so it is whole as a C string. -/
theorem genValue_printable : ∀ v : JsonValue, numbersValid v = true →
    ∀ d ∈ genValue v, Printable d
  | .object members, hvalid, d, hd => by
    have hm := genMembers_printable members (by simpa [numbersValid] using hvalid)
    simp only [genValue, List.mem_cons, List.mem_append, List.not_mem_nil, or_false] at hd
    rcases hd with rfl | hd | rfl
    · decide
    · exact hm d hd
    · decide
  | .array elements, hvalid, d, hd => by
    have he := genElements_printable elements (by simpa [numbersValid] using hvalid)
    simp only [genValue, List.mem_cons, List.mem_append, List.not_mem_nil, or_false] at hd
    rcases hd with rfl | hd | rfl
    · decide
    · exact he d hd
    · decide
  | .string s, _, d, hd => genString_printable s d hd
  | .number text, hvalid, d, hd =>
    have htext : isJsonNumber text = true := by simpa [numbersValid] using hvalid
    printable_of_isNumberChar (isNumberChar_of_isJsonNumber htext d hd)
  | .bool true, _, d, hd => printable_of_all (by decide) d hd
  | .bool false, _, d, hd => printable_of_all (by decide) d hd
  | .null, _, d, hd => printable_of_all (by decide) d hd

theorem genMembers_printable : ∀ members : List (List Char × JsonValue),
    numbersValidMembers members = true → ∀ d ∈ genMembers members, Printable d
  | [], _, d, hd => by simp [genMembers] at hd
  | (key, v) :: members, hvalid, d, hd => by
    simp only [numbersValidMembers, Bool.and_eq_true] at hvalid
    have hv := genValue_printable v hvalid.1
    have hrest := genMembers_printable members hvalid.2
    simp only [genMembers, List.mem_append, List.mem_cons] at hd
    rcases hd with hd | rfl | hd | hd
    · exact genString_printable key d hd
    · decide
    · exact hv d hd
    · exact separator_printable hrest d hd

theorem genElements_printable : ∀ elements : List JsonValue,
    numbersValidElements elements = true → ∀ d ∈ genElements elements, Printable d
  | [], _, d, hd => by simp [genElements] at hd
  | v :: elements, hvalid, d, hd => by
    simp only [numbersValidElements, Bool.and_eq_true] at hvalid
    have hv := genValue_printable v hvalid.1
    have hrest := genElements_printable elements hvalid.2
    simp only [genElements, List.mem_append] at hd
    rcases hd with hd | hd
    · exact hv d hd
    · exact separator_printable hrest d hd

end

/-! ## Looking values up -/

/-- The value types of a yajl tree, as `yajl_tree_get` is asked for them. -/
inductive YajlType
  | tString | tNumber | tObject | tArray | tTrue | tFalse | tNull
  deriving DecidableEq, Repr

/-- The type of a value; a boolean has the type of its value. -/
def JsonValue.yajlType : JsonValue → YajlType
  | .object _ => .tObject
  | .array _ => .tArray
  | .string _ => .tString
  | .number _ => .tNumber
  | .bool true => .tTrue
  | .bool false => .tFalse
  | .null => .tNull

@[simp] lemma yajlType_object (members : List (List Char × JsonValue)) :
    (JsonValue.object members).yajlType = .tObject := rfl

@[simp] lemma yajlType_array (elements : List JsonValue) :
    (JsonValue.array elements).yajlType = .tArray := rfl

@[simp] lemma yajlType_string (s : List Char) : (JsonValue.string s).yajlType = .tString := rfl

@[simp] lemma yajlType_number (text : List Char) : (JsonValue.number text).yajlType = .tNumber := rfl

@[simp] lemma yajlType_bool (b : Bool) :
    (JsonValue.bool b).yajlType = if b then .tTrue else .tFalse := by
  cases b <;> rfl

/-- `yajl_tree_get(tree, {name, NULL}, type)`: the first member named `name` of an object, when
its value has the type asked for. -/
def treeGet (tree : JsonValue) (name : List Char) (type : YajlType) : Option JsonValue :=
  match tree with
  | .object members =>
    match members.find? (·.1 = name) with
    | some (_, v) => if v.yajlType = type then some v else none
    | none => none
  | _ => none

@[simp] lemma treeGet_object_nil (name : List Char) (type : YajlType) :
    treeGet (.object []) name type = none := rfl

/-- The lookup goes through the members one at a time. -/
@[simp] lemma treeGet_object_cons (key name : List Char) (v : JsonValue)
    (members : List (List Char × JsonValue)) (type : YajlType) :
    treeGet (.object ((key, v) :: members)) name type =
      if key = name then (if v.yajlType = type then some v else none)
      else treeGet (.object members) name type := by
  by_cases h : key = name <;> simp [treeGet, h]

/-! ## The JSON library -/

/-- `yajl_tree_parse` and `yajl_gen`, with what is documented of them. -/
structure Yajl where
  treeParse : List Char → Option JsonValue
  gen : JsonValue → List Char
  /-- A JSON text without a backslash is read as the value the grammar gives it. -/
  treeParse_of_parseJson : ∀ {s v}, parseJson s = some v → '\\' ∉ s → treeParse s = some v
  /-- What the printer writes of a value whose numbers are JSON numbers reads back as it. -/
  treeParse_gen : ∀ {v}, numbersValid v = true → treeParse (gen v) = some v
  /-- The printer escapes every control character of a string, and writes no other. -/
  nul_not_mem_gen : ∀ {v}, numbersValid v = true → '\x00' ∉ gen v

/-- The grammar's reader and `genValue` meet what is documented of the library. -/
def Yajl.ofGrammar : Yajl where
  treeParse := parseJson
  gen := genValue
  treeParse_of_parseJson h _ := h
  treeParse_gen := parseJson_genValue
  nul_not_mem_gen hv hmem := absurd (genValue_printable _ hv _ hmem) (by decide)

end Json
