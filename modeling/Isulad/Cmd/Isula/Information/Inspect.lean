import Isulad.Cmd.Isula.Base.Create
import Isulad.Framework.Json

/-!
# What `isula inspect` prints (`inspect.c`)

`inspect_show_result` prints the trees it got from the daemon between `[` and `]`, one after the
other, with `print_json`: a recursion over the tree that indents each member and element by
`PRINTF_TAB_LEN` more than its parent, and puts a comma after each but the last (the
`LAST_ELEMENT` flag a parent passes down). `print_json_string` escapes a string value: a quote,
a backslash and the control characters, these last as `\uXXXX` when they have no short escape.
An object's key, though, is printed as it is, with `printf("\"%s\": ")`.

So without `--format` the text is the JSON array of the trees exactly when no key needs an
escape: for trees whose keys are plain and whose numbers are of the grammar, the text parses
back to the trees, members and elements in order (`parseJson_inspectShowResult`). A key with a
quote ends the key early and makes the text invalid (`inspectShowResult_key_quote`); a label
key, which `validate_label` only requires to be non-empty, can hold one.
-/

namespace Isulad

namespace Inspect

open Json

/-- `PRINTF_TAB_LEN`. -/
def printfTabLen : Nat := 4

/-- `print_json_indent(indent, new_line)`. -/
def printJsonIndent (indent : Nat) (newLine : Bool) : List Char :=
  (if newLine then ['\n'] else []) ++ List.replicate indent ' '

/-- `hexchars`. -/
def hexchars : List Char :=
  ['0', '1', '2', '3', '4', '5', '6', '7', '8', '9', 'A', 'B', 'C', 'D', 'E', 'F']

/-- What `print_json_string` prints for one character of a string. -/
def escapeChar (c : Char) : List Char :=
  if c = '\r' then ['\\', 'r']
  else if c = '\n' then ['\\', 'n']
  else if c = '\\' then ['\\', '\\']
  else if c = '"' then ['\\', '"']
  else if c = '\x0C' then ['\\', 'f']
  else if c = '\x08' then ['\\', 'b']
  else if c = '\t' then ['\\', 't']
  else if c.toNat < 0x20 then
    ['\\', 'u', '0', '0', hexchars.getD (c.toNat / 16) '0', hexchars.getD (c.toNat % 16) '0']
  else [c]

/-- The comma after an element that is not the last (`IS_LAST_ELEMENT(flags)`). -/
def elementEnd (last : Bool) : List Char := if last then [] else [',']

/-- `print_json_string(element, flags, json_format)`. -/
def printJsonString (str : List Char) (last jsonFormat : Bool) : List Char :=
  (if jsonFormat then ['"'] else []) ++ str.flatMap escapeChar ++
    (if jsonFormat then ['"'] else []) ++ elementEnd last

mutual

/-- `print_json_aux(element, indent, flags, json_format)`, where `last` is `LAST_ELEMENT` and
`top` is `TOP_LEVEL_OBJ`; objects and arrays are `print_json_object` and `print_json_array`. -/
def printJsonAux : JsonValue → Nat → Bool → Bool → Bool → List Char
  | .object members, indent, last, top, jsonFormat =>
    (if top then printJsonIndent indent false else []) ++
      if members.isEmpty then ['{', '}'] ++ elementEnd last
      else '{' :: (printJsonMembers members indent jsonFormat ++ printJsonIndent indent true ++
        '}' :: elementEnd last)
  | .array elements, indent, last, top, jsonFormat =>
    (if top then printJsonIndent indent false else []) ++
      if elements.isEmpty then ['[', ']'] ++ elementEnd last
      else '[' :: (printJsonElements elements indent jsonFormat ++ printJsonIndent indent true ++
        ']' :: elementEnd last)
  | .string s, _, last, _, jsonFormat => printJsonString s last jsonFormat
  | .number text, _, last, _, _ => text ++ elementEnd last
  | .bool true, _, last, _, _ => ['t', 'r', 'u', 'e'] ++ elementEnd last
  | .bool false, _, last, _, _ => ['f', 'a', 'l', 's', 'e'] ++ elementEnd last
  | .null, _, last, _, _ => ['n', 'u', 'l', 'l'] ++ elementEnd last

/-- The loop of `print_json_object` over the members: the key as it is, then the value. -/
def printJsonMembers : List (List Char × JsonValue) → Nat → Bool → List Char
  | [], _, _ => []
  | (key, v) :: members, indent, jsonFormat =>
    printJsonIndent (indent + printfTabLen) true ++ '"' :: key ++ ['"', ':', ' '] ++
      printJsonAux v (indent + printfTabLen) members.isEmpty false jsonFormat ++
      printJsonMembers members indent jsonFormat

/-- The loop of `print_json_array` over the elements. -/
def printJsonElements : List JsonValue → Nat → Bool → List Char
  | [], _, _ => []
  | v :: elements, indent, jsonFormat =>
    printJsonIndent (indent + printfTabLen) true ++
      printJsonAux v (indent + printfTabLen) elements.isEmpty false jsonFormat ++
      printJsonElements elements indent jsonFormat

end

/-- `print_json(tree, indent, json_format)`. -/
def printJson (tree : JsonValue) (indent : Nat) (jsonFormat : Bool) : List Char :=
  printJsonAux tree indent true true jsonFormat

/-- `inspect_show_result(show_nums, tree_array, format, json_format)`. -/
def inspectShowResult (trees : List JsonValue) (format : Option (List Char)) (jsonFormat : Bool) :
    List Char :=
  if trees.isEmpty then (if format.isNone then ['[', ']', '\n'] else [])
  else
    let indent := if format.isNone then printfTabLen else 0
    (if format.isNone then ['[', '\n'] else []) ++
      List.intercalate (if format.isNone then [',', '\n'] else ['\n'])
        (trees.map (printJson · indent jsonFormat)) ++
      (if format.isNone then ['\n', ']', '\n'] else ['\n'])

/-! ## Trees the text can carry -/

mutual

/-- A tree whose numbers are of the grammar and whose keys need no escape. -/
def jsonSafe : JsonValue → Bool
  | .object members => jsonSafeMembers members
  | .array elements => jsonSafeElements elements
  | .number text => isJsonNumber text
  | _ => true

def jsonSafeMembers : List (List Char × JsonValue) → Bool
  | [] => true
  | (key, v) :: members => key.all isPlain && jsonSafe v && jsonSafeMembers members

def jsonSafeElements : List JsonValue → Bool
  | [] => true
  | v :: elements => jsonSafe v && jsonSafeElements elements

end

/-! ## The printer, piece by piece -/

lemma printJsonIndent_ws (indent : Nat) (newLine : Bool) :
    ∀ c ∈ printJsonIndent indent newLine, isWs c = true := by
  intro c hc
  unfold printJsonIndent at hc
  rcases List.mem_append.1 hc with h | h
  · split at h
    · rw [List.mem_singleton.1 h]
      rfl
    · cases h
  · rw [(List.mem_replicate.1 h).2]
    rfl

attribute [local simp] Isulad.Inspect.printJsonAux Isulad.Inspect.elementEnd Isulad.Inspect.printJsonString in
/-- After an element that is not the last comes a comma, and nothing else changes. -/
lemma printJsonAux_not_last (v : JsonValue) (indent : Nat) (top jsonFormat : Bool) :
    printJsonAux v indent false top jsonFormat = printJsonAux v indent true top jsonFormat ++ [','] := by
  cases v with
  | object members => cases members <;> simp [printJsonAux, elementEnd]
  | array elements => cases elements <;> simp [printJsonAux, elementEnd]
  | string s => simp [printJsonAux, printJsonString, elementEnd]
  | number text => simp [printJsonAux, elementEnd]
  | bool b => cases b <;> simp [printJsonAux, elementEnd]
  | null => simp [printJsonAux, elementEnd]

/-- A tree at the top is indented, which is whitespace. -/
lemma printJsonAux_top (v : JsonValue) (indent : Nat) (last jsonFormat : Bool) :
    ∃ w, (∀ c ∈ w, isWs c = true) ∧
      printJsonAux v indent last true jsonFormat = w ++ printJsonAux v indent last false jsonFormat := by
  cases v with
  | object members => exact ⟨_, printJsonIndent_ws indent false, by simp [printJsonAux]⟩
  | array elements => exact ⟨_, printJsonIndent_ws indent false, by simp [printJsonAux]⟩
  | string s => exact ⟨[], by simp, by simp [printJsonAux]⟩
  | number text => exact ⟨[], by simp, by simp [printJsonAux]⟩
  | bool b => cases b <;> exact ⟨[], by simp, by simp [printJsonAux]⟩
  | null => exact ⟨[], by simp, by simp [printJsonAux]⟩

/-- The `\u00XX` of a control character names its code. -/
lemma hex4_hexchars : ∀ n < 0x20,
    hex4 '0' '0' (hexchars.getD (n / 16) '0') (hexchars.getD (n % 16) '0') = some n := by
  decide

/-- Each character that `print_json_string` escapes reads back as itself. -/
lemma parseStringBody_escapeChar (c : Char) (s : List Char) :
    parseStringBody (escapeChar c ++ s) = (parseStringBody s).map fun (str, r) => (c :: str, r) := by
  unfold escapeChar
  split_ifs with h1 h2 h3 h4 h5 h6 h7 h8
  -- the seven short escapes
  all_goals first
    | (subst c; exact parseStringBody_escape (by decide) (by decide))
    | skip
  · -- a control character without a short escape
    rw [List.cons_append, List.cons_append, List.cons_append, List.cons_append, List.cons_append,
      List.cons_append, List.nil_append, parseStringBody_unicode (hex4_hexchars c.toNat h8),
      Char.ofNat_toNat]
  · -- any other character stands for itself
    have hplain : isPlain c = true := by
      simp [isPlain, h3, h4, Nat.not_lt.1 h8]
    rw [List.singleton_append, parseStringBody_plain hplain]

/-- A string value reads back whole, up to its closing quote. -/
lemma parseStringBody_escape_append (str rest : List Char) :
    parseStringBody (str.flatMap escapeChar ++ '"' :: rest) = some (str, rest) := by
  induction str with
  | nil => exact parseStringBody_quote rest
  | cons c str ih =>
    rw [List.flatMap_cons, List.append_assoc, parseStringBody_escapeChar, ih]
    rfl

/-! ## The text reads back -/

attribute [local simp] Json.JsonValue.size in
lemma size_pos (v : JsonValue) : 1 ≤ v.size := by
  cases v <;> simp [JsonValue.size]

attribute [local simp] Json.sizeMembers in
lemma sizeMembers_pos (m : List Char × JsonValue) (members : List (List Char × JsonValue)) :
    1 ≤ sizeMembers (m :: members) := by
  simp [sizeMembers]

attribute [local simp] Json.sizeElements in
lemma sizeElements_pos (v : JsonValue) (elements : List JsonValue) :
    1 ≤ sizeElements (v :: elements) := by
  simp [sizeElements]

attribute [local simp] Isulad.Inspect.printJsonIndent in
/-- No number character begins the text after a member or an element. -/
lemma not_number_head_indent (indent : Nat) (r : List Char) :
    ∀ c ∈ (printJsonIndent indent true ++ r).head?, isNumberChar c = false := by
  simp [printJsonIndent, isNumberChar]

attribute [local simp] Isulad.Inspect.jsonSafe in
/-- A tree is printed from a character that is neither whitespace nor `]`. -/
lemma printJsonAux_cons {v : JsonValue} (hv : jsonSafe v = true) (indent : Nat) (last : Bool) :
    ∃ c t, printJsonAux v indent last false true = c :: t ∧ isWs c = false ∧ c ≠ ']' := by
  cases v with
  | object members => cases members <;> exact ⟨'{', _, rfl, by decide, by decide⟩
  | array elements => cases elements <;> exact ⟨'[', _, rfl, by decide, by decide⟩
  | string s => exact ⟨'"', _, rfl, by decide, by decide⟩
  | number text =>
    obtain ⟨c, u, rfl, hc⟩ := isJsonNumber_head (by simpa [jsonSafe] using hv)
    refine ⟨c, u ++ elementEnd last, by simp [printJsonAux], ?_, ?_⟩
    · rcases hc with rfl | hd
      · decide
      · exact (isDigit_ne hd).2.2.2.2.2.2
    · rintro rfl
      rcases hc with hc | hd
      · exact absurd hc (by decide)
      · exact absurd hd (by decide)
  | bool b =>
    cases b
    · exact ⟨'f', _, rfl, by decide, by decide⟩
    · exact ⟨'t', _, rfl, by decide, by decide⟩
  | null => exact ⟨'n', _, rfl, by decide, by decide⟩

/-- So whitespace and a tree do not begin with `]`. -/
lemma printJsonAux_head {v : JsonValue} (hv : jsonSafe v = true) (indent : Nat) (last : Bool)
    (rest : List Char) : (skipWs (printJsonAux v indent last false true ++ rest)).head? ≠ some ']' := by
  obtain ⟨c, t, hct, hws, hc⟩ := printJsonAux_cons hv indent last
  rw [hct, List.cons_append, skipWs_cons hws]
  simpa using hc

mutual

/-- What the printer prints for a tree it can carry, after any whitespace, reads back as that
tree. The recursion follows the tree; a member or an element spends one unit of fuel. -/
theorem parseValue_printJsonAux : ∀ (v : JsonValue) (fuel indent : Nat) (w r : List Char),
    (∀ c ∈ w, isWs c = true) → jsonSafe v = true → v.size ≤ fuel →
    (∀ c ∈ r.head?, isNumberChar c = false) →
    parseValue fuel (w ++ (printJsonAux v indent true false true ++ r)) = some (v, r)
  | v, 0, _, _, _, _, _, hsize, _ => absurd hsize (by have := size_pos v; omega)
  | .string s, fuel + 1, indent, w, r, hw, _, _, _ => by
    simp only [printJsonAux, printJsonString, elementEnd, if_true, List.append_nil,
      List.nil_append, List.cons_append, List.append_assoc]
    rw [parseValue_string hw, parseStringBody_escape_append]
    rfl
  | .number text, fuel + 1, indent, w, r, hw, hsafe, _, hr => by
    simp only [printJsonAux, elementEnd, if_true, List.append_nil]
    exact parseValue_number hw hsafe hr
  | .bool true, fuel + 1, indent, w, r, hw, _, _, _ => by
    simp only [printJsonAux, elementEnd, if_true, List.append_nil, List.cons_append, List.nil_append]
    exact parseValue_true hw r
  | .bool false, fuel + 1, indent, w, r, hw, _, _, _ => by
    simp only [printJsonAux, elementEnd, if_true, List.append_nil, List.cons_append, List.nil_append]
    exact parseValue_false hw r
  | .null, fuel + 1, indent, w, r, hw, _, _, _ => by
    simp only [printJsonAux, elementEnd, if_true, List.append_nil, List.cons_append, List.nil_append]
    exact parseValue_null hw r
  | .object [], fuel + 1, indent, w, r, hw, _, _, _ => by
    simp only [printJsonAux, elementEnd, if_true, if_false, List.isEmpty_nil, List.nil_append,
      List.append_nil, List.cons_append, Bool.false_eq_true]
    exact parseValue_empty_object hw (by simp : ∀ c ∈ ([] : List Char), isWs c = true) r
  | .object ((key, v) :: members), fuel + 1, indent, w, r, hw, hsafe, hsize, _ => by
    have hmembers := parseMembers_printJsonMembers ((key, v) :: members) fuel indent r
      (List.cons_ne_nil _ _) hsafe (by simp only [JsonValue.size] at hsize; omega)
    -- the members begin with whitespace and the key's quote, not with `}`
    have hopen : (skipWs (printJsonMembers ((key, v) :: members) indent true ++
        (printJsonIndent indent true ++ '}' :: r))).head? ≠ some '}' := by
      simp only [printJsonMembers, List.append_assoc, List.cons_append]
      rw [skipWs_append (printJsonIndent_ws _ true), skipWs_cons (by decide)]
      simp
    simp only [printJsonAux, elementEnd, if_true, if_false, List.isEmpty_cons, List.nil_append,
      List.append_nil, List.cons_append, List.append_assoc, Bool.false_eq_true] at hmembers hopen ⊢
    rw [parseValue_object hw hopen, hmembers]
    rfl
  | .array [], fuel + 1, indent, w, r, hw, _, _, _ => by
    simp only [printJsonAux, elementEnd, if_true, if_false, List.isEmpty_nil, List.nil_append,
      List.append_nil, List.cons_append, Bool.false_eq_true]
    exact parseValue_empty_array hw (by simp : ∀ c ∈ ([] : List Char), isWs c = true) r
  | .array (v :: elements), fuel + 1, indent, w, r, hw, hsafe, hsize, _ => by
    have hv : jsonSafe v = true := by
      simp only [jsonSafe, jsonSafeElements, Bool.and_eq_true] at hsafe
      exact hsafe.1
    have helements := parseElements_printJsonElements (v :: elements) fuel indent r
      (List.cons_ne_nil _ _) hsafe (by simp only [JsonValue.size] at hsize; omega)
    -- the elements begin with whitespace and a value, which is not `]`
    have hopen : (skipWs (printJsonElements (v :: elements) indent true ++
        (printJsonIndent indent true ++ ']' :: r))).head? ≠ some ']' := by
      simp only [printJsonElements, List.append_assoc]
      rw [skipWs_append (printJsonIndent_ws _ true)]
      exact printJsonAux_head hv _ _ _
    simp only [printJsonAux, elementEnd, if_true, if_false, List.isEmpty_cons, List.nil_append,
      List.append_nil, List.cons_append, List.append_assoc, Bool.false_eq_true] at helements hopen ⊢
    rw [parseValue_array hw hopen, helements]
    rfl

/-- The members of an object read back, up to its closing brace. -/
theorem parseMembers_printJsonMembers : ∀ (members : List (List Char × JsonValue)) (fuel indent : Nat)
    (r : List Char), members ≠ [] → jsonSafeMembers members = true → sizeMembers members ≤ fuel →
    parseMembers fuel (printJsonMembers members indent true ++
      (printJsonIndent indent true ++ '}' :: r)) = some (members, r)
  | [], _, _, _, hne, _, _ => absurd rfl hne
  | m :: members, 0, _, _, _, _, hsize =>
    absurd hsize (by have := sizeMembers_pos m members; omega)
  | (key, v) :: members, fuel + 1, indent, r, _, hsafe, hsize => by
    simp only [jsonSafeMembers, Bool.and_eq_true, List.all_eq_true] at hsafe
    obtain ⟨⟨hkey, hv⟩, hrest⟩ := hsafe
    simp only [sizeMembers] at hsize
    have hws := printJsonIndent_ws (indent + printfTabLen) true
    cases members with
    | nil =>
      -- the last member, followed by the closing brace
      have hval := parseValue_printJsonAux v fuel (indent + printfTabLen) [' ']
        (printJsonIndent indent true ++ '}' :: r) isWs_space hv (by omega)
        (not_number_head_indent indent _)
      simp only [printJsonMembers, List.isEmpty_nil, List.append_nil, List.append_assoc,
        List.cons_append, List.nil_append] at hval ⊢
      rw [parseMembers_last hws (parseStringBody_plain_append hkey _) (skipWs_cons (by decide) _)
        hval (by rw [skipWs_append (printJsonIndent_ws _ true), skipWs_cons (by decide)])]
    | cons m members =>
      have hval := parseValue_printJsonAux v fuel (indent + printfTabLen) [' ']
        (',' :: (printJsonMembers (m :: members) indent true ++ (printJsonIndent indent true ++
          '}' :: r))) isWs_space hv (by omega) (by simp [isNumberChar])
      have hnext := parseMembers_printJsonMembers (m :: members) fuel indent r
        (List.cons_ne_nil _ _) hrest (by omega)
      simp only [printJsonMembers, List.isEmpty_cons, printJsonAux_not_last, List.append_assoc,
        List.cons_append, List.nil_append] at hval hnext ⊢
      rw [parseMembers_cons hws (parseStringBody_plain_append hkey _) (skipWs_cons (by decide) _)
        hval (skipWs_cons (by decide) _), hnext]
      rfl

/-- The elements of an array read back, up to its closing bracket. -/
theorem parseElements_printJsonElements : ∀ (elements : List JsonValue) (fuel indent : Nat)
    (r : List Char), elements ≠ [] → jsonSafeElements elements = true → sizeElements elements ≤ fuel →
    parseElements fuel (printJsonElements elements indent true ++
      (printJsonIndent indent true ++ ']' :: r)) = some (elements, r)
  | [], _, _, _, hne, _, _ => absurd rfl hne
  | v :: elements, 0, _, _, _, _, hsize =>
    absurd hsize (by have := sizeElements_pos v elements; omega)
  | v :: elements, fuel + 1, indent, r, _, hsafe, hsize => by
    simp only [jsonSafeElements, Bool.and_eq_true] at hsafe
    obtain ⟨hv, hrest⟩ := hsafe
    simp only [sizeElements] at hsize
    have hws := printJsonIndent_ws (indent + printfTabLen) true
    cases elements with
    | nil =>
      have hval := parseValue_printJsonAux v fuel (indent + printfTabLen)
        (printJsonIndent (indent + printfTabLen) true) (printJsonIndent indent true ++ ']' :: r)
        hws hv (by omega) (not_number_head_indent indent _)
      simp only [printJsonElements, List.isEmpty_nil, List.append_nil, List.append_assoc] at hval ⊢
      rw [parseElements_last hval
        (by rw [skipWs_append (printJsonIndent_ws _ true), skipWs_cons (by decide)])]
    | cons e elements =>
      have hval := parseValue_printJsonAux v fuel (indent + printfTabLen)
        (printJsonIndent (indent + printfTabLen) true)
        (',' :: (printJsonElements (e :: elements) indent true ++ (printJsonIndent indent true ++
          ']' :: r))) hws hv (by omega) (by simp [isNumberChar])
      have hnext := parseElements_printJsonElements (e :: elements) fuel indent r
        (List.cons_ne_nil _ _) hrest (by omega)
      simp only [printJsonElements, List.isEmpty_cons, printJsonAux_not_last, List.append_assoc,
        List.cons_append, List.nil_append] at hval hnext ⊢
      rw [parseElements_cons hval (skipWs_cons (by decide) _), hnext]
      rfl

end

/-! ## The fuel the text gives -/

mutual

/-- A tree the printer can carry prints at least one character for each value and member. -/
theorem size_le_printJsonAux : ∀ (v : JsonValue) (indent : Nat) (last top : Bool),
    jsonSafe v = true → v.size ≤ (printJsonAux v indent last top true).length
  | .object [], _, _, _, _ => by
    simp only [JsonValue.size, sizeMembers, printJsonAux, List.isEmpty_nil, if_true,
      List.length_append, List.length_cons, List.length_nil]
    omega
  | .object (m :: members), indent, last, top, hsafe => by
    have := sizeMembers_le_printJsonMembers (m :: members) indent hsafe
    simp only [JsonValue.size, printJsonAux, List.isEmpty_cons, Bool.false_eq_true, if_false,
      List.length_append, List.length_cons]
    omega
  | .array [], _, _, _, _ => by
    simp only [JsonValue.size, sizeElements, printJsonAux, List.isEmpty_nil, if_true,
      List.length_append, List.length_cons, List.length_nil]
    omega
  | .array (v :: elements), indent, last, top, hsafe => by
    have := sizeElements_le_printJsonElements (v :: elements) indent hsafe
    simp only [JsonValue.size, printJsonAux, List.isEmpty_cons, Bool.false_eq_true, if_false,
      List.length_append, List.length_cons]
    omega
  | .string s, _, _, _, _ => by simp [JsonValue.size, printJsonAux, printJsonString]
  | .number text, _, _, _, hsafe => by
    obtain ⟨c, u, rfl, -⟩ := isJsonNumber_head (by simpa [jsonSafe] using hsafe)
    simp [JsonValue.size, printJsonAux]
  | .bool b, _, _, _, _ => by cases b <;> simp [JsonValue.size, printJsonAux]
  | .null, _, _, _, _ => by simp [JsonValue.size, printJsonAux]

theorem sizeMembers_le_printJsonMembers : ∀ (members : List (List Char × JsonValue)) (indent : Nat),
    jsonSafeMembers members = true → sizeMembers members ≤ (printJsonMembers members indent true).length
  | [], _, _ => by simp [sizeMembers]
  | (key, v) :: members, indent, hsafe => by
    simp only [jsonSafeMembers, Bool.and_eq_true] at hsafe
    have := size_le_printJsonAux v (indent + printfTabLen) members.isEmpty false hsafe.1.2
    have := sizeMembers_le_printJsonMembers members indent hsafe.2
    simp only [sizeMembers, printJsonMembers, List.length_append, List.length_cons]
    omega

theorem sizeElements_le_printJsonElements : ∀ (elements : List JsonValue) (indent : Nat),
    jsonSafeElements elements = true →
      sizeElements elements ≤ (printJsonElements elements indent true).length
  | [], _, _ => by simp [sizeElements]
  | v :: elements, indent, hsafe => by
    simp only [jsonSafeElements, Bool.and_eq_true] at hsafe
    have := size_le_printJsonAux v (indent + printfTabLen) elements.isEmpty false hsafe.1
    have := sizeElements_le_printJsonElements elements indent hsafe.2
    simp only [sizeElements, printJsonElements, List.length_append, printJsonIndent, if_true,
      List.length_cons, List.length_nil]
    omega

end

/-! ## What `inspect` prints -/

section Trees

variable {trees : List JsonValue}

/-- The trees `inspect_show_result` prints one after the other without `--format`. -/
def showTrees (trees : List JsonValue) : List Char :=
  List.intercalate [',', '\n'] (trees.map (printJson · printfTabLen true))

attribute [local simp] Isulad.Inspect.showTrees in
lemma showTrees_cons_cons (t t' : JsonValue) (trees : List JsonValue) :
    showTrees (t :: t' :: trees) = printJson t printfTabLen true ++ ',' :: '\n' :: showTrees (t' :: trees) := by
  simp [showTrees, List.intercalate_cons_cons]

lemma showTrees_cons (t : JsonValue) (trees : List JsonValue) :
    ∃ rest, showTrees (t :: trees) = printJson t printfTabLen true ++ rest := by
  cases trees with
  | nil => exact ⟨[], by simp [showTrees]⟩
  | cons t' trees => exact ⟨_, showTrees_cons_cons t t' trees⟩

attribute [local simp] Isulad.Inspect.printJson in
/-- The trees read back as the elements of the array, each after the whitespace before it. -/
theorem parseElements_showTrees : ∀ (trees : List JsonValue) (fuel : Nat) (w r : List Char),
    (∀ c ∈ w, isWs c = true) → trees ≠ [] → (∀ t ∈ trees, jsonSafe t = true) →
    sizeElements trees ≤ fuel →
    parseElements fuel (w ++ (showTrees trees ++ '\n' :: ']' :: r)) = some (trees, r)
  | [], _, _, _, _, hne, _, _ => absurd rfl hne
  | t :: trees, 0, _, _, _, _, _, hsize => absurd hsize (by have := sizeElements_pos t trees; omega)
  | [t], fuel + 1, w, r, hw, _, hsafe, hsize => by
    obtain ⟨w', hw', htop⟩ := printJsonAux_top t printfTabLen true true
    have hval := parseValue_printJsonAux t fuel printfTabLen (w ++ w') ('\n' :: ']' :: r)
      (fun c hc => (List.mem_append.1 hc).elim (hw c) (hw' c)) (hsafe t List.mem_cons_self)
      (by simp only [sizeElements] at hsize; omega) (by simp [isNumberChar])
    simp only [List.append_assoc] at hval
    simp only [showTrees, List.map_cons, List.map_nil, List.intercalate_singleton, printJson, htop,
      List.append_assoc]
    rw [parseElements_last hval (skipWs_ws_cons isWs_newline (by decide) r)]
  | t :: t' :: trees, fuel + 1, w, r, hw, _, hsafe, hsize => by
    obtain ⟨w', hw', htop⟩ := printJsonAux_top t printfTabLen true true
    have hval := parseValue_printJsonAux t fuel printfTabLen (w ++ w')
      (',' :: '\n' :: (showTrees (t' :: trees) ++ '\n' :: ']' :: r))
      (fun c hc => (List.mem_append.1 hc).elim (hw c) (hw' c)) (hsafe t List.mem_cons_self)
      (by simp only [sizeElements] at hsize; omega) (by simp [isNumberChar])
    have hnext := parseElements_showTrees (t' :: trees) fuel ['\n'] r isWs_newline
      (List.cons_ne_nil _ _) (fun u hu => hsafe u (List.mem_cons_of_mem _ hu))
      (by simp only [sizeElements] at hsize ⊢; omega)
    simp only [List.append_assoc] at hval
    rw [showTrees_cons_cons, printJson, htop]
    simp only [List.append_assoc, List.cons_append]
    rw [parseElements_cons hval (skipWs_cons (by decide) _)]
    simp only [List.singleton_append] at hnext
    rw [hnext]
    rfl

/-- The text of the trees is long enough to be the fuel of their array. -/
lemma sizeElements_le_showTrees : ∀ (trees : List JsonValue), (∀ t ∈ trees, jsonSafe t = true) →
    sizeElements trees ≤ (showTrees trees).length + 1
  | [], _ => by simp [sizeElements]
  | [t], hsafe => by
    have := size_le_printJsonAux t printfTabLen true true (hsafe t List.mem_cons_self)
    simp [sizeElements, showTrees, printJson]
    omega
  | t :: t' :: trees, hsafe => by
    have := size_le_printJsonAux t printfTabLen true true (hsafe t List.mem_cons_self)
    have := sizeElements_le_showTrees (t' :: trees) fun u hu => hsafe u (List.mem_cons_of_mem _ hu)
    rw [showTrees_cons_cons]
    simp only [sizeElements, printJson, List.length_append, List.length_cons] at this ⊢
    omega

/-- Without `--format`, `inspect` prints a JSON text: the array of the trees, each member and
element in order, for trees whose keys need no escape and whose numbers are of the grammar. -/
theorem parseJson_inspectShowResult (hsafe : ∀ t ∈ trees, jsonSafe t = true) :
    parseJson (inspectShowResult trees none true) = some (.array trees) := by
  cases trees with
  | nil => rfl
  | cons t trees =>
    have htext : inspectShowResult (t :: trees) none true =
        [] ++ '[' :: ('\n' :: (showTrees (t :: trees) ++ '\n' :: ']' :: ['\n'])) := by
      simp [inspectShowResult, showTrees]
    have hfuel := sizeElements_le_showTrees (t :: trees) hsafe
    have hopen : (skipWs ('\n' :: (showTrees (t :: trees) ++ '\n' :: ']' :: ['\n']))).head? ≠
        some ']' := by
      obtain ⟨w', hw', htop⟩ := printJsonAux_top t printfTabLen true true
      obtain ⟨rest, hrest⟩ := showTrees_cons t trees
      rw [hrest, printJson, htop, ← List.singleton_append, List.append_assoc, List.append_assoc,
        skipWs_append isWs_newline, skipWs_append hw']
      exact printJsonAux_head (hsafe t List.mem_cons_self) _ _ _
    have helements := parseElements_showTrees (t :: trees)
      ([] ++ '[' :: ('\n' :: (showTrees (t :: trees) ++ '\n' :: ']' :: ['\n']))).length ['\n'] ['\n']
      isWs_newline (List.cons_ne_nil _ _) hsafe (by
        simp only [List.nil_append, List.length_cons, List.length_append, List.length_nil]
        omega)
    unfold parseJson
    rw [htext, parseValue_array (by simp) hopen]
    simp only [List.singleton_append] at helements
    rw [helements]
    rfl

end Trees

/-- A label `a"b=x` passes `validate_label`; a container with it is inspected as a text whose key
`"a"b"` ends after `a`, which is no JSON text. -/
theorem inspectShowResult_key_quote :
    Create.validateLabel "a\"b=x".toList = true ∧
    inspectShowResult [.object [("a\"b".toList, .string "x".toList)]] none true =
      "[\n    \x7b\n        \"a\"b\": \"x\"\n    \x7d\n]\n".toList ∧
    parseJson (inspectShowResult [.object [("a\"b".toList, .string "x".toList)]] none true) = none := by
  refine ⟨by decide, by decide, Option.isNone_iff_eq_none.1 (by decide)⟩

end Inspect

end Isulad
