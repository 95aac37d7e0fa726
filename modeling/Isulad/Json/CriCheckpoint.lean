import Isulad.Framework.JsonGen
import Isulad.Services.Execution.Spec.Verify

/-!
# The generated `cri_checkpoint` JSON functions

The build generates, from `cri/checkpoint.json` and the two schemas it refers to, a C struct
for each object and two functions for it: `make_` reads the struct from a yajl tree and `gen_`
writes it with `yajl_gen`. Every field of these schemas is optional.

* Reading: a string member gives a `safe_strdup` of its value; an `int32` member is converted
  with `common_safe_int32`, and a value that is no `int32_t` fails the whole read; a boolean is
  true when its member is `true`; an object or array member is read by the functions of its
  type. A missing member, or one of another type, leaves the field `NULL`, and so does every
  member of a tree that is not an object.
* Writing: the members that are set, in the schema's order, with `host_network` only when
  true and `port_mappings` only when there are some; integers are printed by `map_int`.

`yajl_tree_parse` and `yajl_gen` are the parameter `yajl` (`Json.Yajl`). Whatever they are,
within what yajl documents, the text written reads back as the structure written, each string
cut at its first `NUL` as `strlen` sees it (`criCheckpointParseData_generateJson`), and the text
has no `NUL` (`cStr_criCheckpointGenerateJson`).
-/

namespace Isulad

namespace CriSchema

open Json Verify

/-- What `strlen` and `strdup` see of a text: its characters before the first `NUL`. -/
def cStr (s : List Char) : List Char := s.takeWhile (· ≠ '\x00')

/-- `common_safe_int32(numstr, &converted)`: `strtol` in base 0 over the whole text, within
`int32_t`, which is the test of `util_safe_int`. -/
def commonSafeInt32 (numStr : List Char) : Option Int := utilSafeInt numStr

/-! ## The structs -/

/-- `cri_port_mapping`; `none` is `NULL`. -/
structure CriPortMapping where
  protocol : Option (List Char)
  containerPort : Option Int32
  hostPort : Option Int32
  deriving DecidableEq, Repr

/-- `cri_checkpoint_data`: the port mappings as the array and its length. -/
structure CriCheckpointData where
  portMappings : List CriPortMapping
  hostNetwork : Bool
  deriving DecidableEq, Repr

/-- `cri_checkpoint`. -/
structure CriCheckpoint where
  version : Option (List Char)
  name : Option (List Char)
  ns : Option (List Char)
  data : Option CriCheckpointData
  checksum : Option (List Char)
  deriving DecidableEq, Repr

/-! ## Reading (`make_`, `parse_data`) -/

/-- The read of a `string` member: `safe_strdup` of its value. -/
def readString (tree : JsonValue) (name : List Char) : Option (List Char) :=
  match treeGet tree name .tString with
  | some (.string s) => some (cStr s)
  | _ => none

/-- The read of an `int32Pointer` member: the value, or `none` when it is no `int32_t`, which
fails the read of the struct. -/
def readInt32 (tree : JsonValue) (name : List Char) : Option (Option Int32) :=
  match treeGet tree name .tNumber with
  | some (.number text) => (commonSafeInt32 text).map fun v => some (Int32.ofInt v)
  | _ => some none

/-- `make_cri_port_mapping(tree, ctx, err)`. -/
def makeCriPortMapping (tree : JsonValue) : Option CriPortMapping := do
  let containerPort ← readInt32 tree "container_port".toList
  let hostPort ← readInt32 tree "host_port".toList
  pure ⟨readString tree "protocol".toList, containerPort, hostPort⟩

/-- `make_cri_checkpoint_data(tree, ctx, err)`: an empty array leaves the mappings `NULL`. -/
def makeCriCheckpointData (tree : JsonValue) : Option CriCheckpointData := do
  let portMappings ← match treeGet tree "port_mappings".toList .tArray with
    | some (.array elements) => elements.mapM makeCriPortMapping
    | _ => pure []
  pure ⟨portMappings, (treeGet tree "host_network".toList .tTrue).isSome⟩

/-- `make_cri_checkpoint(tree, ctx, err)`: a missing `data` member leaves the field `NULL`; a
`data` member that fails to read fails the whole read. -/
def makeCriCheckpoint (tree : JsonValue) : Option CriCheckpoint := do
  let data ← match treeGet tree "data".toList .tObject with
    | some d => (makeCriCheckpointData d).map some
    | none => pure none
  pure ⟨readString tree "version".toList, readString tree "name".toList,
    readString tree "ns".toList, data, readString tree "checksum".toList⟩

/-- `cri_checkpoint_parse_data(jsondata, ctx, err)`: `yajl_tree_parse`, then `make_`. -/
def criCheckpointParseData (yajl : Yajl) (jsondata : List Char) : Option CriCheckpoint :=
  (yajl.treeParse jsondata).bind makeCriCheckpoint

/-! ## Writing (`gen_`, `generate_json`) -/

/-- A member the generator writes when its field is set. -/
def member (name : List Char) : Option JsonValue → List (List Char × JsonValue)
  | some v => [(name, v)]
  | none => []

/-- A string field as `yajl_gen_string(str, strlen(str))` writes it. -/
def genStr (s : List Char) : JsonValue := .string (cStr s)

/-- An `int32Pointer` field as `map_int` writes it. -/
def genInt32 (n : Int32) : JsonValue := .number (intText n.toInt)

/-- `gen_cri_port_mapping(g, ptr, ctx, err)`. -/
def genCriPortMapping (p : CriPortMapping) : JsonValue :=
  .object (member "protocol".toList (p.protocol.map genStr) ++
    member "container_port".toList (p.containerPort.map genInt32) ++
    member "host_port".toList (p.hostPort.map genInt32))

/-- `gen_cri_checkpoint_data(g, ptr, ctx, err)`. -/
def genCriCheckpointData (d : CriCheckpointData) : JsonValue :=
  .object (member "port_mappings".toList
      (if d.portMappings.isEmpty then none else some (.array (d.portMappings.map genCriPortMapping))) ++
    member "host_network".toList (if d.hostNetwork then some (.bool true) else none))

/-- `gen_cri_checkpoint(g, ptr, ctx, err)`. -/
def genCriCheckpoint (c : CriCheckpoint) : JsonValue :=
  .object (member "version".toList (c.version.map genStr) ++
    member "name".toList (c.name.map genStr) ++
    member "ns".toList (c.ns.map genStr) ++
    member "data".toList (c.data.map genCriCheckpointData) ++
    member "checksum".toList (c.checksum.map genStr))

/-- `cri_checkpoint_generate_json(ptr, ctx, err)`: `gen_`, then `yajl_gen`. -/
def criCheckpointGenerateJson (yajl : Yajl) (c : CriCheckpoint) : List Char :=
  yajl.gen (genCriCheckpoint c)

/-! ## Numbers read back -/

lemma digitValue_digitChar {d : Nat} (hd : d < 10) : digitValue (Nat.digitChar d) = some d := by
  interval_cases d <;> rfl

lemma isDigitOf_digitChar {d : Nat} (hd : d < 10) : isDigitOf 10 (Nat.digitChar d) = true := by
  interval_cases d <;> rfl

/-- `strtol`'s digits of a decimal text give back the number. -/
lemma digitsValue_toDigits (n : Nat) : digitsValue 10 (Nat.toDigits 10 n) = n := by
  induction n using Nat.strong_induction_on with
  | _ n ih =>
    by_cases hn : n < 10
    · simp [Nat.toDigits_of_lt_base hn, digitsValue, digitValue_digitChar hn]
    · have hq := ih (n / 10) (by omega)
      unfold digitsValue at hq ⊢
      rw [toDigits_split (by omega), List.foldl_append, hq]
      simp [digitValue_digitChar (Nat.mod_lt n (by decide : 0 < 10))]
      omega

lemma takeWhile_isDigitOf_toDigits (n : Nat) :
    (Nat.toDigits 10 n).takeWhile (isDigitOf 10) = Nat.toDigits 10 n := by
  rw [List.takeWhile_eq_self_iff]
  intro c hc
  obtain ⟨d, hd, rfl⟩ := mem_toDigits hc
  exact isDigitOf_digitChar hd

/-- `strtol` in base 0 reads the text `map_int` prints back to the number, to the end. -/
lemma strtol0_intText (n : Int) : strtol0 (intText n) = (some n, []) := by
  rcases Nat.eq_zero_or_pos n.natAbs with h0 | hpos
  · -- `0` is read as an octal number
    rw [Int.natAbs_eq_zero.1 h0]
    decide
  · obtain ⟨c, t, hct, hc, hc0⟩ := toDigits_head hpos
    have hspace : isSpace c = false := by
      cases hs : isSpace c
      · rfl
      · simp only [isSpace, Bool.or_eq_true, decide_eq_true_eq] at hs
        rcases hs with ((((rfl | rfl) | rfl) | rfl) | rfl) | rfl <;> exact absurd hc (by decide)
    have hsign : c ≠ '-' ∧ c ≠ '+' := ⟨fun h => absurd (h ▸ hc) (by decide),
      fun h => absurd (h ▸ hc) (by decide)⟩
    have hdigits := takeWhile_isDigitOf_toDigits n.natAbs
    have hvalue := digitsValue_toDigits n.natAbs
    rw [hct] at hdigits hvalue
    -- a first digit other than `0` makes the base ten
    by_cases hneg : n < 0
    · simp [strtol0, intText, hneg, hct, hc0, hdigits, hvalue, isSpace, abs_of_neg hneg]
    · simp [strtol0, intText, hneg, hct, hc0, hdigits, hvalue, List.dropWhile_cons_of_neg, hspace,
        hsign.1, hsign.2]
      omega

/-! ## Reading back what was written -/

/-- A port mapping as it reads back: its protocol as `strlen` sees it. -/
def CriPortMapping.cut (p : CriPortMapping) : CriPortMapping :=
  { p with protocol := p.protocol.map cStr }

/-- Checkpoint data as it reads back. -/
def CriCheckpointData.cut (d : CriCheckpointData) : CriCheckpointData :=
  { d with portMappings := d.portMappings.map CriPortMapping.cut }

/-- A checkpoint as it reads back: every string as `strlen` sees it. -/
def CriCheckpoint.cut (c : CriCheckpoint) : CriCheckpoint :=
  ⟨c.version.map cStr, c.name.map cStr, c.ns.map cStr, c.data.map CriCheckpointData.cut,
    c.checksum.map cStr⟩

attribute [local simp] cStr in
@[simp] lemma cStr_cStr (s : List Char) : cStr (cStr s) = cStr s := by
  simp [cStr, List.takeWhile_takeWhile]

/-- A text without `NUL` is all of what `strlen` sees. -/
lemma cStr_of_not_mem {s : List Char} (h : '\x00' ∉ s) : cStr s = s := by
  rw [cStr, List.takeWhile_eq_self_iff]
  intro c hc
  simpa using ne_of_mem_of_not_mem hc h

@[simp] lemma yajlType_genCriCheckpointData (d : CriCheckpointData) :
    (genCriCheckpointData d).yajlType = .tObject := rfl

/-- `common_safe_int32` takes back every `int32_t` that `map_int` prints. -/
lemma commonSafeInt32_intText (n : Int32) : commonSafeInt32 (intText n.toInt) = some n.toInt := by
  have hlo := Int32.le_toInt n
  have hhi := Int32.toInt_lt n
  have hrange : intMin ≤ n.toInt ∧ n.toInt ≤ intMax := by
    simp only [intMin, intMax]
    omega
  simp [commonSafeInt32, utilSafeInt, strtol0_intText, hrange]

attribute [local simp] genCriPortMapping makeCriCheckpoint member readString genStr genInt32 in
lemma makeCriPortMapping_genCriPortMapping (p : CriPortMapping) :
    makeCriPortMapping (genCriPortMapping p) = some p.cut := by
  obtain ⟨protocol, containerPort, hostPort⟩ := p
  -- each member is written or not, and each is found by its own name
  cases protocol <;> cases containerPort <;> cases hostPort <;>
    simp +decide [genCriPortMapping, makeCriPortMapping, member, readString, readInt32, genStr,
      genInt32, commonSafeInt32_intText, CriPortMapping.cut]

lemma mapM_makeCriPortMapping (ps : List CriPortMapping) :
    ps.mapM (makeCriPortMapping ∘ genCriPortMapping) = some (ps.map CriPortMapping.cut) := by
  induction ps with
  | nil => rfl
  | cons p ps ih => simp [makeCriPortMapping_genCriPortMapping, ih]

attribute [local simp] genCriCheckpointData in
lemma makeCriCheckpointData_genCriCheckpointData (d : CriCheckpointData) :
    makeCriCheckpointData (genCriCheckpointData d) = some d.cut := by
  obtain ⟨portMappings, hostNetwork⟩ := d
  -- an empty list of mappings is not written, and reads back as the empty list
  cases portMappings <;> cases hostNetwork <;>
    simp +decide [genCriCheckpointData, makeCriCheckpointData, member,
      makeCriPortMapping_genCriPortMapping, mapM_makeCriPortMapping, CriCheckpointData.cut]

attribute [local simp] genCriCheckpoint in
lemma makeCriCheckpoint_genCriCheckpoint (c : CriCheckpoint) :
    makeCriCheckpoint (genCriCheckpoint c) = some c.cut := by
  obtain ⟨version, name, ns, data, checksum⟩ := c
  cases version <;> cases name <;> cases ns <;> cases data <;> cases checksum <;>
    simp +decide [genCriCheckpoint, makeCriCheckpoint, member, readString, genStr,
      makeCriCheckpointData_genCriCheckpointData, CriCheckpoint.cut]

lemma numbersValid_genCriPortMapping (p : CriPortMapping) :
    numbersValid (genCriPortMapping p) = true := by
  obtain ⟨protocol, containerPort, hostPort⟩ := p
  cases protocol <;> cases containerPort <;> cases hostPort <;>
    simp [genCriPortMapping, member, numbersValid, genStr, genInt32, isJsonNumber_intText]

lemma numbersValid_genCriCheckpointData (d : CriCheckpointData) :
    numbersValid (genCriCheckpointData d) = true := by
  obtain ⟨portMappings, hostNetwork⟩ := d
  cases portMappings <;> cases hostNetwork <;>
    simp [genCriCheckpointData, member, numbersValid, numbersValid_genCriPortMapping]

lemma numbersValid_genCriCheckpoint (c : CriCheckpoint) :
    numbersValid (genCriCheckpoint c) = true := by
  obtain ⟨version, name, ns, data, checksum⟩ := c
  cases version <;> cases name <;> cases ns <;> cases data <;> cases checksum <;>
    simp [genCriCheckpoint, member, numbersValid, genStr, numbersValid_genCriCheckpointData]

/-- What `cri_checkpoint_generate_json` writes, `cri_checkpoint_parse_data` reads back, each string
cut at its first `NUL`. -/
theorem criCheckpointParseData_generateJson (yajl : Yajl) (c : CriCheckpoint) :
    criCheckpointParseData yajl (criCheckpointGenerateJson yajl c) = some c.cut := by
  rw [criCheckpointParseData, criCheckpointGenerateJson,
    yajl.treeParse_gen (numbersValid_genCriCheckpoint c), Option.bind_some,
    makeCriCheckpoint_genCriCheckpoint]

/-- The generated text has no `NUL`: a C string holds all of it. -/
lemma cStr_criCheckpointGenerateJson (yajl : Yajl) (c : CriCheckpoint) :
    cStr (criCheckpointGenerateJson yajl c) = criCheckpointGenerateJson yajl c :=
  cStr_of_not_mem (yajl.nul_not_mem_gen (numbersValid_genCriCheckpoint c))

end CriSchema

end Isulad
