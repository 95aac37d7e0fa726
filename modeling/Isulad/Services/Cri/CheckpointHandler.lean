import Isulad.Json.CriCheckpoint
import Mathlib.Tactic.IntervalCases

/-!
# Pod-sandbox checkpoints (`checkpoint_handler.cc`, `CreateCheckpoint` and `GetCheckpoint` of
`cri_helpers.cc`, `ConstructPodSandboxCheckpoint` of `cri_sandbox.cc`)

`RunPodSandbox` records the sandbox's name, namespace, port mappings and whether it shares the
host's network as a checkpoint, a JSON annotation of the sandbox container, and the network
plugin reads the port mappings back from it. Both ways go through the C structs of the
generated `cri_checkpoint` functions: `CheckpointToCStruct` copies each C++ string with
`util_strdup_s(s.c_str())`, so up to its first `NUL`, and `CStructToCheckpoint` sets a field of
the C++ object only where the struct's field is set.

`CreateCheckpoint` writes the struct without its checksum, takes the `sha256` of that text as
the checksum, and writes the struct again with it. `GetCheckpoint` reads a text, writes what it
read without the checksum, and accepts it when the stored checksum is the `sha256` of that text.

* A checkpoint `ConstructPodSandboxCheckpoint` builds reads back with its port mappings and its
  host-network flag as they were, and with its name and namespace up to their first `NUL`
  (`getCheckpoint_createCheckpoint_construct`).
* What `GetCheckpoint` accepts carries the checksum of what it read (`getCheckpoint_verified`);
  what it refuses leaves the object as it was (`getCheckpoint_error`).
* A text that reads as a checkpoint without a `checksum` member, `{}` for one, makes
  `tmpChecksum = criCheckpoint->checksum` build a `std::string` from `NULL`
  (`getCheckpoint_eq_nullChecksum_iff`).

Allocation does not fail here, so neither do the conversions, and the digest itself, OpenSSL's
`SHA256_Final`, is a parameter, as are yajl's reader and printer (`Json.Yajl`): the results hold
for every library that does what yajl documents.
-/

namespace Isulad

namespace Cri

open Json CriSchema

/-! ## The C++ objects and their C structs -/

/-- `cri::PortMapping`; `none` is a `nullptr` member. -/
structure PortMapping where
  protocol : Option (List Char)
  containerPort : Option Int32
  hostPort : Option Int32
  deriving DecidableEq, Repr

/-- `cri::CheckpointData`. -/
structure CheckpointData where
  portMappings : List PortMapping := []
  hostNetwork : Bool := false
  deriving DecidableEq, Repr

/-- `cri::PodSandboxCheckpoint` with the initial values of its members; `data` is the shared
pointer. -/
structure PodSandboxCheckpoint where
  version : List Char := "v1".toList
  name : List Char := []
  ns : List Char := []
  data : Option CheckpointData := none
  checkSum : List Char := []
  deriving DecidableEq, Repr

/-- `PortMapping::PortMappingToCStruct`. -/
def PortMapping.portMappingToCStruct (self : PortMapping) : CriPortMapping :=
  ⟨self.protocol.map cStr, self.containerPort, self.hostPort⟩

/-- `PortMapping::CStructToPortMapping`: a field of the struct that is set replaces the
object's. -/
def PortMapping.cStructToPortMapping (self : PortMapping) (pmapping : CriPortMapping) :
    PortMapping :=
  ⟨pmapping.protocol.or self.protocol, pmapping.containerPort.or self.containerPort,
    pmapping.hostPort.or self.hostPort⟩

/-- `CheckpointData::CheckpointDataToCStruct`. -/
def CheckpointData.checkpointDataToCStruct (self : CheckpointData) : CriCheckpointData :=
  ⟨self.portMappings.map PortMapping.portMappingToCStruct, self.hostNetwork⟩

/-- `CheckpointData::CStructToCheckpointData`: the flag is copied, and each mapping, read into a
fresh `PortMapping`, is pushed after the object's own. -/
def CheckpointData.cStructToCheckpointData (self : CheckpointData) (data : CriCheckpointData) :
    CheckpointData :=
  ⟨self.portMappings ++ data.portMappings.map (PortMapping.cStructToPortMapping ⟨none, none, none⟩),
    data.hostNetwork⟩

/-- `PodSandboxCheckpoint::CheckpointToCStruct`: every string is set. -/
def PodSandboxCheckpoint.checkpointToCStruct (self : PodSandboxCheckpoint) : CriCheckpoint :=
  ⟨some (cStr self.version), some (cStr self.name), some (cStr self.ns),
    self.data.map CheckpointData.checkpointDataToCStruct, some (cStr self.checkSum)⟩

/-- `PodSandboxCheckpoint::CStructToCheckpoint`: a `data` struct is read into fresh data, and a
field of the struct that is set replaces the object's. -/
def PodSandboxCheckpoint.cStructToCheckpoint (self : PodSandboxCheckpoint)
    (checkpoint : CriCheckpoint) : PodSandboxCheckpoint :=
  ⟨checkpoint.version.getD self.version, checkpoint.name.getD self.name,
    checkpoint.ns.getD self.ns,
    (checkpoint.data.map (CheckpointData.cStructToCheckpointData {})).or self.data,
    checkpoint.checksum.getD self.checkSum⟩

/-! ## `CreateCheckpoint` and `GetCheckpoint` -/

/-- `%02x` of a byte. -/
def hexByte (b : UInt8) : List Char := [Nat.digitChar (b.toNat / 16), Nat.digitChar (b.toNat % 16)]

/-- `CRIHelpers::sha256(val)`: the digest of the text `strlen` sees, in lowercase hex. -/
def sha256 (digest : List Char → Vector UInt8 32) (val : List Char) : List Char :=
  (digest (cStr val)).toList.flatMap hexByte

/-- `CRIHelpers::CreateCheckpoint(checkpoint, error)`: the text, or the error it sets, and the
object, whose checksum it sets. -/
def createCheckpoint (yajl : Yajl) (digest : List Char → Vector UInt8 32)
    (checkpoint : PodSandboxCheckpoint) : Except String (List Char) × PodSandboxCheckpoint :=
  let criCheckpoint := { checkpoint.checkpointToCStruct with checksum := none }
  let jsonStr := criCheckpointGenerateJson yajl criCheckpoint
  let checkpoint := { checkpoint with checkSum := sha256 digest jsonStr }
  if checkpoint.checkSum.isEmpty then (.error "checksum is empty", checkpoint)
  else
    let criCheckpoint := { criCheckpoint with checksum := some (cStr checkpoint.checkSum) }
    (.ok (cStr (criCheckpointGenerateJson yajl criCheckpoint)), checkpoint)

/-- How a call of `GetCheckpoint` ends. -/
inductive GetCheckpointResult
  /-- The call returns, with the error it set, if any, and the object after it. -/
  | returned (error : Option String) (checkpoint : PodSandboxCheckpoint)
  /-- `tmpChecksum = criCheckpoint->checksum` with a `NULL` checksum: undefined behaviour. -/
  | nullChecksum
  deriving DecidableEq, Repr

/-- `CRIHelpers::GetCheckpoint(jsonCheckPoint, checkpoint, error)`. -/
def getCheckpoint (yajl : Yajl) (digest : List Char → Vector UInt8 32) (jsonCheckPoint : List Char)
    (checkpoint : PodSandboxCheckpoint) : GetCheckpointResult :=
  match criCheckpointParseData yajl (cStr jsonCheckPoint) with
  | none => .returned (some "Failed to unmarshal checkpoint") checkpoint
  | some criCheckpoint =>
    match criCheckpoint.checksum with
    | none => .nullChecksum
    | some tmpChecksum =>
      let jsonStr := criCheckpointGenerateJson yajl { criCheckpoint with checksum := none }
      if tmpChecksum ≠ sha256 digest jsonStr then
        .returned (some "checkpoint is corrupted") checkpoint
      else .returned none (checkpoint.cStructToCheckpoint criCheckpoint)

/-! ## `ConstructPodSandboxCheckpoint` -/

/-- `runtime::v1alpha2::Protocol`. -/
inductive Protocol
  | tcp | udp | sctp
  deriving DecidableEq, Repr

/-- `runtime::v1alpha2::NamespaceMode`. -/
inductive NamespaceMode
  | pod | container | node
  deriving DecidableEq, Repr

/-- The fields of `runtime::v1alpha2::PortMapping` a checkpoint records. -/
structure RuntimePortMapping where
  protocol : Protocol
  containerPort : Int32
  hostPort : Int32
  deriving DecidableEq, Repr

/-- The fields of `runtime::v1alpha2::PodSandboxConfig` a checkpoint records: the metadata's
name and namespace, the port mappings, and the network mode of the namespace options. -/
structure PodSandboxConfig where
  name : List Char
  namespace_ : List Char
  portMappings : List RuntimePortMapping
  network : NamespaceMode
  deriving DecidableEq, Repr

/-- `CRIRuntimeServiceImpl::ParseCheckpointProtocol`. -/
def parseCheckpointProtocol : Protocol → List Char
  | .udp => "udp".toList
  | _ => "tcp".toList

/-- `CRIRuntimeServiceImpl::ConstructPodSandboxCheckpoint(config, checkpoint)`: fresh data with
each mapping in order, sharing the host's network in `NODE` mode. -/
def constructPodSandboxCheckpoint (config : PodSandboxConfig) (checkpoint : PodSandboxCheckpoint) :
    PodSandboxCheckpoint :=
  { checkpoint with
    name := config.name
    ns := config.namespace_
    data := some
      { portMappings := config.portMappings.map fun iter =>
          ⟨some (parseCheckpointProtocol iter.protocol), some iter.containerPort,
            some iter.hostPort⟩
        hostNetwork := config.network == .node } }

/-! ## The checksum text -/

lemma digitChar_ne_nul {k : Nat} (hk : k < 16) : Nat.digitChar k ≠ '\x00' := by
  interval_cases k <;> decide

attribute [local simp] hexByte in
lemma ne_nul_of_mem_hexByte {b : UInt8} {c : Char} (hc : c ∈ hexByte b) : c ≠ '\x00' := by
  have hb := b.toNat_lt
  simp only [hexByte, List.mem_cons, List.not_mem_nil, or_false] at hc
  rcases hc with rfl | rfl
  · exact digitChar_ne_nul (by omega)
  · exact digitChar_ne_nul (Nat.mod_lt _ (by decide))

attribute [local simp] sha256 in
/-- The checksum has no `NUL`: `strdup` copies all of it. -/
lemma cStr_sha256 (digest : List Char → Vector UInt8 32) (val : List Char) :
    cStr (sha256 digest val) = sha256 digest val := by
  apply cStr_of_not_mem
  simp only [sha256, List.mem_flatMap, not_exists, not_and]
  intro b _ hmem
  exact ne_nul_of_mem_hexByte hmem rfl

/-- Thirty-two bytes give a checksum that is never empty. -/
lemma sha256_ne_nil (digest : List Char → Vector UInt8 32) (val : List Char) :
    sha256 digest val ≠ [] := by
  have hlen : (digest (cStr val)).toList.length = 32 := by simp
  obtain ⟨b, hb⟩ := List.exists_mem_of_length_pos (by omega : 0 < (digest (cStr val)).toList.length)
  rw [sha256, Ne, List.flatMap_eq_nil_iff]
  intro hnil
  exact absurd (hnil b hb) (by simp [hexByte])

/-! ## The conversions -/

attribute [local simp] PodSandboxCheckpoint.checkpointToCStruct CheckpointData.checkpointDataToCStruct PortMapping.portMappingToCStruct in
/-- The struct `CheckpointToCStruct` gives reads back as itself: its strings are C strings. -/
lemma cut_checkpointToCStruct (c : PodSandboxCheckpoint) :
    c.checkpointToCStruct.cut = c.checkpointToCStruct := by
  obtain ⟨version, name, ns, data, checkSum⟩ := c
  cases data <;>
    simp [PodSandboxCheckpoint.checkpointToCStruct, CriCheckpoint.cut, CriCheckpointData.cut,
      CheckpointData.checkpointDataToCStruct, CriPortMapping.cut, PortMapping.portMappingToCStruct,
      Function.comp_def]

lemma cut_withChecksum (cc : CriCheckpoint) (cs : Option (List Char)) :
    ({ cc with checksum := cs } : CriCheckpoint).cut = { cc.cut with checksum := cs.map cStr } :=
  rfl

/-- Data read back from its struct: each protocol as `strlen` sees it. -/
lemma cStructToCheckpointData_checkpointDataToCStruct (d : CheckpointData) :
    CheckpointData.cStructToCheckpointData {} d.checkpointDataToCStruct =
      { d with portMappings := d.portMappings.map fun p => { p with protocol := p.protocol.map cStr } } := by
  obtain ⟨portMappings, hostNetwork⟩ := d
  simp [CheckpointData.cStructToCheckpointData, CheckpointData.checkpointDataToCStruct,
    PortMapping.cStructToPortMapping, PortMapping.portMappingToCStruct]

/-! ## What `CreateCheckpoint` writes and `GetCheckpoint` reads -/

/-- `CreateCheckpoint` never fails: the checksum is the hex of thirty-two bytes. -/
lemma createCheckpoint_eq (yajl : Yajl) (digest : List Char → Vector UInt8 32)
    (c : PodSandboxCheckpoint) :
    createCheckpoint yajl digest c =
      (.ok (criCheckpointGenerateJson yajl
          { c.checkpointToCStruct with
            checksum := some (sha256 digest
              (criCheckpointGenerateJson yajl { c.checkpointToCStruct with checksum := none })) }),
        { c with
          checkSum := sha256 digest
            (criCheckpointGenerateJson yajl { c.checkpointToCStruct with checksum := none }) }) := by
  simp [createCheckpoint, sha256_ne_nil, cStr_sha256, cStr_criCheckpointGenerateJson]

/-- A struct of C strings written with the checksum of its text is accepted by `GetCheckpoint`
and read into the object. -/
lemma getCheckpoint_generateJson (yajl : Yajl) (digest : List Char → Vector UInt8 32)
    (cc : CriCheckpoint) (hcut : cc.cut = cc) (checkpoint : PodSandboxCheckpoint) :
    getCheckpoint yajl digest (criCheckpointGenerateJson yajl
        { cc with
          checksum := some (sha256 digest (criCheckpointGenerateJson yajl { cc with checksum := none })) })
        checkpoint =
      .returned none (checkpoint.cStructToCheckpoint
        { cc with
          checksum := some (sha256 digest (criCheckpointGenerateJson yajl { cc with checksum := none })) }) := by
  -- the text has no `NUL`, and reads back as the struct, which is its own cut
  simp only [getCheckpoint, cStr_criCheckpointGenerateJson, criCheckpointParseData_generateJson,
    cut_withChecksum, hcut, Option.map_some, cStr_sha256]
  simp

lemma cStr_parseCheckpointProtocol (protocol : Protocol) :
    cStr (parseCheckpointProtocol protocol) = parseCheckpointProtocol protocol := by
  cases protocol <;> decide

/-- The data `ConstructPodSandboxCheckpoint` builds reads back from its struct as it was: its
protocols are C strings. -/
lemma cStructToCheckpointData_construct (config : PodSandboxConfig) (checkpoint : PodSandboxCheckpoint)
    (d : CheckpointData) (hd : (constructPodSandboxCheckpoint config checkpoint).data = some d) :
    CheckpointData.cStructToCheckpointData {} d.checkpointDataToCStruct = d := by
  simp only [constructPodSandboxCheckpoint, Option.some.injEq] at hd
  subst hd
  simp [cStructToCheckpointData_checkpointDataToCStruct, cStr_parseCheckpointProtocol]

attribute [local simp] PodSandboxCheckpoint.cStructToCheckpoint in
/-- A checkpoint `ConstructPodSandboxCheckpoint` builds is written without error and read back
without error, with its port mappings and host-network flag, and its name and namespace as
`strlen` sees them. -/
theorem getCheckpoint_createCheckpoint_construct (yajl : Yajl) (digest : List Char → Vector UInt8 32)
    (config : PodSandboxConfig) :
    ∃ json back, (createCheckpoint yajl digest (constructPodSandboxCheckpoint config {})).1 = .ok json ∧
      getCheckpoint yajl digest json {} = .returned none back ∧
      back.name = cStr config.name ∧ back.ns = cStr config.namespace_ ∧
      back.data = (constructPodSandboxCheckpoint config {}).data := by
  set c := constructPodSandboxCheckpoint config {} with hc
  obtain ⟨d, hd⟩ : ∃ d, c.data = some d := ⟨_, rfl⟩
  refine ⟨_, _, by rw [createCheckpoint_eq],
    getCheckpoint_generateJson yajl digest c.checkpointToCStruct (cut_checkpointToCStruct c) {}, ?_, ?_, ?_⟩
  · rfl
  · rfl
  · simp [PodSandboxCheckpoint.cStructToCheckpoint, PodSandboxCheckpoint.checkpointToCStruct, hd,
      cStructToCheckpointData_construct config {} d hd]

/-! ## What `GetCheckpoint` accepts -/

/-- An accepted text read as a struct whose checksum is the `sha256` of the struct's text
without it, and the object took that checksum. -/
theorem getCheckpoint_verified {yajl : Yajl} {digest : List Char → Vector UInt8 32}
    {json : List Char} {checkpoint back : PodSandboxCheckpoint}
    (h : getCheckpoint yajl digest json checkpoint = .returned none back) :
    ∃ criCheckpoint, criCheckpointParseData yajl (cStr json) = some criCheckpoint ∧
      criCheckpoint.checksum =
        some (sha256 digest (criCheckpointGenerateJson yajl { criCheckpoint with checksum := none })) ∧
      back = checkpoint.cStructToCheckpoint criCheckpoint ∧
      back.checkSum = sha256 digest (criCheckpointGenerateJson yajl { criCheckpoint with checksum := none }) := by
  unfold getCheckpoint at h
  -- only a parsed struct with a checksum that matches returns without an error
  rcases hparse : criCheckpointParseData yajl (cStr json) with _ | criCheckpoint
  · simp [hparse] at h
  · rcases hsum : criCheckpoint.checksum with _ | tmpChecksum
    · simp [hparse, hsum] at h
    · by_cases hok : tmpChecksum = sha256 digest (criCheckpointGenerateJson yajl { criCheckpoint with checksum := none })
      · simp only [hparse, hsum, hok, ne_eq, not_true_eq_false, if_false,
          GetCheckpointResult.returned.injEq, true_and] at h
        subst h
        exact ⟨criCheckpoint, rfl, by rw [hsum, hok], rfl,
          by simp [PodSandboxCheckpoint.cStructToCheckpoint, hsum, hok]⟩
      · simp [hparse, hsum, hok] at h

/-- A refused text leaves the object as it was. -/
theorem getCheckpoint_error {yajl : Yajl} {digest : List Char → Vector UInt8 32}
    {json : List Char} {checkpoint back : PodSandboxCheckpoint} {error : String}
    (h : getCheckpoint yajl digest json checkpoint = .returned (some error) back) : back = checkpoint := by
  unfold getCheckpoint at h
  -- both refusals return the object they were given
  rcases hparse : criCheckpointParseData yajl (cStr json) with _ | criCheckpoint
  · simp only [hparse, GetCheckpointResult.returned.injEq] at h
    exact h.2.symm
  · rcases hsum : criCheckpoint.checksum with _ | tmpChecksum
    · simp [hparse, hsum] at h
    · by_cases hok : tmpChecksum = sha256 digest (criCheckpointGenerateJson yajl { criCheckpoint with checksum := none })
      · simp [hparse, hsum, hok] at h
      · simp only [hparse, hsum, hok, ne_eq, not_false_eq_true, if_true,
          GetCheckpointResult.returned.injEq] at h
        exact h.2.symm

/-- `GetCheckpoint` copies a `NULL` checksum exactly when the text reads as a struct without
one. -/
theorem getCheckpoint_eq_nullChecksum_iff (yajl : Yajl) (digest : List Char → Vector UInt8 32)
    (json : List Char) (checkpoint : PodSandboxCheckpoint) :
    getCheckpoint yajl digest json checkpoint = .nullChecksum ↔
      ∃ criCheckpoint, criCheckpointParseData yajl (cStr json) = some criCheckpoint ∧
        criCheckpoint.checksum = none := by
  unfold getCheckpoint
  rcases hparse : criCheckpointParseData yajl (cStr json) with _ | criCheckpoint
  · simp
  · rcases hsum : criCheckpoint.checksum with _ | tmpChecksum
    · simp [hsum]
    · simp only [hsum, Option.some.injEq, exists_eq_left', reduceCtorEq, iff_false]
      split_ifs <;> simp

/-- A document without a `checksum` member is not reported as corrupted: `{}` makes
`GetCheckpoint` copy a `NULL` checksum, whatever the digest and the object. And a sandbox name
with a `NUL` in it does not come back. -/
theorem getCheckpoint_missing_checksum :
    (∀ (yajl : Yajl) (digest : List Char → Vector UInt8 32) (checkpoint : PodSandboxCheckpoint),
      getCheckpoint yajl digest "{}".toList checkpoint = .nullChecksum) ∧
    ∀ (yajl : Yajl) (digest : List Char → Vector UInt8 32), ∃ (config : PodSandboxConfig)
      (json : List Char) (back : PodSandboxCheckpoint),
      (createCheckpoint yajl digest (constructPodSandboxCheckpoint config {})).1 = .ok json ∧
      getCheckpoint yajl digest json {} = .returned none back ∧ back.name ≠ config.name := by
  refine ⟨fun yajl digest checkpoint => ?_, fun yajl digest => ?_⟩
  · -- `{}` has no escape, so yajl reads it as the grammar does: the empty object
    have hread : yajl.treeParse (cStr "{}".toList) = some (.object []) :=
      yajl.treeParse_of_parseJson rfl (by decide)
    have hparse : criCheckpointParseData yajl (cStr "{}".toList) =
        some ⟨none, none, none, none, none⟩ := by
      rw [criCheckpointParseData, hread, Option.bind_some]
      rfl
    exact (getCheckpoint_eq_nullChecksum_iff yajl digest _ checkpoint).2 ⟨_, hparse, rfl⟩
  · let config : PodSandboxConfig := ⟨"a\x00b".toList, [], [], .pod⟩
    obtain ⟨json, back, hcreate, hget, hname, -⟩ :=
      getCheckpoint_createCheckpoint_construct yajl digest config
    refine ⟨config, json, back, hcreate, hget, ?_⟩
    rw [hname]
    decide

end Cri

end Isulad
