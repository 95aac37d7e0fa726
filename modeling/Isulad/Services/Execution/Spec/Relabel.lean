import Isulad.Cutils.UtilsString
import Isulad.CleanPath

/-!
# Relabelling mount sources (`selinux_label.c`, `verify.c`, `specs_mount.c`)

A volume `-v src:dst:z` (or `:Z`) asks that the host path `src` get the container's SELinux
file label. `parse_volume` splits the volume at `:`, cleans the destination with `cleanpath` and
keeps the source as it was written (`parseVolume_source`); `relabel_mounts_if_needed` calls `relabel` on the source of
each mount whose options hold `z` or `Z`. `relabel` refuses the system directories `/`, `/usr`,
`/etc`, `/tmp`, `/home`, `/run`, `/var` and `/root` (`is_exclude_relabel_path`), and
`selinux_chcon` refuses anything under `/usr` (`bad_prefix`); otherwise
`recurse_set_file_label` labels the directory and everything in it.

Both tests read the path as it is spelled: the first compares it with `strcmp`, the second
compares its first four bytes with `/usr`. So `relabel` refuses a path whatever the host holds
exactly when the path is spelled as one of the eight or begins with `/usr`
(`relabel_refuses_iff`), every one of the eight has a spelling that denotes it and is relabelled
(`relabel_respelled_protected`), and the volume `/etc/:/x:z` relabels the host's `/etc`
(`relabelMountsIfNeeded_relabels_etc`).

The host is given by what the relabelling asks of it: `stat`, `opendir` with `readdir`, and
`lsetfilecon`. `selinux_get_enable()` and the label that `context_range_set(c, "s0")` makes of a
shared one are parameters. `recurse_set_file_label` recurses once per directory level with no
bound of its own; the model counts the levels with `fuel`.
-/

namespace Isulad

namespace Relabel

open Cutils LexicalPath

/-! ## The host -/

/-- What the relabelling asks of the host. `stat` says whether a path is a directory (`none`
where it fails); `readDir` gives what `opendir` and `readdir` list of a directory, each name with
whether its `d_type` is `DT_DIR` (`none` where `opendir` fails); `lsetfilecon` says whether
setting a label succeeds. -/
structure Host where
  stat : String → Option Bool
  readDir : String → Option (List (String × Bool))
  lsetfilecon : String → String → Bool

/-- A host where every path is an empty directory whose label can be set. -/
def dirHost : Host := ⟨fun _ => some true, fun _ => some [], fun _ _ => true⟩

/-! ## `selinux_label.c` -/

/-- The `exclude_path` list of `is_exclude_relabel_path`. -/
def excludePath : List String := ["/", "/usr", "/etc", "/tmp", "/home", "/run", "/var", "/root"]

/-- `is_exclude_relabel_path`: `strcmp` against each entry. -/
def isExcludeRelabelPath (path : String) : Bool := excludePath.any fun e => decide (path = e)

/-- `bad_prefix`: `strncmp(fpath, "/usr", 4)`. -/
def badPrefix (fpath : String) : Int :=
  if "/usr".toList.isPrefixOf fpath.toList then -1 else 0

/-- The loop of `recurse_set_file_label` over the entries of `basePath`, with `sub` the call on
a subdirectory: the paths given to `lsetfilecon` and the return code, `none` where `sub` ran out
of levels. -/
def labelEntries (host : Host) (label : String) (sub : String → Option (List String × Int))
    (basePath : String) : List (String × Bool) → Option (List String × Int)
  | [] => some ([], 0)
  | (name, isDir) :: rest =>
    if name = "." ∨ name = ".." then labelEntries host label sub basePath rest
    else
      let base := basePath ++ "/" ++ name
      -- `snprintf` into `char base[PATH_MAX]` fails on truncation
      if Path.pathMax ≤ base.utf8ByteSize then some ([], -1)
      else if isDir then
        match sub base with
        | none => none
        | some (calls, ret) =>
          if ret ≠ 0 then some (calls, ret)
          else (labelEntries host label sub basePath rest).map fun r => (calls ++ r.1, r.2)
      else if host.lsetfilecon base label then
        (labelEntries host label sub basePath rest).map fun r => (base :: r.1, r.2)
      else some ([base], -1)

/-- `recurse_set_file_label(basePath, label)`, at most `fuel` directory levels deep. -/
def recurseSetFileLabel (host : Host) (label : String) : Nat → String → Option (List String × Int)
  | 0, _ => none
  | fuel + 1, basePath =>
    match host.readDir basePath with
    | none => some ([], -1)
    | some entries =>
      if host.lsetfilecon basePath label then
        (labelEntries host label (recurseSetFileLabel host label fuel) basePath entries).map
          fun r => (basePath :: r.1, r.2)
      else some ([basePath], -1)

section Relabel

-- `selinux_get_enable()`, the label `context_range_set(c, "s0")` makes, the host, and the
-- directory levels `recurse_set_file_label` may descend
variable (enabled : Bool) (rangeS0 : String → String) (host : Host) (fuel : Nat)

/-- `selinux_chcon(fpath, label, recurse)`. -/
def selinuxChcon (fpath : String) (label : Option String) (recurse : Bool) :
    Option (List String × Int) :=
  match label with
  | none => some ([], 0)
  | some label =>
    if badPrefix fpath ≠ 0 then some ([], -1)
    else
      match host.stat fpath with
      | none => some ([], -1)
      | some isDir =>
        if recurse ∧ isDir then recurseSetFileLabel host label fuel fpath
        else if host.lsetfilecon fpath label then some ([fpath], 0) else some ([fpath], -1)

/-- `relabel(path, file_label, shared)`: the paths given to `lsetfilecon` and the return code. -/
def relabel (path : String) (fileLabel : Option String) (shared : Bool) :
    Option (List String × Int) :=
  if !enabled then some ([], 0)
  else
    match fileLabel with
    | none => some ([], 0)
    | some fileLabel =>
      if isExcludeRelabelPath path then some ([], -1)
      else
        let label := if shared then rangeS0 fileLabel else fileLabel
        (selinuxChcon host fuel path (some label) true).map
          fun r => (r.1, if r.2 ≠ 0 then -1 else 0)

end Relabel

/-! ## `specs_mount.c` and `verify.c` -/

/-- What the relabelling reads and `parse_volume` writes of a `defs_mount`. -/
structure DefsMount where
  source : String
  destination : String
  options : List String
  type : String
  deriving DecidableEq, Repr

/-- `DefaultPropagationMode`. -/
def defaultPropagationMode : String := "rprivate"

/-- `util_valid_rw_mode`. -/
def utilValidRwMode (mode : String) : Bool := mode = "rw" || mode = "ro"

/-- `util_valid_label_mode`. -/
def utilValidLabelMode (mode : String) : Bool := mode = "z" || mode = "Z"

/-- `util_valid_copy_mode`. -/
def utilValidCopyMode (mode : String) : Bool := mode = "nocopy"

/-- `util_valid_propagation_mode`. -/
def utilValidPropagationMode (mode : String) : Bool :=
  mode = "private" || mode = "rprivate" || mode = "slave" || mode = "rslave" ||
    mode = "shared" || mode = "rshared"

/-- The counter of `util_valid_mount_mode` that a mode bumps. -/
inductive ModeKind
  | rw
  | propagation
  | label
  | copy
  deriving DecidableEq, Repr

/-- Which counter a mode bumps, tested in the order of `util_valid_mount_mode`; `none` for a
mode it refuses. -/
def modeKind (mode : String) : Option ModeKind :=
  if utilValidRwMode mode then some .rw
  else if utilValidPropagationMode mode then some .propagation
  else if utilValidLabelMode mode then some .label
  else if utilValidCopyMode mode then some .copy
  else none

/-- `util_valid_mount_mode`: every mode known, and none of the four counters above 1. -/
def utilValidMountMode (mode : String) : Bool :=
  let kinds := (utilStringSplit mode ',').map modeKind
  kinds.all Option.isSome &&
    [ModeKind.rw, .propagation, .label, .copy].all fun k => decide (kinds.count (some k) ≤ 1)

/-- `check_volume_element`. -/
def checkVolumeElement (volume : String) : Int :=
  if volume = "" then -1
  else if volume.toList.head? = some ':' ∨ volume.toList.getLast? = some ':' then -1
  else 0

/-- `get_src_dst_mode_by_volume`: the source, the destination and the modes. -/
def getSrcDstModeByVolume (volume : String) : Except Int (String × String × List String) :=
  let parts : Except Int (String × String × List String) :=
    match utilStringSplit volume ':' with
    | [source, destination] =>
      -- a destination that is a mode is refused: volumes cannot be a mode alone
      if utilValidMountMode destination then .error (-1) else .ok (source, destination, [])
    | [source, destination, mode] =>
      if utilValidMountMode mode then .ok (source, destination, utilStringSplit mode ',')
      else .error (-1)
    | _ => .error (-1)
  match parts with
  | .error e => .error e
  | .ok (source, destination, modes) =>
    if source.toList.head? ≠ some '/' ∨ destination.toList.head? ≠ some '/' ∨ destination = "/"
    then .error (-1)
    else .ok (source, destination, modes)

/-- The `rw`, propagation and label modes `parse_volume` keeps: the last of each kind. -/
def volumeModes (modes : List String) : String × String × Option String :=
  modes.foldl
    (fun acc m =>
      if utilValidRwMode m then (m, acc.2.1, acc.2.2)
      else if utilValidPropagationMode m then (acc.1, m, acc.2.2)
      else if utilValidLabelMode m then (acc.1, acc.2.1, some m)
      else acc)
    ("rw", defaultPropagationMode, none)

/-- `parse_volume(volume)`, with `cwd` what `cleanpath` takes a relative path from. -/
def parseVolume (cwd : List Char) (volume : String) : Option DefsMount :=
  if checkVolumeElement volume ≠ 0 then none
  else
    match getSrcDstModeByVolume volume with
    | .error _ => none
    | .ok (source, destination, modes) =>
      let (rw, pro, label) := volumeModes modes
      match Path.cleanpath cwd destination.toList with
      | none => none
      | some dstpath =>
        some { source := source, destination := String.ofList dstpath,
               options := [rw, pro, "rbind"] ++ label.toList, type := "bind" }

/-- The options loop of `relabel_mounts_if_needed`: whether to relabel and whether shared, the
last `z` or `Z` deciding. -/
def labelOptions (options : List String) : Bool × Bool :=
  options.foldl
    (fun acc o => if o = "Z" then (true, false) else if o = "z" then (true, true) else acc)
    (false, false)

section Mounts

variable (enabled : Bool) (rangeS0 : String → String) (host : Host) (fuel : Nat)

/-- `relabel_mounts_if_needed(mounts, len, mount_label)`, `none` standing for a `NULL` entry. -/
def relabelMountsIfNeeded (mountLabel : Option String) :
    List (Option DefsMount) → Option (List String × Int)
  | [] => some ([], 0)
  | none :: rest => relabelMountsIfNeeded mountLabel rest
  | some m :: rest =>
    if (labelOptions m.options).1 then
      match relabel enabled rangeS0 host fuel m.source mountLabel (labelOptions m.options).2 with
      | none => none
      | some (calls, ret) =>
        if ret ≠ 0 then some (calls, -1)
        else (relabelMountsIfNeeded mountLabel rest).map fun r => (calls ++ r.1, r.2)
    else relabelMountsIfNeeded mountLabel rest

end Mounts

/-! ## The source of a volume -/

/-- The test that ends `get_src_dst_mode_by_volume` lets the parts through unchanged, when both
paths are absolute and the destination, as written, is not `/`. -/
lemma checkAbsolute_ok {source destination source' destination' : String} {modes modes' : List String}
    (h : (if source.toList.head? ≠ some '/' ∨ destination.toList.head? ≠ some '/' ∨ destination = "/"
      then (.error (-1) : Except Int (String × String × List String))
      else .ok (source, destination, modes)) = .ok (source', destination', modes')) :
    source' = source ∧ destination' = destination ∧ source.toList.head? = some '/' ∧
      destination.toList.head? = some '/' ∧ destination ≠ "/" := by
  split_ifs at h with ha
  cases h
  push Not at ha
  exact ⟨rfl, rfl, ha⟩

attribute [local simp] getSrcDstModeByVolume in
/-- What a successful `get_src_dst_mode_by_volume` returns: the first two `:`-separated pieces,
absolute, the destination other than `/` as written. -/
lemma getSrcDstModeByVolume_ok {volume source destination : String} {modes : List String}
    (h : getSrcDstModeByVolume volume = .ok (source, destination, modes)) :
    (∃ rest, utilStringSplit volume ':' = source :: destination :: rest) ∧
      source.toList.head? = some '/' ∧ destination.toList.head? = some '/' ∧ destination ≠ "/" := by
  unfold getSrcDstModeByVolume at h
  rcases hs : utilStringSplit volume ':' with _ | ⟨a, _ | ⟨b, _ | ⟨c, _ | ⟨d, rest⟩⟩⟩⟩ <;>
    simp only [hs] at h
  · cases h
  · cases h
  · by_cases hm : utilValidMountMode b = true
    · simp only [hm, if_true] at h
      cases h
    · simp only [hm, Bool.false_eq_true, if_false] at h
      obtain ⟨rfl, rfl, habs⟩ := checkAbsolute_ok h
      exact ⟨⟨[], rfl⟩, habs⟩
  · by_cases hm : utilValidMountMode c = true
    · simp only [hm, if_true] at h
      obtain ⟨rfl, rfl, habs⟩ := checkAbsolute_ok h
      exact ⟨⟨[c], rfl⟩, habs⟩
    · simp only [hm, Bool.false_eq_true, if_false] at h
      cases h
  · cases h

attribute [local simp] parseVolume in
/-- `parse_volume` keeps the source as it is written: the first `:`-separated piece of the
volume, absolute but not cleaned. -/
theorem parseVolume_source {cwd : List Char} {volume : String} {m : DefsMount}
    (h : parseVolume cwd volume = some m) :
    (utilStringSplit volume ':').head? = some m.source ∧ m.source.toList.head? = some '/' := by
  unfold parseVolume at h
  split_ifs at h with hc
  split at h
  · cases h
  · rename_i source destination modes hg
    split at h
    split at h
    · cases h
    · cases h
      obtain ⟨⟨rest, hs⟩, habs, -⟩ := getSrcDstModeByVolume_ok hg
      exact ⟨by rw [hs]; rfl, habs⟩
/-! ## What the two tests protect -/

/-- The paths `relabel` refuses by their spelling. -/
def Refused (path : String) : Prop :=
  isExcludeRelabelPath path = true ∨ "/usr".toList <+: path.toList

instance (path : String) : Decidable (Refused path) := inferInstanceAs (Decidable (_ ∨ _))

section Protection

variable (rangeS0 : String → String)

lemma badPrefix_eq {fpath : String} :
    badPrefix fpath = if "/usr".toList <+: fpath.toList then -1 else 0 := by
  unfold badPrefix
  by_cases h : "/usr".toList <+: fpath.toList
  · rw [if_pos (List.isPrefixOf_iff_prefix.2 h), if_pos h]
  · rw [if_neg (mt List.isPrefixOf_iff_prefix.1 h), if_neg h]

attribute [local simp] selinuxChcon in
/-- A path spelled as refused is refused before the host is asked anything. -/
lemma relabel_of_refused {path : String} (h : Refused path) (host : Host) (fuel : Nat)
    (fileLabel : String) (shared : Bool) :
    relabel true rangeS0 host fuel path (some fileLabel) shared = some ([], -1) := by
  unfold relabel
  simp only [Bool.not_true, Bool.false_eq_true, if_false]
  by_cases hx : isExcludeRelabelPath path = true
  · rw [if_pos hx]
  · have hb : badPrefix path ≠ 0 := by
      rw [badPrefix_eq, if_pos (h.resolve_left hx)]
      decide
    rw [if_neg hx]
    simp [selinuxChcon, hb]

/-- Any other path, on a host where it is an empty directory, is labelled. -/
lemma relabel_dirHost {path : String} (h : ¬ Refused path) (fileLabel : String) (shared : Bool) :
    relabel true rangeS0 dirHost 1 path (some fileLabel) shared = some ([path], 0) := by
  have hx : isExcludeRelabelPath path = false := by
    simpa [Refused] using fun hx => h (Or.inl hx)
  have hb : badPrefix path = 0 := by
    rw [badPrefix_eq, if_neg fun hp => h (Or.inr hp)]
  unfold relabel
  simp [hx, selinuxChcon, hb, dirHost, recurseSetFileLabel, labelEntries]

/-- `relabel` refuses a path whatever the host holds exactly when the path is spelled as one of
the excluded directories or begins with `/usr`. -/
theorem relabel_refuses_iff (path fileLabel : String) (shared : Bool) :
    (∀ host fuel, relabel true rangeS0 host fuel path (some fileLabel) shared = some ([], -1)) ↔
      Refused path := by
  constructor
  · intro h
    by_contra hr
    have hlabel := h dirHost 1
    rw [relabel_dirHost rangeS0 hr] at hlabel
    simp at hlabel
  · intro h host fuel
    exact relabel_of_refused rangeS0 h host fuel fileLabel shared

/-- Each excluded directory `d` is also spelled `/.` followed by `d`: a path whose lexical
normal form is `d`, and which `relabel` labels on a host where it is an empty directory. -/
theorem relabel_respelled_protected (fileLabel : String) (shared : Bool) :
    ∀ d ∈ excludePath, lexicalClean ['/'] ("/." ++ d).toList = d.toList ∧
      relabel true rangeS0 dirHost 1 ("/." ++ d) (some fileLabel) shared = some (["/." ++ d], 0) := by
  intro d hd
  simp only [excludePath, List.mem_cons, List.not_mem_nil, or_false] at hd
  rcases hd with rfl | rfl | rfl | rfl | rfl | rfl | rfl | rfl <;>
    exact ⟨by decide, relabel_dirHost rangeS0 (by decide) fileLabel shared⟩

end Protection

/-- The volume `/etc/:/x:z` keeps its source `/etc/`, which denotes `/etc`, and
`relabel_mounts_if_needed` labels it, where `relabel` refuses the spelling `/etc`. -/
theorem relabelMountsIfNeeded_relabels_etc :
    parseVolume ['/'] "/etc/:/x:z" = some ⟨"/etc/", "/x", ["rw", "rprivate", "rbind", "z"], "bind"⟩ ∧
      Path.cleanpath ['/'] "/etc/".toList = some "/etc".toList ∧
      relabelMountsIfNeeded true id dirHost 1 (some "system_u:object_r:container_file_t:s0:c1,c2")
          [some ⟨"/etc/", "/x", ["rw", "rprivate", "rbind", "z"], "bind"⟩] = some (["/etc/"], 0) ∧
      relabel true id dirHost 1 "/etc" (some "system_u:object_r:container_file_t:s0:c1,c2") true =
        some ([], -1) := by
  refine ⟨by decide, by decide, by decide, by decide⟩

end Relabel

end Isulad
