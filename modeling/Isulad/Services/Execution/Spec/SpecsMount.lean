import Isulad.Services.Execution.Spec.Relabel

/-!
# Parsing `--mount` and `-v` (`specs_mount.c`)

`parse_mount` reads a `--mount` specification `key=value,key=value,...`: it cuts the text at
`,` and each item at `=` with `util_string_split`, fills the mount item by item
(`fill_mounts_item`), checks that the type is `bind` or `squashfs` and that source and
destination are absolute, cleans the destination with `cleanpath`, and gives a bind mount the
default options. `parse_volume` (modelled with the relabelling, `parseVolume`) reads
`-v src:dst:mode`.

What the two accept:

* the destination of a mount is the last one given, cleaned (`parseMount_destination`), and the
  destination of a volume its second piece, cleaned (`parseVolume_destination`);
* but `parse_mount` never refuses the destination `/`, and `parse_volume` tests for `/` before
  cleaning, so any absolute spelling of the root other than `/` itself passes
  (`parseVolume_root_destination`);
* `util_string_split` skips empty pieces: the value of an item is its text up to the next `=`
  (`mountItemKv_cuts_value`), and an empty field of a volume is no field at all
  (`parseVolume_double_colon`).
-/

namespace Isulad

namespace SpecsMount

open Cutils Relabel

/-! ## `parse_mount` -/

/-- `DefaultROMode`. -/
def defaultRoMode : String := "rw"

/-- `DefaultRBind`. -/
def defaultRBind : String := "rbind"

/-- `util_valid_key_type`. -/
def utilValidKeyType (key : String) : Bool := key = "type"

/-- `util_valid_key_src`. -/
def utilValidKeySrc (key : String) : Bool := key = "src" || key = "source"

/-- `util_valid_key_dst`. -/
def utilValidKeyDst (key : String) : Bool := key = "dst" || key = "destination"

/-- `util_valid_key_ro`. -/
def utilValidKeyRo (key : String) : Bool := key = "ro" || key = "readonly"

/-- `util_valid_key_propagation`. -/
def utilValidKeyPropagation (key : String) : Bool := key = "bind-propagation"

/-- `util_valid_key_selinux`. -/
def utilValidKeySelinux (key : String) : Bool := key = "bind-selinux-opts"

/-- `util_valid_value_true`. -/
def utilValidValueTrue (value : String) : Bool := value = "1" || value = "true"

/-- `util_valid_value_false`. -/
def utilValidValueFalse (value : String) : Bool := value = "0" || value = "false"

/-- The mount `parse_mount` fills item by item, with its `has_ro` and `has_pro`; `none` for a
field still `NULL`. -/
structure MountFill where
  type : Option String
  source : Option String
  destination : Option String
  options : List String
  hasRo : Bool
  hasPro : Bool
  deriving DecidableEq, Repr

/-- `fill_mounts_readonly_item`: `ro` for a true value, the default `rw` for a false one or for
none; `none` for any other value. -/
def fillMountsReadonlyItem (value : Option String) (options : List String) :
    Option (List String) :=
  match value with
  | none => some (options ++ [defaultRoMode])
  | some v =>
    if utilValidValueTrue v then some (options ++ ["ro"])
    else if utilValidValueFalse v then some (options ++ [defaultRoMode])
    else none

/-- `fill_mounts_item`; `none` is its `2`. An item without a value other than `ro` is its `1`,
which `parse_mount` skips, and so leaves the mount as it was. -/
def fillMountsItem (key : String) (value : Option String) (m : MountFill) : Option MountFill :=
  match value with
  | none =>
    if utilValidKeyRo key then
      (fillMountsReadonlyItem none m.options).map fun o => { m with options := o, hasRo := true }
    else some m
  | some v =>
    if utilValidKeyType key then some { m with type := some v }
    else if utilValidKeySrc key then some { m with source := some v }
    else if utilValidKeyDst key then some { m with destination := some v }
    else if utilValidKeyRo key then
      (fillMountsReadonlyItem (some v) m.options).map fun o =>
        { m with options := o, hasRo := true }
    else if utilValidKeyPropagation key then
      if utilValidPropagationMode v then
        some { m with options := m.options ++ [v], hasPro := true }
      else none
    else if utilValidKeySelinux key then
      -- accepted, and not configured
      if utilValidLabelMode v then some m else none
    else none

/-- `kv[0]` and `kv[1]` of `util_string_split(item, '=')`: the first piece and the second, if
there is one. -/
def mountItemKv (item : String) : String × Option String :=
  match utilStringSplit item '=' with
  | [] => ("", none)
  | key :: rest => (key, rest.head?)

/-- `check_mount_element`: the type, the source and the destination, when the type is `bind`
or `squashfs` and the two paths are absolute. -/
def checkMountElement (m : MountFill) : Option (String × String × String) :=
  match m.type, m.source, m.destination with
  | some t, some s, some d =>
    if t ≠ "squashfs" ∧ t ≠ "bind" then none
    else if s.toList.head? ≠ some '/' then none
    else if d.toList.head? ≠ some '/' then none
    else some (t, s, d)
  | _, _, _ => none

/-- `append_default_mount_options`: a bind mount gets `rw` and `rprivate` unless an item set
them, then `rbind`. -/
def appendDefaultMountOptions (type : String) (options : List String) (hasRo hasPro : Bool) :
    List String :=
  if type = "bind" then
    options ++ (if hasRo then [] else [defaultRoMode]) ++
      (if hasPro then [] else [defaultPropagationMode]) ++ [defaultRBind]
  else options

/-- The loop of `parse_mount` over the items. -/
def fillMountsItems (items : List String) : Option MountFill :=
  items.foldlM (fun m item => fillMountsItem (mountItemKv item).1 (mountItemKv item).2 m)
    ⟨none, none, none, [], false, false⟩

/-- `parse_mount(mount)`, with `cwd` what `cleanpath` takes a relative path from. -/
def parseMount (cwd : List Char) (mount : String) : Option DefsMount :=
  if mount = "" then none
  else do
    let m ← fillMountsItems (utilStringSplit mount ',')
    let (t, s, d) ← checkMountElement m
    let dstpath ← Path.cleanpath cwd d.toList
    pure { source := s, destination := String.ofList dstpath,
           options := appendDefaultMountOptions t m.options m.hasRo m.hasPro, type := t }

/-! ## The destination of a mount -/

/-- The destination the items give: the value of the last `dst` or `destination` item that has
one. -/
def lastDst (items : List String) : Option String :=
  (items.map mountItemKv).foldl (fun d kv => (if utilValidKeyDst kv.1 then kv.2 else none).or d)
    none

/-- One item sets the destination when it is a `dst` item with a value, and leaves it
otherwise. -/
lemma fillMountsItem_destination {key : String} {value : Option String} {m m' : MountFill}
    (h : fillMountsItem key value m = some m') :
    m'.destination = (if utilValidKeyDst key then value else none).or m.destination := by
  unfold fillMountsItem at h
  cases value with
  | none =>
    dsimp only at h
    split_ifs at h
    · obtain ⟨o, -, rfl⟩ := Option.map_eq_some_iff.1 h
      simp
    · cases h
      simp
  | some v =>
    dsimp only at h
    -- the keys of the branches before `dst` are no `dst` keys
    by_cases ht : utilValidKeyType key = true
    · have hd : utilValidKeyDst key = false := by
        simp only [utilValidKeyType, decide_eq_true_eq] at ht
        simp [ht, utilValidKeyDst]
      rw [if_pos ht] at h
      cases h
      simp [hd]
    rw [if_neg ht] at h
    by_cases hs : utilValidKeySrc key = true
    · have hd : utilValidKeyDst key = false := by
        simp only [utilValidKeySrc, Bool.or_eq_true, decide_eq_true_eq] at hs
        rcases hs with rfl | rfl <;> simp [utilValidKeyDst]
      rw [if_pos hs] at h
      cases h
      simp [hd]
    rw [if_neg hs] at h
    by_cases hd : utilValidKeyDst key = true
    · rw [if_pos hd] at h
      cases h
      simp [hd]
    rw [if_neg hd] at h
    simp only [hd, Bool.false_eq_true, ↓reduceIte, Option.none_or]
    -- the other branches keep the destination, or fail
    split_ifs at h <;>
      first
      | (obtain ⟨o, -, rfl⟩ := Option.map_eq_some_iff.1 h; rfl)
      | (cases h; rfl)

/-- The destination after the items is the last one given. -/
lemma foldlM_fillMountsItem_destination (kvs : List (String × Option String)) {m f : MountFill}
    (h : kvs.foldlM (fun m kv => fillMountsItem kv.1 kv.2 m) m = some f) :
    f.destination =
      kvs.foldl (fun d kv => (if utilValidKeyDst kv.1 then kv.2 else none).or d) m.destination := by
  induction kvs generalizing m with
  | nil =>
    cases h
    rfl
  | cons kv rest ih =>
    rw [List.foldlM_cons] at h
    obtain ⟨m', hm', hrest⟩ := Option.bind_eq_some_iff.1 h
    rw [List.foldl_cons, ← fillMountsItem_destination hm']
    exact ih hrest

/-- A mount `parse_mount` returns has the last destination given, absolute, cleaned. -/
theorem parseMount_destination {cwd : List Char} {mount : String} {m : DefsMount}
    (h : parseMount cwd mount = some m) :
    ∃ d, lastDst (utilStringSplit mount ',') = some d ∧ d.toList.head? = some '/' ∧
      Path.cleanpath cwd d.toList = some m.destination.toList := by
  unfold parseMount at h
  split_ifs at h
  obtain ⟨f, hf, h⟩ := Option.bind_eq_some_iff.1 h
  obtain ⟨⟨t, s, d⟩, hc, h⟩ := Option.bind_eq_some_iff.1 h
  obtain ⟨dstpath, hclean, h⟩ := Option.bind_eq_some_iff.1 h
  cases h
  -- the checks of `check_mount_element` pass on the fill's destination
  have hdst : f.destination = some d ∧ d.toList.head? = some '/' := by
    unfold checkMountElement at hc
    split at hc
    · rename_i t' s' d' _ _ hd
      split_ifs at hc with h1 h2 h3
      cases hc
      exact ⟨hd, not_not.1 h3⟩
    · cases hc
  have hlast : f.destination = lastDst (utilStringSplit mount ',') := by
    have hkvs : ((utilStringSplit mount ',').map mountItemKv).foldlM
        (fun m kv => fillMountsItem kv.1 kv.2 m) ⟨none, none, none, [], false, false⟩ = some f := by
      rw [List.foldlM_map]
      exact hf
    exact foldlM_fillMountsItem_destination _ hkvs
  refine ⟨d, hlast ▸ hdst.1, hdst.2, ?_⟩
  rw [hclean, String.toList_ofList]

/-! ## What `util_string_split` skips -/

/-- The value `parse_mount` reads from `key=value=more` is the text up to the second `=`, not the
text after the first. -/
lemma mountItemKv_cuts_value {item : String} {k v w : List Char}
    (hitem : item.toList = k ++ '=' :: (v ++ '=' :: w)) (hk : k ≠ []) (hv : v ≠ [])
    (hek : '=' ∉ k) (hev : '=' ∉ v) :
    mountItemKv item = (String.ofList k, some (String.ofList v)) := by
  unfold mountItemKv
  rw [utilStringSplit_eq_tokens, hitem, strtokTokens_append hek hk, strtokTokens_append hev hv]
  rfl

/-- Two non-empty pieces without the separator, joined by it, split into the two. -/
lemma utilStringSplit_pair {a b : String} {sep : Char} (ha : a ≠ "") (hb : b ≠ "")
    (hsa : sep ∉ a.toList) (hsb : sep ∉ b.toList) :
    utilStringSplit (String.ofList (a.toList ++ sep :: b.toList)) sep = [a, b] := by
  have ha' : a.toList ≠ [] := fun h => ha (String.toList_eq_nil_iff.1 h)
  have hb' : b.toList ≠ [] := fun h => hb (String.toList_eq_nil_iff.1 h)
  rw [utilStringSplit_eq_tokens, String.toList_ofList, strtokTokens_append hsa ha',
    strtokTokens_of_not_mem hsb hb']
  simp

/-- A second `:` adds an empty piece, which the split drops. -/
lemma utilStringSplit_double_colon (a b : String) :
    utilStringSplit (a ++ "::" ++ b) ':' = utilStringSplit (a ++ ":" ++ b) ':' := by
  have h₂ : (a ++ "::" ++ b).toList = a.toList ++ ':' :: ([] ++ ':' :: b.toList) := by simp
  have h₁ : (a ++ ":" ++ b).toList = a.toList ++ ':' :: b.toList := by simp
  rw [utilStringSplit_eq_tokens, utilStringSplit_eq_tokens, h₂, h₁, strtokTokens_append_sep,
    strtokTokens_append_sep, strtokTokens_append_sep ':' a.toList b.toList]
  rfl

attribute [local simp] Relabel.checkVolumeElement in
/-- `check_volume_element` reads only the first and the last character, which a second `:` in
the middle leaves as they are. -/
lemma checkVolumeElement_double_colon (a b : String) :
    checkVolumeElement (a ++ "::" ++ b) = checkVolumeElement (a ++ ":" ++ b) := by
  simp [checkVolumeElement, List.getLast?_append]

/-- `parse_volume` reads `a::b` as `a:b`: an empty field is no field. -/
theorem parseVolume_double_colon (cwd : List Char) (a b : String) :
    parseVolume cwd (a ++ "::" ++ b) = parseVolume cwd (a ++ ":" ++ b) := by
  unfold parseVolume getSrcDstModeByVolume
  rw [checkVolumeElement_double_colon, utilStringSplit_double_colon]

/-! ## The destination of a volume -/

attribute [local simp] Relabel.parseVolume in
/-- The destination of a volume `parse_volume` returns is its second piece cleaned; the piece is
absolute and, as written, not `/`. -/
theorem parseVolume_destination {cwd : List Char} {volume : String} {m : DefsMount}
    (h : parseVolume cwd volume = some m) :
    ∃ destination rest, utilStringSplit volume ':' = m.source :: destination :: rest ∧
      destination.toList.head? = some '/' ∧ destination ≠ "/" ∧
      Path.cleanpath cwd destination.toList = some m.destination.toList := by
  unfold parseVolume at h
  split_ifs at h with hc
  split at h
  · cases h
  · rename_i source destination modes hg
    obtain ⟨⟨rest, hs⟩, -, hd, hroot⟩ := getSrcDstModeByVolume_ok hg
    split at h
    split at h
    · cases h
    · rename_i dstpath hclean
      cases h
      exact ⟨destination, rest, hs, hd, hroot, by rw [hclean, String.toList_ofList]⟩

/-- The test for `/` comes before `cleanpath`: every absolute destination that cleans to `/` and is
not spelled `/` gives a bind mount onto the root. -/
theorem parseVolume_root_destination {cwd : List Char} {source destination : String}
    (hs : source.toList.head? = some '/') (hd : destination.toList.head? = some '/')
    (hsc : ':' ∉ source.toList) (hdc : ':' ∉ destination.toList)
    (hmode : utilValidMountMode destination = false) (hroot : destination ≠ "/")
    (hclean : Path.cleanpath cwd destination.toList = some ['/']) :
    parseVolume cwd (String.ofList (source.toList ++ ':' :: destination.toList)) =
      some ⟨source, "/", ["rw", defaultPropagationMode, "rbind"], "bind"⟩ := by
  have hsne : source ≠ "" := by
    rintro rfl
    cases hs
  have hdne : destination ≠ "" := by
    rintro rfl
    cases hd
  -- the first character is the source's, the last the destination's
  have hcheck : checkVolumeElement (String.ofList (source.toList ++ ':' :: destination.toList)) = 0 := by
    have hlast : destination.toList.getLast? ≠ some ':' := fun h =>
      hdc (List.mem_of_getLast? h)
    have hne : destination.toList ≠ [] := fun h => hdne (String.toList_eq_nil_iff.1 h)
    have hl : (source.toList ++ ':' :: destination.toList).getLast? = destination.toList.getLast? := by
      rw [← List.singleton_append, ← List.append_assoc, List.getLast?_append_of_ne_nil _ hne]
    simp [checkVolumeElement, List.head?_append, hl, hs, hlast]
  have hget : getSrcDstModeByVolume (String.ofList (source.toList ++ ':' :: destination.toList)) =
      .ok (source, destination, []) := by
    unfold getSrcDstModeByVolume
    rw [utilStringSplit_pair hsne hdne hsc hdc]
    simp [hmode, hs, hd, hroot]
  unfold parseVolume
  rw [if_neg (by rw [hcheck]; decide), hget]
  simp only [hclean]
  rfl

/-- `-v /x:/.` mounts onto the root, `-v /a::/b` is `-v /a:/b`, `--mount` takes the destination
`/`, and `src=/a=b` gives the source `/a`. -/
theorem parseVolume_parseMount_accept_root_and_cut_values :
    (parseVolume "/".toList "/x:/.").map DefsMount.destination = some "/" ∧
    parseVolume "/".toList "/a::/b" = some ⟨"/a", "/b", ["rw", "rprivate", "rbind"], "bind"⟩ ∧
    (parseMount "/".toList "type=bind,src=/a,dst=/").map DefsMount.destination = some "/" ∧
    (parseMount "/".toList "type=bind,src=/a=b,dst=/x").map DefsMount.source = some "/a" := by
  decide

end SpecsMount

end Isulad
