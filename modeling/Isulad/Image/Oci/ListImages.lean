import Isulad.Cutils.UtilsString
import Isulad.Filters
import Isulad.Path

/-!
# Listing images through filters (`oci_common_operators.c`)

`oci_list_images` keeps the stored images that pass `image_meet_filters`, the conjunction of
five tests, one per filter field, each of which passes when its field is not set:

* `dangling`: no repo tag when some value is `true`, a repo tag otherwise;
* `before` and `since`: created before the earliest, after the latest of the named images;
* `label`: some value of the field is the key of one of the image's labels;
* `reference`: some repo tag, as stored (`docker.io/library/...`), matches some value.

Then the repo tags are shown with `docker.io/` and `library/` stripped.

The label test is any-of and compares whole values with keys
(`imageMeetLabelFilter_iff`), where the container list's `filters_args_match_kv_list` is all-of
and splits `k=v` (`Filters.filtersArgsMatchKvList_iff`): a `k=v` filter never matches an image
(`ociListImages_drops_label_kv`), and `a` with `b` lets through an image with the label `a`
only.

`oci_normalize_image_name` adds `docker.io/` when the first `/`-separated part names no
registry (no `.` or `:`, not `localhost`) or there is no `/`, `library/` only when there is no
`/`, and `:latest` when the last part has no `:`. What it returns needs neither addition again, so
it is idempotent (`ociNormalizeImageName_idempotent`). The name shown for a stored reference,
with `docker.io/library/` or `docker.io/` stripped, resolves back to it for a name without `/`
(`ociNormalizeImageName_strip_of_no_slash`), but not for `docker.io/library/a/b:1` or
`docker.io/localhost/x:1` (`ociStripDockerioPrefix_breaks_roundTrip`).
-/

namespace Isulad

namespace ListImages

open Cutils Filters

/-- The fields of `imagetool_image` the filters read: the repo tags, the creation time as
`to_unix_nanos_from_str` reads it (`none` where that fails) and the config's labels (`none`
without a config or labels). -/
structure ImagetoolImage where
  id : String
  repoTags : List String
  created : Option Int
  labels : Option (List (String × String))
  deriving DecidableEq, Repr

/-- The image store the time filters look names up in: `oci_resolve_image_name` (`none` where
it fails) and `oci_images_store_get`. -/
structure ImageStore where
  images : List ImagetoolImage
  resolve : String → Option String
  get : String → Option ImagetoolImage

/-- `INT64_MAX`. -/
def int64Max : Int := 2 ^ 63 - 1

/-- `image_meet_dangling_filter`. -/
def imageMeetDanglingFilter (src : ImagetoolImage) (filters : FiltersArgs) : Bool :=
  match filters.search "dangling" with
  | none => true
  | some values =>
    if values.any (· = "true") then src.repoTags.length = 0 else src.repoTags.length ≠ 0

/-- `do_image_time_filter` on one named image: the bound moved to that image's creation time
when it is earlier (`before`) or later (`since`); `none` is its `-1`, an image not in the
store or with a creation time that does not parse. A name that does not resolve leaves the
bound alone. -/
def doImageTimeFilter (store : ImageStore) (isBeforeFilter : Bool) (cmpNanos : Int)
    (name : String) : Option Int :=
  match store.resolve name with
  | none => some cmpNanos
  | some tmp =>
    match store.get tmp with
    | none => none
    | some imageInfo =>
      match imageInfo.created with
      | none => none
      | some tmpNanos =>
        if isBeforeFilter then some (if cmpNanos > tmpNanos then tmpNanos else cmpNanos)
        else some (if cmpNanos < tmpNanos then tmpNanos else cmpNanos)

/-- The loop of `image_time_filter` over the named images. -/
def imageTimeBound (store : ImageStore) (isBeforeFilter : Bool) :
    Int → List String → Option Int
  | cmpNanos, [] => some cmpNanos
  | cmpNanos, name :: rest =>
    match doImageTimeFilter store isBeforeFilter cmpNanos name with
    | none => none
    | some cmpNanos => imageTimeBound store isBeforeFilter cmpNanos rest

/-- `image_time_filter(src, filters, field)`. -/
def imageTimeFilter (store : ImageStore) (src : ImagetoolImage) (filters : FiltersArgs)
    (field : String) : Bool :=
  let isBeforeFilter := field = "before"
  match filters.search field with
  | none => true
  | some values =>
    match imageTimeBound store isBeforeFilter (if isBeforeFilter then int64Max else 0) values,
      src.created with
    | some cmpNanos, some tmpNanos =>
      if isBeforeFilter then tmpNanos < cmpNanos else tmpNanos > cmpNanos
    | _, _ => false

/-- `image_meet_label_filter`. -/
def imageMeetLabelFilter (src : ImagetoolImage) (filters : FiltersArgs) : Bool :=
  match filters.search "label" with
  | none => true
  | some values =>
    match src.labels with
    | none => false
    | some labels => values.any fun tmpKey => labels.any fun l => l.1 = tmpKey

/-- `image_meet_reference_filter`. -/
def imageMeetReferenceFilter (regMatch : String → String → Bool) (src : ImagetoolImage)
    (filters : FiltersArgs) : Bool :=
  match filters.search "reference" with
  | none => true
  | some _ => src.repoTags.any fun tag => filtersArgsMatch regMatch filters "reference" tag

/-- `image_meet_filters`. -/
def imageMeetFilters (regMatch : String → String → Bool) (store : ImageStore)
    (src : ImagetoolImage) (filters : FiltersArgs) : Bool :=
  imageMeetDanglingFilter src filters && imageTimeFilter store src filters "before" &&
    imageTimeFilter store src filters "since" && imageMeetLabelFilter src filters &&
    imageMeetReferenceFilter regMatch src filters

/-- `oci_strip_dockerio_prefix`. -/
def ociStripDockerioPrefix (name : String) : String :=
  let repoPrefix := "docker.io/" ++ "library/"
  if repoPrefix.toList.isPrefixOf name.toList ∧ name.length > repoPrefix.length then
    String.ofList (name.toList.drop repoPrefix.length)
  else if "docker.io/".toList.isPrefixOf name.toList ∧ name.length > "docker.io/".length then
    String.ofList (name.toList.drop "docker.io/".length)
  else name

/-- `oci_strip_dockerio` on the repo tags. -/
def ociStripDockerio (image : ImagetoolImage) : ImagetoolImage :=
  { image with repoTags := image.repoTags.map ociStripDockerioPrefix }

/-- `oci_list_images_by_filters` followed by `oci_strip_all_dockerios`. -/
def ociListImages (regMatch : String → String → Bool) (store : ImageStore)
    (filters : FiltersArgs) : List ImagetoolImage :=
  (store.images.filter fun i => imageMeetFilters regMatch store i filters).map ociStripDockerio

/-- The image label test is any-of, and compares each whole value with the label keys. -/
theorem imageMeetLabelFilter_iff {src : ImagetoolImage} {filters : FiltersArgs}
    {values : List String} (hvalues : filters.search "label" = some values)
    {labels : List (String × String)} (hlabels : src.labels = some labels) :
    imageMeetLabelFilter src filters = true ↔ ∃ v ∈ values, ∃ l ∈ labels, l.1 = v := by
  simp [imageMeetLabelFilter, hvalues, hlabels]

/-- An image with the label `k=v` and the filter `label=k=v`: the container list's test keeps
it, the image list drops it. -/
theorem ociListImages_drops_label_kv :
    filtersArgsMatchKvList [("label", ["k=v"])] "label" (some [("k", "v")]) = true ∧
      ociListImages (fun _ _ => false)
        ⟨[⟨"sha256:0a", ["docker.io/library/busybox:latest"], some 0, some [("k", "v")]⟩],
          fun _ => none, fun _ => none⟩
        [("label", ["k=v"])] = [] := by
  constructor <;> decide

/-! ## Normalising image names -/

/-- `DEFAULT_TAG`, `DEFAULT_HOSTNAME` and `DEFAULT_REPO_PREFIX`. -/
def defaultTag : String := ":latest"
def defaultHostname : String := "docker.io/"
def defaultRepoPrefix : String := "library/"

/-- `strings_contains_any(str, substr)`: some character of `str` is one of `substr`. -/
def stringsContainsAny (str substr : String) : Bool :=
  str.toList.any fun c => substr.toList.contains c

/-- `get_last_part(parts)`. -/
def getLastPart (parts : List String) : Option String := parts.getLast?

/-- The test for `DEFAULT_HOSTNAME` in `oci_normalize_image_name`: the first part names no
registry (it has no `.` or `:` and is not `localhost`), or the name has no `/`. -/
def addsDockerio (name : String) (parts : List String) : Bool :=
  (match parts with
    | part :: _ => !stringsContainsAny part ".:" && part != "localhost"
    | [] => false) || !name.toList.contains '/'

/-- The test for `DEFAULT_TAG`: the last part has no `:`. -/
def addsDefaultTag (parts : List String) : Bool :=
  match getLastPart parts with
  | some lastPart => !lastPart.toList.contains ':'
  | none => false

/-- `oci_normalize_image_name(name)`: `none` when the result does not fit `PATH_MAX`. -/
def ociNormalizeImageName (name : String) : Option String :=
  let parts := utilStringSplit name '/'
  let addDockerio := if addsDockerio name parts then defaultHostname else ""
  let addLibrary :=
    if addDockerio.length != 0 && !name.toList.contains '/' then defaultRepoPrefix else ""
  let addDefaultTag := if addsDefaultTag parts then defaultTag else ""
  let temp := addDockerio ++ addLibrary ++ name ++ addDefaultTag
  if temp.length ≥ Path.pathMax then none else some temp

/-- A first part that names a registry: it has a `.` or a `:`, or is `localhost`. -/
def RegistryPart (part : List Char) : Prop :=
  '.' ∈ part ∨ ':' ∈ part ∨ part = "localhost".toList

attribute [local simp] stringsContainsAny in
lemma stringsContainsAny_dotColon (t : List Char) :
    stringsContainsAny (String.ofList t) ".:" = true ↔ '.' ∈ t ∨ ':' ∈ t := by
  have hset : ".:".toList = ['.', ':'] := rfl
  simp only [stringsContainsAny, String.toList_ofList, hset, List.any_eq_true, List.contains_cons,
    List.contains_nil]
  constructor
  · rintro ⟨c, hc, hdot⟩
    simp at hdot
    rcases hdot with rfl | rfl
    · exact Or.inl hc
    · exact Or.inr hc
  · rintro (h | h)
    · exact ⟨'.', h, by simp⟩
    · exact ⟨':', h, by simp⟩

lemma ofList_eq_localhost_iff (t : List Char) :
    String.ofList t = "localhost" ↔ t = "localhost".toList := by
  constructor
  · intro h
    rw [← h, String.toList_ofList]
  · rintro rfl
    exact String.ofList_toList

attribute [local simp] addsDockerio in
/-- The name needs no `DEFAULT_HOSTNAME` exactly when it has a `/` and its first token names a
registry. -/
lemma addsDockerio_eq_false_iff (name : String) :
    addsDockerio name (utilStringSplit name '/') = false ↔
      '/' ∈ name.toList ∧ ∃ f ∈ (strtokTokens '/' name.toList).head?, RegistryPart f := by
  rw [utilStringSplit_eq_tokens]
  cases htok : strtokTokens '/' name.toList with
  | nil =>
    simp [addsDockerio, stringsContainsAny]
  | cons t ts =>
    rw [if_neg (List.cons_ne_nil t ts)]
    simp only [addsDockerio, List.map_cons, Bool.or_eq_false_iff, Bool.and_eq_false_iff,
      bne_eq_false_iff_eq, stringsContainsAny_dotColon, ofList_eq_localhost_iff,
      Bool.not_eq_eq_eq_not, Bool.not_false, List.contains_iff_mem, List.head?_cons,
      Option.mem_def, Option.some.injEq, exists_eq_left', RegistryPart]
    constructor
    · rintro ⟨h1, h2⟩
      exact ⟨h2, by tauto⟩
    · rintro ⟨h1, h2⟩
      exact ⟨by tauto, h1⟩

/-- The name needs no `DEFAULT_TAG` exactly when its last token has a `:`. -/
lemma addsDefaultTag_eq_false_iff (name : String) :
    addsDefaultTag (utilStringSplit name '/') = false ↔
      ∃ l ∈ (strtokTokens '/' name.toList).getLast?, ':' ∈ l := by
  rw [utilStringSplit_eq_tokens]
  cases htok : strtokTokens '/' name.toList with
  | nil => simp [addsDefaultTag, getLastPart]
  | cons t ts =>
    rw [if_neg (List.cons_ne_nil t ts), addsDefaultTag, getLastPart, List.getLast?_map,
      List.getLast?_eq_some_getLast (List.cons_ne_nil t ts)]
    simp

/-- `:latest` ends the last token of whatever it is added to. -/
lemma lastToken_append_tag (x : List Char) :
    ∃ l ∈ (strtokTokens '/' (x ++ defaultTag.toList)).getLast?, ':' ∈ l := by
  obtain ⟨init, last, -, htok⟩ :=
    @strtokTokens_append_of_not_mem '/' defaultTag.toList (by decide) (by decide) x
  refine ⟨last ++ defaultTag.toList, ?_, ?_⟩
  · rw [htok, List.getLast?_append_of_ne_nil _ (List.cons_ne_nil _ _)]
    rfl
  · exact List.mem_append_right _ (by decide)

/-- Adding `:latest` keeps a first token that names a registry, or makes one. -/
lemma firstToken_append_tag {x f : List Char} (hf : (strtokTokens '/' x).head? = some f)
    (hreg : RegistryPart f) :
    ∃ g ∈ (strtokTokens '/' (x ++ defaultTag.toList)).head?, RegistryPart g := by
  obtain ⟨init, last, hx, htok⟩ :=
    @strtokTokens_append_of_not_mem '/' defaultTag.toList (by decide) (by decide) x
  rw [htok]
  cases hinit : init.filter (fun f => f ≠ []) with
  | nil =>
    -- the tag lands in the first token
    refine ⟨last ++ defaultTag.toList, rfl, Or.inr (Or.inl ?_)⟩
    exact List.mem_append_right _ (by decide)
  | cons g gs =>
    rw [hx, hinit, List.cons_append, List.head?_cons, Option.some.injEq] at hf
    exact ⟨g, rfl, hf ▸ hreg⟩

/-- The tokens after a prefix that ends in `/` are those of the prefix, then the rest's. -/
lemma strtokTokens_after_slash {pre p : List Char} (hpre : pre = p ++ ['/']) (y : List Char) :
    strtokTokens '/' (pre ++ y) = strtokTokens '/' p ++ strtokTokens '/' y := by
  rw [hpre, List.append_assoc, List.singleton_append, strtokTokens_append_sep]

/-- A name that needs neither a registry nor a tag normalises to itself. -/
lemma ociNormalizeImageName_of_normal {n : String} (hd : addsDockerio n (utilStringSplit n '/') = false)
    (ht : addsDefaultTag (utilStringSplit n '/') = false) (hlen : n.length < Path.pathMax) :
    ociNormalizeImageName n = some n := by
  unfold ociNormalizeImageName
  simp [hd, ht, hlen]

/-- The shape of a normalised name: `r` after a prefix, then a tag. The prefix is empty when
`r` needs no registry, and otherwise ends in `/` after tokens that start with `docker.io`; the tag
is `:latest`, or nothing when `r` needs none. -/
lemma ociNormalizeImageName_shape {r n : String} (h : ociNormalizeImageName r = some n) :
    ∃ pre tag : List Char, n.toList = pre ++ r.toList ++ tag ∧ n.length < Path.pathMax ∧
      ((pre = [] ∧ addsDockerio r (utilStringSplit r '/') = false) ∨
        ∃ p, pre = p ++ ['/'] ∧ (strtokTokens '/' p).head? = some "docker.io".toList) ∧
      ((tag = [] ∧ addsDefaultTag (utilStringSplit r '/') = false) ∨ tag = defaultTag.toList) := by
  unfold ociNormalizeImageName at h
  dsimp only at h
  generalize hH : (if addsDockerio r (utilStringSplit r '/') then defaultHostname else "") = H at h
  generalize hL : (if (H.length != 0 && !r.toList.contains '/') = true then defaultRepoPrefix
    else "") = L at h
  generalize hT : (if addsDefaultTag (utilStringSplit r '/') then defaultTag else "") = T at h
  have hn : H ++ L ++ r ++ T = n ∧ n.length < Path.pathMax := by
    split at h
    · cases h
    · cases h
      exact ⟨rfl, by omega⟩
  refine ⟨H.toList ++ L.toList, T.toList, by rw [← hn.1]; simp, hn.2, ?_, ?_⟩
  · by_cases hd : addsDockerio r (utilStringSplit r '/') = true
    · -- `docker.io/`, then `library/` or nothing
      right
      rw [if_pos hd] at hH
      subst hH
      split at hL
      · subst hL
        exact ⟨"docker.io/library".toList, by decide, by decide⟩
      · subst hL
        exact ⟨"docker.io".toList, by decide, by decide⟩
    · left
      rw [if_neg hd] at hH
      subst hH
      rw [if_neg (by simp)] at hL
      subst hL
      exact ⟨rfl, by simpa using hd⟩
  · by_cases ht : addsDefaultTag (utilStringSplit r '/') = true
    · right
      rw [if_pos ht] at hT
      rw [← hT]
    · left
      rw [if_neg ht] at hT
      subst hT
      exact ⟨rfl, by simpa using ht⟩

/-- A normalised name needs neither a registry nor a tag. -/
theorem ociNormalizeImageName_normal {r n : String} (h : ociNormalizeImageName r = some n) :
    addsDockerio n (utilStringSplit n '/') = false ∧
      addsDefaultTag (utilStringSplit n '/') = false := by
  obtain ⟨pre, tag, hn, -, hpre, htag⟩ := ociNormalizeImageName_shape h
  constructor
  · rw [addsDockerio_eq_false_iff, hn]
    rcases hpre with ⟨rfl, hd⟩ | ⟨p, rfl, hp⟩
    · -- no prefix: `r` names a registry, and the tag keeps that token or makes one that does
      obtain ⟨hslash, f, hf, hreg⟩ := (addsDockerio_eq_false_iff r).1 hd
      refine ⟨List.mem_append_left _ (by simpa using hslash), ?_⟩
      rcases htag with ⟨rfl, -⟩ | rfl
      · exact ⟨f, by simpa using hf, hreg⟩
      · simpa using firstToken_append_tag hf hreg
    · refine ⟨by simp, "docker.io".toList, ?_, Or.inl (by decide)⟩
      rw [List.append_assoc (p ++ ['/']), strtokTokens_after_slash rfl, List.head?_append, hp]
      rfl
  · rw [addsDefaultTag_eq_false_iff, hn]
    rcases htag with ⟨rfl, ht⟩ | rfl
    · obtain ⟨l, hl, hcolon⟩ := (addsDefaultTag_eq_false_iff r).1 ht
      have hne : strtokTokens '/' r.toList ≠ [] := by
        intro h0
        rw [h0] at hl
        cases hl
      refine ⟨l, ?_, hcolon⟩
      rcases hpre with ⟨rfl, -⟩ | ⟨p, rfl, -⟩
      · simpa using hl
      · rw [List.append_nil, strtokTokens_after_slash rfl, List.getLast?_append_of_ne_nil _ hne]
        exact hl
    · exact lastToken_append_tag _

/-- `oci_normalize_image_name` is idempotent. -/
theorem ociNormalizeImageName_idempotent {r n : String} (h : ociNormalizeImageName r = some n) :
    ociNormalizeImageName n = some n := by
  obtain ⟨hd, ht⟩ := ociNormalizeImageName_normal h
  obtain ⟨-, -, -, hlen, -⟩ := ociNormalizeImageName_shape h
  exact ociNormalizeImageName_of_normal hd ht hlen

attribute [local simp] defaultHostname in
/-- A name without `/` is an official image of Docker Hub: it gets both prefixes. -/
lemma ociNormalizeImageName_of_no_slash {r : String} (hs : '/' ∉ r.toList) :
    ociNormalizeImageName r =
      if (defaultHostname ++ defaultRepoPrefix ++ r ++
          (if addsDefaultTag (utilStringSplit r '/') then defaultTag else "")).length ≥ Path.pathMax
      then none
      else some (defaultHostname ++ defaultRepoPrefix ++ r ++
        (if addsDefaultTag (utilStringSplit r '/') then defaultTag else "")) := by
  have hd : addsDockerio r (utilStringSplit r '/') = true := by
    simp [addsDockerio, hs]
  unfold ociNormalizeImageName
  simp [hd, hs, defaultHostname]

lemma ociStripDockerioPrefix_library {x : String} (hx : x ≠ "") :
    ociStripDockerioPrefix (defaultHostname ++ defaultRepoPrefix ++ x) = x := by
  have hpre : ("docker.io/" ++ "library/").toList.isPrefixOf
      (defaultHostname ++ defaultRepoPrefix ++ x).toList = true := by
    rw [List.isPrefixOf_iff_prefix, String.toList_append, String.toList_append]
    exact List.prefix_append _ _
  have hlen : (defaultHostname ++ defaultRepoPrefix ++ x).length > ("docker.io/" ++ "library/").length := by
    have hx' : x.toList ≠ [] := fun h => hx (String.toList_inj.1 (h.trans String.toList_empty.symm))
    have : 0 < x.length := by
      rw [← String.length_toList]
      exact List.length_pos_iff.2 hx'
    simp only [String.length_append, defaultHostname, defaultRepoPrefix]
    omega
  unfold ociStripDockerioPrefix
  rw [if_pos ⟨hpre, hlen⟩, String.toList_append, String.toList_append]
  rw [show ("docker.io/" ++ "library/").length = (defaultHostname.toList ++ defaultRepoPrefix.toList).length from rfl,
    List.drop_left, String.ofList_toList]

/-- For a name without `/`, the name shown resolves back to the stored one. -/
theorem ociNormalizeImageName_strip_of_no_slash {r n : String} (hs : '/' ∉ r.toList)
    (h : ociNormalizeImageName r = some n) :
    ociNormalizeImageName (ociStripDockerioPrefix n) = some n := by
  rw [ociNormalizeImageName_of_no_slash hs] at h
  generalize hT : (if addsDefaultTag (utilStringSplit r '/') then defaultTag else "") = T at h
  split at h
  · cases h
  · rename_i hlen
    cases h
    -- the name shown is `r` with its tag: one token, with a `:`
    have hTs : '/' ∉ T.toList := by
      split at hT <;> subst hT <;> decide
    have hrT : '/' ∉ (r ++ T).toList := by
      rw [String.toList_append, List.mem_append]
      rintro (h | h)
      · exact hs h
      · exact hTs h
    have htok : strtokTokens '/' (r ++ T).toList = [(r ++ T).toList] ∧ ':' ∈ (r ++ T).toList := by
      split at hT
      · subst hT
        have hcolon : ':' ∈ (r ++ defaultTag).toList := by
          rw [String.toList_append]
          exact List.mem_append_right _ (by decide)
        exact ⟨strtokTokens_of_not_mem hrT (List.ne_nil_of_mem hcolon), hcolon⟩
      · rename_i ht
        subst hT
        -- `r` itself ends in a token with a `:`, and is that token
        obtain ⟨l, hl, hcolon⟩ := (addsDefaultTag_eq_false_iff r).1 (by simpa using ht)
        have hr : r.toList ≠ [] := by
          intro h0
          rw [h0] at hl
          cases hl
        rw [strtokTokens_of_not_mem hs hr] at hl
        cases hl
        rw [String.append_empty]
        exact ⟨strtokTokens_of_not_mem hs hr, hcolon⟩
    have hne : r ++ T ≠ "" := by
      intro h0
      rw [h0] at htok
      cases htok.1
    have htag : addsDefaultTag (utilStringSplit (r ++ T) '/') = false := by
      rw [addsDefaultTag_eq_false_iff, htok.1]
      exact ⟨_, rfl, htok.2⟩
    rw [show defaultHostname ++ defaultRepoPrefix ++ r ++ T =
        defaultHostname ++ defaultRepoPrefix ++ (r ++ T) from String.append_assoc, ociStripDockerioPrefix_library hne,
      ociNormalizeImageName_of_no_slash hrT, htag]
    simp only [Bool.false_eq_true, if_false, String.append_empty]
    rw [if_neg (by rwa [String.append_assoc] at hlen)]

/-- The name shown for a stored `docker.io/library/a/b:1` is `a/b:1`, which resolves to
`docker.io/a/b:1`; the one shown for `docker.io/localhost/x:1` is `localhost/x:1`, which
resolves to itself. -/
theorem ociStripDockerioPrefix_breaks_roundTrip :
    ociNormalizeImageName "docker.io/library/a/b:1" = some "docker.io/library/a/b:1" ∧
    ociStripDockerioPrefix "docker.io/library/a/b:1" = "a/b:1" ∧
    ociNormalizeImageName "a/b:1" = some "docker.io/a/b:1" ∧
    ociNormalizeImageName "docker.io/localhost/x:1" = some "docker.io/localhost/x:1" ∧
    ociStripDockerioPrefix "docker.io/localhost/x:1" = "localhost/x:1" ∧
    ociNormalizeImageName "localhost/x:1" = some "localhost/x:1" := by
  refine ⟨by decide, by decide, by decide, by decide, by decide, by decide⟩

end ListImages

end Isulad
