import Isulad.Framework.PartialMap
import Mathlib.Data.List.Pairwise

/-!
# The image store and its name index (`oci_images_store.c`)

The daemon keeps the images the image service reports in two maps: the store `g_images_store`
from each id to its image, whose `info` lists its repo tags, and the name index `g_images_ids`
from each repo tag to the id of an image. `image_id_get_by_name` reads the index.

The store is kept as a list of bindings, since `oci_images_store_get_by_prefix` iterates its
ids; the index is a partial function (`PartialMap`). The image service,
`oci_get_image_info_by_name`, is a parameter: what it reports for a name or an id.

`register_new_oci_image` binds the id to the image and each repo tag to the id, with
`map_replace`, which takes a tag from any image that had it. When the images that come in have
fresh ids and pairwise disjoint tags, as at `load_all_oci_images`, the index is the inverse of
the tags the store lists (`loadAllOciImages_consistent`). When the image service has moved a
tag from one stored image to another, `register_new_oci_image_into_memory` takes the tag for
the new image and re-reads the one the name pointed to, but the image that lost the tag keeps
listing it (`registerNewOciImageIntoMemory_keeps_stolen_tag`).
-/

namespace Isulad

namespace ImagesStore

open PartialMap

/-- The fields of `imagetool_image` the store reads. -/
structure ImagetoolImage where
  id : String
  repoTags : List String
  deriving DecidableEq, Repr

/-- The store, id to image, and the name index, repo tag to id. -/
structure Store where
  images : List (String × ImagetoolImage)
  names : String → Option String

/-- The empty store and index of `oci_image_store_init`. -/
def Store.empty : Store := ⟨[], fun _ => none⟩

/-! ## The name index -/

/-- `image_name_id_add`, a `map_replace`. -/
def imageNameIdAdd (st : Store) (name id : String) : Store × Bool :=
  let r := replace st.names name id
  ({ st with names := r.1 }, r.2)

/-- `image_name_id_remove`. -/
def imageNameIdRemove (st : Store) (name : String) : Store × Bool :=
  let r := erase st.names name
  ({ st with names := r.1 }, r.2)

/-- `remove_all_names`: remove every tag, going on past a tag that is not there; fails when
one was not. -/
def removeAllNames (st : Store) : List String → Store × Bool
  | [] => (st, true)
  | name :: rest =>
    let r := imageNameIdRemove st name
    let r' := removeAllNames r.1 rest
    (r'.1, r.2 && r'.2)

/-- The loop of `register_all_names`, with the tags added so far: on a failed add, remove
those and fail. -/
def registerAllNamesLoop (id : String) (st : Store) (added : List String) :
    List String → Store × Bool
  | [] => (st, true)
  | name :: rest =>
    match imageNameIdAdd st name id with
    | (st', true) => registerAllNamesLoop id st' (added ++ [name]) rest
    | (st', false) => (added.foldl (fun s n => (imageNameIdRemove s n).1) st', false)

/-- `register_all_names`. -/
def registerAllNames (st : Store) (info : ImagetoolImage) : Store × Bool :=
  registerAllNamesLoop info.id st [] info.repoTags

/-! ## The store -/

/-- `oci_image_store_add_or_update`: a new image, or the new `info` of the stored one. -/
def ociImageStoreAddOrUpdate (st : Store) (id : String) (info : ImagetoolImage) : Store × Bool :=
  ({ st with images := setList st.images id info }, true)

/-- `oci_images_store_remove`. -/
def ociImagesStoreRemove (st : Store) (id : String) : Store × Bool :=
  ({ st with images := eraseList st.images id }, (ofList st.images id).isSome)

/-- `register_new_oci_image`. -/
def registerNewOciImage (st : Store) (info : ImagetoolImage) : Store × Bool :=
  match ociImageStoreAddOrUpdate st info.id info with
  | (st, false) => (st, false)
  | (st, true) =>
    match registerAllNames st info with
    | (st', true) => (st', true)
    | (st', false) => ((ociImagesStoreRemove st' info.id).1, false)

/-- `oci_images_store_get_by_id`. -/
def ociImagesStoreGetById (st : Store) (id : String) : Option ImagetoolImage := ofList st.images id

/-- `oci_images_store_get_by_name`. -/
def ociImagesStoreGetByName (st : Store) (name : String) : Option ImagetoolImage :=
  (st.names name).bind (ociImagesStoreGetById st)

/-- `oci_images_store_get_by_prefix`: the one image whose id starts with `prefix`. -/
def ociImagesStoreGetByPrefix (st : Store) (pre : String) : Option ImagetoolImage :=
  match st.images.filter fun b => pre.toList.isPrefixOf b.1.toList with
  | [b] => some b.2
  | _ => none

/-- `oci_images_store_get_nolock`: by full id, then by name, then by id prefix. -/
def ociImagesStoreGetNolock (st : Store) (idOrName : String) : Option ImagetoolImage :=
  ((ociImagesStoreGetById st idOrName).orElse fun _ => ociImagesStoreGetByName st idOrName).orElse
    fun _ => ociImagesStoreGetByPrefix st idOrName

/-! ## The operations -/

variable (service : String → Option ImagetoolImage)

/-- `update_old_image_by_id`: an image the service no longer reports is left as it is. -/
def updateOldImageById (st : Store) (id : String) : Store × Bool :=
  match service id with
  | none => (st, true)
  | some info => registerNewOciImage st info

/-- `register_new_oci_image_into_memory(name)`. -/
def registerNewOciImageIntoMemory (st : Store) (name : String) : Store × Bool :=
  match service name with
  | none => (st, false)
  | some info =>
    match ociImagesStoreGetNolock st name with
    | none => registerNewOciImage st info
    | some old =>
      if old.id ≠ info.id then
        match registerNewOciImage st info with
        | (st', false) => (st', false)
        | (st', true) => updateOldImageById service st' old.id
      else (st, true)

/-- `remove_oci_image_from_memory(name_or_id)`. -/
def removeOciImageFromMemory (st : Store) (nameOrId : String) : Store × Bool :=
  match ociImagesStoreGetNolock st nameOrId with
  | none => (st, true)
  | some image =>
    match removeAllNames st image.repoTags with
    | (st', false) => (st', false)
    | (st', true) =>
      match service image.id with
      | none => ociImagesStoreRemove st' image.id
      | some info => registerNewOciImage st' info

/-- The loop of `load_all_oci_images` over the images `try_list_oci_images` reports: stop at
the first that fails. -/
def loadAllOciImages (st : Store) : List ImagetoolImage → Store × Bool
  | [] => (st, true)
  | info :: rest =>
    match registerNewOciImage st info with
    | (st', true) => loadAllOciImages st' rest
    | (st', false) => (st', false)

/-! ## Registering an image -/

/-- The name index gives each tag the stored image that lists it. -/
def Consistent (st : Store) : Prop :=
  ∀ n i, st.names n = some i ↔ ∃ info, ofList st.images i = some info ∧ n ∈ info.repoTags

attribute [local simp] registerAllNamesLoop in
/-- `map_replace` does not fail, so `register_all_names` binds every tag to the id. -/
lemma registerAllNamesLoop_eq (id : String) (tags : List String) (st : Store)
    (added : List String) :
    registerAllNamesLoop id st added tags =
      ({ st with names := fun n => if n ∈ tags then some id else st.names n }, true) := by
  induction tags generalizing st added with
  | nil => rfl
  | cons name rest ih =>
    simp only [registerAllNamesLoop, imageNameIdAdd, replace]
    rw [ih]
    congr
    funext n
    by_cases hn : n = name
    · subst hn
      simp
    · simp [hn]

/-- `register_new_oci_image` binds the id to the image and every tag to the id. -/
lemma registerNewOciImage_eq (st : Store) (info : ImagetoolImage) :
    registerNewOciImage st info =
      (⟨setList st.images info.id info,
        fun n => if n ∈ info.repoTags then some info.id else st.names n⟩, true) := by
  simp only [registerNewOciImage, ociImageStoreAddOrUpdate, registerAllNames,
    registerAllNamesLoop_eq]

/-- The step lemma: registering an image with a fresh id and fresh tags keeps the index
consistent. -/
theorem consistent_registerNewOciImage {st : Store} (h : Consistent st) {info : ImagetoolImage}
    (hid : ofList st.images info.id = none) (htags : ∀ n ∈ info.repoTags, st.names n = none) :
    Consistent (registerNewOciImage st info).1 := by
  rw [registerNewOciImage_eq]
  intro n i
  dsimp only
  rw [ofList_setList]
  by_cases hn : n ∈ info.repoTags
  · rw [if_pos hn, Option.some.injEq]
    by_cases hi : i = info.id
    · subst hi
      simp [hn]
    · rw [Function.update_of_ne hi]
      -- another image listing a fresh tag would be in the index already
      refine ⟨fun e => absurd e.symm hi, fun hex => ?_⟩
      have := (h n i).2 hex
      rw [htags n hn] at this
      exact absurd this (by simp)
  · rw [if_neg hn]
    by_cases hi : i = info.id
    · subst hi
      simp only [Function.update_self, Option.some.injEq, exists_eq_left', hn, iff_false]
      -- the fresh id is in the index under no tag
      intro e
      obtain ⟨inf, hinf, -⟩ := (h n info.id).1 e
      rw [hid] at hinf
      exact absurd hinf (by simp)
    · rw [Function.update_of_ne hi]
      exact h n i

/-- The run lemma of `load_all_oci_images`: images with fresh, pairwise distinct ids and
pairwise disjoint tags are all registered, and the index stays consistent. -/
theorem loadAllOciImages_consistent_of {st : Store} (h : Consistent st) {infos : List ImagetoolImage}
    (hfresh : ∀ info ∈ infos, ofList st.images info.id = none ∧
      ∀ n ∈ info.repoTags, st.names n = none)
    (hpair : infos.Pairwise fun a b => a.id ≠ b.id ∧ ∀ n ∈ a.repoTags, n ∉ b.repoTags) :
    Consistent (loadAllOciImages st infos).1 ∧ (loadAllOciImages st infos).2 = true := by
  induction infos generalizing st with
  | nil => exact ⟨h, rfl⟩
  | cons info rest ih =>
    obtain ⟨hid, htags⟩ := hfresh info List.mem_cons_self
    have hstep := consistent_registerNewOciImage h hid htags
    rw [List.pairwise_cons] at hpair
    simp only [loadAllOciImages, registerNewOciImage_eq] at hstep ⊢
    refine ih hstep (fun b hb => ?_) hpair.2
    obtain ⟨hne, hdisj⟩ := hpair.1 b hb
    obtain ⟨hbid, hbtags⟩ := hfresh b (List.mem_cons_of_mem _ hb)
    refine ⟨?_, fun n hn => ?_⟩
    · rw [ofList_setList, Function.update_of_ne (Ne.symm hne), hbid]
    · have hn' : n ∉ info.repoTags := fun h' => hdisj n h' hn
      simp [hn', hbtags n hn]

/-- `load_all_oci_images` on a fresh store, when the service reports distinct ids and no tag
twice. -/
theorem loadAllOciImages_consistent {infos : List ImagetoolImage}
    (hpair : infos.Pairwise fun a b => a.id ≠ b.id ∧ ∀ n ∈ a.repoTags, n ∉ b.repoTags) :
    Consistent (loadAllOciImages Store.empty infos).1 ∧
      (loadAllOciImages Store.empty infos).2 = true :=
  loadAllOciImages_consistent_of (fun _ _ => by simp [Store.empty, ofList])
    (fun _ _ => ⟨rfl, fun _ _ => rfl⟩) hpair

/-! ## A tag moved to another image -/

/-- The service's report at start: `x` tagged `a`, `z` tagged `b`. -/
def imagesAtLoad : List ImagetoolImage := [⟨"x", ["a"]⟩, ⟨"z", ["b"]⟩]

/-- The service later: a new image `y` has both tags, `x` and `z` none. -/
def serviceAfterTag (name : String) : Option ImagetoolImage :=
  if name = "a" ∨ name = "b" ∨ name = "y" then some ⟨"y", ["a", "b"]⟩
  else if name = "x" then some ⟨"x", []⟩
  else if name = "z" then some ⟨"z", []⟩
  else none

/-- `register_new_oci_image_into_memory("a")` after the tags moved. -/
def registerAfterTag : Store × Bool :=
  registerNewOciImageIntoMemory serviceAfterTag (loadAllOciImages Store.empty imagesAtLoad).1 "a"

/-- From a consistent store, the call succeeds: the index gives `b` to `y`, and `x` is re-read
without tags, but `z`, which the name `a` did not lead to, still lists `b`. -/
theorem registerNewOciImageIntoMemory_keeps_stolen_tag :
    Consistent (loadAllOciImages Store.empty imagesAtLoad).1 ∧ registerAfterTag.2 = true ∧
      registerAfterTag.1.names "b" = some "y" ∧
      ofList registerAfterTag.1.images "z" = some ⟨"z", ["b"]⟩ ∧
      ¬ Consistent registerAfterTag.1 := by
  have hb : registerAfterTag.1.names "b" = some "y" := by decide
  have hz : ofList registerAfterTag.1.images "z" = some ⟨"z", ["b"]⟩ := by decide
  refine ⟨(loadAllOciImages_consistent (by decide)).1, by decide, hb, hz, fun hc => ?_⟩
  -- `z` lists `b`, so a consistent index would give `b` to `z`
  have hzb := (hc "b" "z").2 ⟨_, hz, by decide⟩
  rw [hb] at hzb
  exact absurd hzb (by decide)

end ImagesStore

end Isulad
