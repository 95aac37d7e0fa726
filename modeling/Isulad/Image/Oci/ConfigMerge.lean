import Isulad.Cutils.UtilsString

/-!
# Merging an image's defaults into a container's config (`oci_config_merge.c`)

`oci_image_merge_config` fills a user's `container_config` from the image's config, field by
field: the working directory, the environment, the entrypoint and command, the user, the
labels, and then the health check. `merge_embedded_config` (`embedded_config_merge.c`) does the
working directory, the environment and the entrypoint the same way for embedded images.

What the merge keeps of the user's settings:

* the user (`ociImageMergeConfig_user`), the entrypoint and command by the Docker rule
  (`ociImageMergeConfig_entrypoint`, `ociImageMergeConfig_cmd`) and every health-check field
  the user sets (`ociImageMergeHealthCheck_keeps`) are the user's;
* the user's environment comes first and unchanged, and every image entry with a key of its
  own is added after it (`mergeEnv_spec`);
* but the image's working directory replaces the user's (`ociImageMergeConfig_workingDir`),
  the image's labels replace the user's values of the same keys
  (`ociImageMergeConfig_labels`), and the env loop compares each image entry with the
  container entry at the image entry's own index, not with all of them, so an image entry
  whose key the user set elsewhere is added a second time
  (`ociImageMergeConfig_duplicates_env_key`).
-/

namespace Isulad

namespace ConfigMerge

open Cutils

/-! ## The configs -/

/-- `defs_health_check`. -/
structure DefsHealthCheck where
  test : List String
  interval : Int
  timeout : Int
  startPeriod : Int
  retries : Int
  exitOnUnhealthy : Bool
  deriving DecidableEq, Repr

/-- The fields of `container_config` the merge reads and writes; a `NULL` array is empty. -/
structure ContainerConfig where
  env : List String
  workingDir : Option String
  user : Option String
  labels : Option (List (String × String))
  entrypoint : List String
  cmd : List String
  healthCheck : Option DefsHealthCheck
  deriving DecidableEq, Repr

/-- `oci_image_spec_config`, the image's defaults. -/
structure OciImageSpecConfig where
  env : List String
  workingDir : Option String
  user : Option String
  labels : Option (List (String × String))
  entrypoint : List String
  cmd : List String
  deriving DecidableEq, Repr

/-- `imagetool_image`: `spec->config` (absent when `spec` or `config` is `NULL`) and the
image's health check. -/
structure ImagetoolImage where
  config : Option OciImageSpecConfig
  healthcheck : Option DefsHealthCheck
  deriving DecidableEq, Repr

/-! ## The environment -/

/-- `LIST_ENV_SIZE_MAX`. -/
def listEnvSizeMax : Nat := 200000

/-- `strcmp(im_kv[0], custom_kv[0]) == 0`: the first tokens of the two entries at `=`. -/
def sameEnvKey (a b : String) : Bool :=
  (utilStringSplit a '=').headD "" == (utilStringSplit b '=').headD ""

/-- The inner loop for the image entry at index `i`. It runs `j` over the container env
written so far but splits `container_spec->env[i]` every time: the slot of the image entry's
index, `NULL` (the array comes from `calloc`) when nothing has been written there yet. -/
def mergeEnvFound (imKv : String) (env : List String) (i : Nat) : Bool :=
  (List.range env.length).any fun _ =>
    match env[i]? with
    | none => false
    | some custom => sameEnvKey imKv custom

/-- The outer loop over the image env, appending each entry not found. -/
def mergeEnvLoop : Nat → List String → List String → List String
  | _, [], env => env
  | i, e :: rest, env => mergeEnvLoop (i + 1) rest (if mergeEnvFound e env i then env else env ++ [e])

/-- The body `oci_image_merge_env` and `embedded_merge_env` share, on the image's env and the
container's. The size check is C's `size_t` arithmetic, where `LIST_ENV_SIZE_MAX - env_len`
wraps. -/
def mergeEnv (imageEnv env : List String) : Except String (List String) :=
  if imageEnv = [] then .ok env
  else if imageEnv.length > (listEnvSizeMax + 2 ^ 64 - env.length) % 2 ^ 64 then
    .error s!"The length of envionment variables is too long, the limit is {listEnvSizeMax}"
  else .ok (mergeEnvLoop 0 imageEnv env)

/-- `oci_image_merge_env`. -/
def ociImageMergeEnv (config : OciImageSpecConfig) (spec : ContainerConfig) :
    Except String ContainerConfig :=
  (mergeEnv config.env spec.env).map fun env => { spec with env }

/-! ## The other fields -/

/-- `oci_image_merge_working_dir`: the image's working directory, when it has one, replaces
the container's. -/
def ociImageMergeWorkingDir (workingDir : Option String) (spec : ContainerConfig) :
    ContainerConfig :=
  match workingDir with
  | none => spec
  | some w => { spec with workingDir := some w }

/-- `do_duplicate_commands`. -/
def doDuplicateCommands (config : OciImageSpecConfig) (spec : ContainerConfig) :
    ContainerConfig :=
  if spec.cmd ≠ [] ∨ config.cmd = [] then spec else { spec with cmd := config.cmd }

/-- `do_duplicate_entrypoints`. -/
def doDuplicateEntrypoints (config : OciImageSpecConfig) (spec : ContainerConfig) :
    ContainerConfig :=
  if config.entrypoint = [] then spec else { spec with entrypoint := config.entrypoint }

/-- `oci_image_merge_entrypoint`. -/
def ociImageMergeEntrypoint (config : OciImageSpecConfig) (spec : ContainerConfig) :
    ContainerConfig :=
  if spec.entrypoint ≠ [] then spec
  else doDuplicateEntrypoints config (doDuplicateCommands config spec)

/-- `oci_image_merge_user`. -/
def ociImageMergeUser (user : Option String) (spec : ContainerConfig) : ContainerConfig :=
  if spec.user ≠ none then spec else { spec with user }

/-- `append_json_map_string_string`: the value of the first entry with the key is replaced,
or the pair is added at the end. -/
def appendJsonMapStringString : List (String × String) → String → String → List (String × String)
  | [], key, val => [(key, val)]
  | (k, v) :: rest, key, val =>
    if k = key then (k, val) :: rest else (k, v) :: appendJsonMapStringString rest key val

/-- `oci_image_merge_labels`; `make_sure_container_config_labels` supplies an empty map. -/
def ociImageMergeLabels (config : OciImageSpecConfig) (spec : ContainerConfig) :
    ContainerConfig :=
  match config.labels with
  | none => spec
  | some [] => spec
  | some labels =>
    { spec with
      labels := some (labels.foldl (fun m kv => appendJsonMapStringString m kv.1 kv.2)
        (spec.labels.getD [])) }

/-- One of the four numeric fields of `update_health_check_from_image`: the image's value
when the container leaves it `0`. -/
def healthCheckField (container image : Int) : Int :=
  if container = 0 then image else container

/-- `update_health_check_from_image`. -/
def updateHealthCheckFromImage (image container : DefsHealthCheck) : DefsHealthCheck :=
  { container with
    test := if container.test = [] then image.test else container.test
    interval := healthCheckField container.interval image.interval
    timeout := healthCheckField container.timeout image.timeout
    startPeriod := healthCheckField container.startPeriod image.startPeriod
    retries := healthCheckField container.retries image.retries }

/-- `oci_image_merge_health_check`; without a container health check the image's is copied
whole (`dup_health_check_from_image`). -/
def ociImageMergeHealthCheck (image : Option DefsHealthCheck) (spec : ContainerConfig) :
    Except String ContainerConfig :=
  match image with
  | none => .ok spec
  | some h =>
    if h.test = [] then .error "health check commands required"
    else
      match spec.healthCheck with
      | none => .ok { spec with healthCheck := some h }
      | some c => .ok { spec with healthCheck := some (updateHealthCheckFromImage h c) }

/-- The steps of `oci_image_merge_config` after the environment. -/
def mergeAfterEnv (config : OciImageSpecConfig) (spec : ContainerConfig) : ContainerConfig :=
  ociImageMergeLabels config (ociImageMergeUser config.user (ociImageMergeEntrypoint config spec))

/-- `oci_image_merge_config`. -/
def ociImageMergeConfig (image : ImagetoolImage) (spec : ContainerConfig) :
    Except String ContainerConfig := do
  let spec ← match image.config with
    | none => pure spec
    | some config => do
      let spec ← ociImageMergeEnv config (ociImageMergeWorkingDir config.workingDir spec)
      pure (mergeAfterEnv config spec)
  ociImageMergeHealthCheck image.healthcheck spec

/-! ## Embedded images -/

/-- The part of an embedded manifest's `config` the merge reads. -/
structure EmbeddedConfig where
  env : List String
  workdir : Option String
  entrypoint : Option (List String)
  deriving DecidableEq, Repr

/-- `embedded_merge_env`: the same loop as `oci_image_merge_env`. -/
def embeddedMergeEnv (config : EmbeddedConfig) (spec : ContainerConfig) :
    Except String ContainerConfig :=
  (mergeEnv config.env spec.env).map fun env => { spec with env }

/-- `embedded_merge_entrypoint`. -/
def embeddedMergeEntrypoint (config : EmbeddedConfig) (spec : ContainerConfig) :
    ContainerConfig :=
  match config.entrypoint with
  | some entrypoint => if spec.entrypoint = [] then { spec with entrypoint } else spec
  | none => spec

/-- `merge_embedded_config` on a manifest with a config. -/
def mergeEmbeddedConfig (config : EmbeddedConfig) (spec : ContainerConfig) :
    Except String ContainerConfig := do
  let spec := match config.workdir with
    | some w => { spec with workingDir := some w }
    | none => spec
  let spec ← embeddedMergeEnv config spec
  pure (embeddedMergeEntrypoint config spec)

/-! ## The environment loop -/

/-- An image entry is found only against an entry of the container env written so far. -/
lemma mergeEnvFound_imp {imKv : String} {env : List String} {i : Nat}
    (h : mergeEnvFound imKv env i = true) : ∃ x ∈ env, sameEnvKey imKv x = true := by
  obtain ⟨_, -, hslot⟩ := List.any_eq_true.1 h
  cases hx : env[i]? with
  | none => simp [hx] at hslot
  | some x =>
    simp only [hx] at hslot
    exact ⟨x, List.mem_of_getElem? hx, hslot⟩

/-- The first image entry is compared with the first container entry alone. -/
lemma mergeEnvFound_zero (imKv x : String) (rest : List String) :
    mergeEnvFound imKv (x :: rest) 0 = sameEnvKey imKv x := by
  simp [mergeEnvFound, List.range_succ_eq_map]

/-- A non-empty image env that passes the size check goes through the loop. -/
lemma mergeEnv_cons {e : String} {rest env merged : List String}
    (h : mergeEnv (e :: rest) env = .ok merged) : merged = mergeEnvLoop 0 (e :: rest) env := by
  unfold mergeEnv at h
  rw [if_neg (List.cons_ne_nil e rest)] at h
  split at h
  · cases h
  · cases h
    rfl

/-- The loop keeps the container env as a prefix and adds a sublist of the image env after
it, holding every image entry whose key is neither the container's nor another image
entry's. -/
theorem mergeEnvLoop_spec (image : List String) (i : Nat) (env : List String) :
    ∃ added, mergeEnvLoop i image env = env ++ added ∧ added.Sublist image ∧
      ∀ e ∈ image, (∀ x ∈ env, sameEnvKey e x = false) →
        (∀ x ∈ image, sameEnvKey e x = true → x = e) → e ∈ added := by
  -- induction on the image env, the container env growing with the appended entries
  induction image generalizing i env with
  | nil => exact ⟨[], by simp [mergeEnvLoop], List.Sublist.slnil, by simp⟩
  | cons e rest ih =>
    by_cases hfound : mergeEnvFound e env i = true
    · -- `e` is dropped: by the two hypotheses it is not an entry with a key of its own
      obtain ⟨added, heq, hsub, hmem⟩ := ih (i + 1) env
      refine ⟨added, by simp [mergeEnvLoop, hfound, heq], hsub.cons e, ?_⟩
      intro a ha hfresh huniq
      rcases List.mem_cons.1 ha with rfl | ha
      · obtain ⟨x, hx, hkey⟩ := mergeEnvFound_imp hfound
        simp [hfresh x hx] at hkey
      · exact hmem a ha hfresh fun x hx => huniq x (List.mem_cons_of_mem _ hx)
    · obtain ⟨added, heq, hsub, hmem⟩ := ih (i + 1) (env ++ [e])
      refine ⟨e :: added, by simp [mergeEnvLoop, hfound, heq], hsub.cons_cons e, ?_⟩
      intro a ha hfresh huniq
      rcases List.mem_cons.1 ha with rfl | ha
      · exact List.mem_cons_self
      by_cases hae : a = e
      · exact hae ▸ List.mem_cons_self
      -- a later entry with a key of its own differs from `e` in key
      refine List.mem_cons_of_mem _ (hmem a ha ?_ fun x hx => huniq x (List.mem_cons_of_mem _ hx))
      intro x hx
      rcases List.mem_append.1 hx with hx | hx
      · exact hfresh x hx
      · rw [List.mem_singleton.1 hx]
        cases hkey : sameEnvKey a e with
        | false => rfl
        | true => exact absurd (huniq e List.mem_cons_self hkey).symm hae

/-- `mergeEnv` fails only on the size check; otherwise it is the loop. -/
theorem mergeEnv_spec {image env merged : List String} (h : mergeEnv image env = .ok merged) :
    ∃ added, merged = env ++ added ∧ added.Sublist image ∧
      ∀ e ∈ image, (∀ x ∈ env, sameEnvKey e x = false) →
        (∀ x ∈ image, sameEnvKey e x = true → x = e) → e ∈ added := by
  unfold mergeEnv at h
  split at h
  · -- an empty image env leaves the container's
    cases h
    exact ⟨[], by simp, List.nil_sublist _, by simp_all⟩
  · split at h
    · cases h
    · cases h
      exact mergeEnvLoop_spec image 0 env

/-! ## The merged config -/

lemma ociImageMergeWorkingDir_env (w : Option String) (spec : ContainerConfig) :
    (ociImageMergeWorkingDir w spec).env = spec.env := by
  cases w <;> rfl

lemma ociImageMergeWorkingDir_eq (w : Option String) (spec : ContainerConfig) :
    ociImageMergeWorkingDir w spec = { spec with workingDir := w.or spec.workingDir } := by
  cases w <;> rfl

attribute [local simp] ociImageMergeLabels in
/-- `oci_image_merge_labels` changes the labels only. -/
lemma ociImageMergeLabels_frame (config : OciImageSpecConfig) (spec : ContainerConfig) :
    ∃ l, ociImageMergeLabels config spec = { spec with labels := l } := by
  unfold ociImageMergeLabels
  split
  · exact ⟨spec.labels, rfl⟩
  · exact ⟨spec.labels, rfl⟩
  · exact ⟨_, rfl⟩

lemma ociImageMergeUser_eq (user : Option String) (spec : ContainerConfig) :
    ociImageMergeUser user spec =
      { spec with user := if spec.user = none then user else spec.user } := by
  by_cases h : spec.user = none <;> simp [ociImageMergeUser, h]

/-- The Docker rule: without a user entrypoint the image's entrypoint is taken, and the
image's command too when the user gives none. -/
lemma ociImageMergeEntrypoint_eq (config : OciImageSpecConfig) (spec : ContainerConfig) :
    ociImageMergeEntrypoint config spec =
      { spec with
        entrypoint :=
          if spec.entrypoint = [] ∧ config.entrypoint ≠ [] then config.entrypoint
          else spec.entrypoint
        cmd := if spec.entrypoint = [] ∧ spec.cmd = [] ∧ config.cmd ≠ [] then config.cmd
          else spec.cmd } := by
  obtain ⟨env, workingDir, user, labels, entrypoint, cmd, healthCheck⟩ := spec
  unfold ociImageMergeEntrypoint doDuplicateEntrypoints doDuplicateCommands
  by_cases he : entrypoint = [] <;> by_cases hc : cmd = [] <;>
    by_cases hce : config.entrypoint = [] <;> by_cases hcc : config.cmd = [] <;>
    simp [he, hc, hce, hcc]

/-- `oci_image_merge_health_check` changes the health check only. -/
lemma ociImageMergeHealthCheck_frame {image : Option DefsHealthCheck} {spec M : ContainerConfig}
    (h : ociImageMergeHealthCheck image spec = .ok M) :
    M = { spec with healthCheck := M.healthCheck } := by
  unfold ociImageMergeHealthCheck at h
  split at h
  · cases h
    rfl
  · split at h
    · cases h
    · split at h <;> cases h <;> rfl

/-- A successful merge of an image with a config: the working directory and the env first,
then the other fields, then the health check. -/
theorem ociImageMergeConfig_ok {image : ImagetoolImage} {config : OciImageSpecConfig}
    {spec M : ContainerConfig} (hc : image.config = some config)
    (h : ociImageMergeConfig image spec = .ok M) :
    ∃ env, mergeEnv config.env spec.env = .ok env ∧
      ociImageMergeHealthCheck image.healthcheck
        (mergeAfterEnv config
          { spec with workingDir := config.workingDir.or spec.workingDir, env }) = .ok M := by
  unfold ociImageMergeConfig at h
  rw [hc] at h
  simp only [ociImageMergeEnv, ociImageMergeWorkingDir_env] at h
  cases henv : mergeEnv config.env spec.env with
  | error e =>
    rw [henv] at h
    cases h
  | ok env =>
    rw [henv] at h
    refine ⟨env, rfl, ?_⟩
    rw [← h, ociImageMergeWorkingDir_eq]
    rfl

attribute [local simp] mergeAfterEnv in
/-- The merged config's fields other than the env, the labels and the health check. -/
theorem ociImageMergeConfig_fields {image : ImagetoolImage} {config : OciImageSpecConfig}
    {spec M : ContainerConfig} (hc : image.config = some config)
    (h : ociImageMergeConfig image spec = .ok M) :
    M.workingDir = config.workingDir.or spec.workingDir ∧
      M.user = (if spec.user = none then config.user else spec.user) ∧
      M.entrypoint =
        (if spec.entrypoint = [] ∧ config.entrypoint ≠ [] then config.entrypoint
          else spec.entrypoint) ∧
      M.cmd = (if spec.entrypoint = [] ∧ spec.cmd = [] ∧ config.cmd ≠ [] then config.cmd
          else spec.cmd) := by
  obtain ⟨env, -, hM⟩ := ociImageMergeConfig_ok hc h
  have hframe := ociImageMergeHealthCheck_frame hM
  obtain ⟨l, hl⟩ := ociImageMergeLabels_frame config
    (ociImageMergeUser config.user (ociImageMergeEntrypoint config
      { spec with workingDir := config.workingDir.or spec.workingDir, env }))
  rw [mergeAfterEnv, hl, ociImageMergeUser_eq, ociImageMergeEntrypoint_eq] at hframe
  rw [hframe]
  exact ⟨rfl, rfl, rfl, rfl⟩

/-- After `append_json_map_string_string` the key has the new value and every other key its
old one. -/
lemma lookup_appendJsonMapStringString (m : List (String × String)) (key val k : String) :
    (appendJsonMapStringString m key val).lookup k = if k = key then some val else m.lookup k := by
  induction m with
  | nil => by_cases hk : k = key <;> simp [appendJsonMapStringString, List.lookup, hk]
  | cons kv rest ih =>
    obtain ⟨k', v'⟩ := kv
    by_cases hk' : k' = key
    · subst hk'
      by_cases hk : k = k'
      · subst hk
        simp [appendJsonMapStringString]
      · simp [appendJsonMapStringString, List.lookup, hk, beq_false_of_ne hk]
    · simp only [appendJsonMapStringString, if_neg hk', List.lookup, ih]
      by_cases hk : k = k'
      · subst hk
        simp [hk']
      · simp only [beq_false_of_ne hk]

/-- Merging label after label: the last value the image gives a key wins, and the
container's value stands only for the keys the image leaves alone. -/
lemma lookup_foldl_appendJsonMapStringString (labels m : List (String × String)) (k : String) :
    (labels.foldl (fun m kv => appendJsonMapStringString m kv.1 kv.2) m).lookup k =
      (labels.reverse.lookup k).or (m.lookup k) := by
  -- induction on the image labels, the map they are merged into generalised
  induction labels generalizing m with
  | nil => simp
  | cons kv rest ih =>
    rw [List.foldl_cons, ih, lookup_appendJsonMapStringString, List.reverse_cons,
      List.lookup_append]
    by_cases hk : k = kv.1
    · simp [hk, List.lookup]
    · have hne : (k == kv.1) = false := by simpa using hk
      simp [hk, List.lookup, hne]

/-- `oci_image_merge_labels` on the lookup of a key. -/
lemma lookup_ociImageMergeLabels (config : OciImageSpecConfig) (spec : ContainerConfig)
    (k : String) :
    ((ociImageMergeLabels config spec).labels.getD []).lookup k =
      (((config.labels.getD []).reverse.lookup k).or ((spec.labels.getD []).lookup k)) := by
  rcases hl : config.labels with _ | _ | ⟨kv, labels⟩
  · simp [ociImageMergeLabels, hl]
  · simp [ociImageMergeLabels, hl]
  · simp only [ociImageMergeLabels, hl, Option.getD_some]
    exact lookup_foldl_appendJsonMapStringString (kv :: labels) _ k

/-- The merged labels: the image's value for every key the image sets, the container's for
the others. -/
theorem ociImageMergeConfig_labels {image : ImagetoolImage} {config : OciImageSpecConfig}
    {spec M : ContainerConfig} (hc : image.config = some config)
    (h : ociImageMergeConfig image spec = .ok M) (k : String) :
    (M.labels.getD []).lookup k =
      (((config.labels.getD []).reverse.lookup k).or ((spec.labels.getD []).lookup k)) := by
  obtain ⟨env, -, hM⟩ := ociImageMergeConfig_ok hc h
  rw [ociImageMergeHealthCheck_frame hM]
  dsimp only
  rw [mergeAfterEnv, lookup_ociImageMergeLabels, ociImageMergeUser_eq, ociImageMergeEntrypoint_eq]

/-- Every health-check field the container sets is kept. -/
theorem updateHealthCheckFromImage_keeps (image container : DefsHealthCheck) :
    (container.test ≠ [] → (updateHealthCheckFromImage image container).test = container.test) ∧
      (container.interval ≠ 0 →
        (updateHealthCheckFromImage image container).interval = container.interval) ∧
      (container.timeout ≠ 0 →
        (updateHealthCheckFromImage image container).timeout = container.timeout) ∧
      (container.startPeriod ≠ 0 →
        (updateHealthCheckFromImage image container).startPeriod = container.startPeriod) ∧
      (container.retries ≠ 0 →
        (updateHealthCheckFromImage image container).retries = container.retries) := by
  refine ⟨fun h => ?_, fun h => ?_, fun h => ?_, fun h => ?_, fun h => ?_⟩ <;>
    simp [updateHealthCheckFromImage, healthCheckField, h]

/-- A successful health-check merge keeps the container's health check, with the image's
values only where the container has none. -/
theorem ociImageMergeHealthCheck_keeps {image container : DefsHealthCheck}
    {spec M : ContainerConfig} (hspec : spec.healthCheck = some container)
    (h : ociImageMergeHealthCheck (some image) spec = .ok M) :
    M.healthCheck = some (updateHealthCheckFromImage image container) := by
  unfold ociImageMergeHealthCheck at h
  by_cases ht : image.test = []
  · simp [ht] at h
  · simp only [ht, if_false, hspec] at h
    cases h
    rfl

/-- The user's `B=2` does not keep the image's `B=3` out: the image entry at index 0 is
compared with the user's entry at index 0, `A=1`, only. -/
theorem ociImageMergeConfig_duplicates_env_key :
    (ociImageMergeConfig
        ⟨some ⟨["B=3"], none, none, none, [], []⟩, none⟩
        ⟨["A=1", "B=2"], none, none, none, [], [], none⟩).toOption.map ContainerConfig.env =
      some ["A=1", "B=2", "B=3"] := by
  decide

end ConfigMerge

end Isulad
