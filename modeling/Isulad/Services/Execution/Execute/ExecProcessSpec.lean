import Isulad.Framework.Fallible
import Isulad.Image.Oci.ConfigMerge

/-!
# The process of `isula exec` (`make_exec_process_spec`, `execution_stream.c`)

`make_exec_process_spec` builds the `defs_process` an exec runs. For a runtime other than `lcr`
its environment is the container's env, then the request's, then the defaults of
`append_necessary_process_env`: `PATH`, `HOSTNAME` when the container has a host name and
`TERM=xterm` for a terminal. The defaults are appended by `do_append_process_exec_env`, whose
loop is the one of `oci_image_merge_env`: each default is compared with the entry at the
default's own index only.

What the code gives:

* the container's and the request's entries come first, all of them and unchanged, and every
  default whose key neither sets is added once (`makeExecProcessSpec_env`);
* but nothing is replaced: an entry of the request with the key of a container entry stands
  beside it, and `PATH` is added whenever the first entry is not a `PATH` entry, however many
  `PATH` entries come after it (`makeExecProcessSpec_appends_path`).
-/

namespace Isulad

namespace ExecProcessSpec

open Cutils ConfigMerge

/-- `MAX_HOST_NAME_LEN`. -/
def maxHostNameLen : Nat := 64

/-- The fields of `container_config` an exec reads; a `NULL` array is empty. -/
structure ContainerConfig where
  env : List String
  hostname : Option String
  workingDir : Option String
  deriving DecidableEq, Repr

/-- The fields of `container_exec_request` the process spec reads. -/
structure ContainerExecRequest where
  env : List String
  argv : List String
  tty : Bool
  deriving DecidableEq, Repr

/-- `defs_process_user`. -/
structure DefsProcessUser where
  username : Option String
  uid : Nat
  gid : Nat
  additionalGids : List Nat
  deriving DecidableEq, Repr

/-- The fields of `defs_process` that `make_exec_process_spec` sets. -/
structure DefsProcess where
  env : List String
  args : List String
  user : Option DefsProcessUser
  terminal : Bool
  cwd : String
  deriving DecidableEq, Repr

/-- The entries `envs` appended to the process env after the `LIST_ENV_SIZE_MAX` check, in
`size_t` arithmetic: the body of `merge_exec_from_container_env` and
`merge_envs_from_request_env`. -/
def mergeEnvs (env envs : List String) : Except String (List String) :=
  if envs.length > (ConfigMerge.listEnvSizeMax + 2 ^ 64 - env.length) % 2 ^ 64 then
    .error s!"The length of envionment variables is too long, the limit is {ConfigMerge.listEnvSizeMax}"
  else .ok (env ++ envs)

/-- `merge_exec_from_container_env`. -/
def mergeExecFromContainerEnv (env : List String) (containerSpec : ContainerConfig) :
    Except String (List String) :=
  mergeEnvs env containerSpec.env

/-- `merge_envs_from_request_env`. -/
def mergeEnvsFromRequestEnv (env : List String) (envs : List String) :
    Except String (List String) :=
  mergeEnvs env envs

/-- `do_append_process_exec_env`: the body of `oci_image_merge_env`, on the defaults. -/
def doAppendProcessExecEnv (defaultEnv env : List String) : Except String (List String) :=
  ConfigMerge.mergeEnv defaultEnv env

/-- The default search path. -/
def pathEnv : String := "PATH=/usr/local/sbin:/usr/local/bin:/usr/sbin:/usr/bin:/sbin:/bin"

/-- The array `default_env` of `append_necessary_process_env`. `snprintf` into
`MAX_HOST_NAME_LEN + 10` bytes fails when `HOSTNAME=<hostname>` does not fit with its `NUL`. -/
def defaultExecEnv (tty : Bool) (hostname : Option String) : Except String (List String) := do
  let host ← match hostname with
    | none => pure []
    | some h =>
      if ("HOSTNAME=" ++ h).utf8ByteSize ≥ maxHostNameLen + 10 then throw "hostname is too long"
      else pure ["HOSTNAME=" ++ h]
  pure (pathEnv :: host ++ if tty then ["TERM=xterm"] else [])

/-- `append_necessary_process_env`. -/
def appendNecessaryProcessEnv (tty : Bool) (containerSpec : ContainerConfig) (env : List String) :
    Except String (List String) := do
  let defaultEnv ← defaultExecEnv tty containerSpec.hostname
  doAppendProcessExecEnv defaultEnv env

/-- `strcasecmp(runtime, "lcr") != 0`. -/
def notLcr (runtime : String) : Bool := !strcaseEq runtime.toList "lcr".toList

/-- `make_exec_process_spec`; an error is the message the failing step sets or logs. -/
def makeExecProcessSpec (containerSpec : ContainerConfig) (puser : Option DefsProcessUser)
    (runtime : String) (request : ContainerExecRequest) : Except String DefsProcess := do
  let env ← if notLcr runtime then mergeExecFromContainerEnv [] containerSpec else pure []
  let env ← mergeEnvsFromRequestEnv env request.env
  let env ← if notLcr runtime then appendNecessaryProcessEnv request.tty containerSpec env
    else pure env
  pure { env, args := request.argv, user := puser, terminal := request.tty,
         cwd := containerSpec.workingDir.getD "/" }

/-! ## The steps -/

/-- Both merges append the whole list, when it passes the size check. -/
lemma mergeEnvs_ok {env envs merged : List String} (h : mergeEnvs env envs = .ok merged) :
    merged = env ++ envs := by
  unfold mergeEnvs at h
  split at h
  · cases h
  · cases h
    rfl

lemma key_pathEnv : (utilStringSplit pathEnv '=').head? = some "PATH" := by decide

lemma key_term : (utilStringSplit "TERM=xterm" '=').head? = some "TERM" := by decide

/-- The key of `HOSTNAME=<hostname>` is `HOSTNAME`, whatever the host name holds. -/
lemma key_hostname (h : String) : (utilStringSplit ("HOSTNAME=" ++ h) '=').head? = some "HOSTNAME" := by
  have hsrc : ("HOSTNAME=" ++ h).toList = "HOSTNAME".toList ++ '=' :: h.toList := by
    rw [String.toList_append]
    rfl
  exact utilStringSplit_head hsrc (by decide) (by decide)

/-- The defaults start with `PATH`, and no two of them share a key. -/
lemma defaultExecEnv_keys {tty : Bool} {hostname : Option String} {defaults : List String}
    (h : defaultExecEnv tty hostname = .ok defaults) :
    defaults.head? = some pathEnv ∧
      ∀ d ∈ defaults, ∀ x ∈ defaults, sameEnvKey d x = true → x = d := by
  cases hostname with
  | none =>
    simp only [defaultExecEnv, Fallible.bind_eq_ok, Fallible.pure_eq_ok] at h
    obtain ⟨_, rfl, rfl⟩ := h
    cases tty <;> simp [sameEnvKey, key_pathEnv, key_term]
  | some name =>
    by_cases hlen : ("HOSTNAME=" ++ name).utf8ByteSize ≥ maxHostNameLen + 10
    · simp only [defaultExecEnv, if_pos hlen, Fallible.bind_eq_ok] at h
      obtain ⟨_, hthrow, -⟩ := h
      exact absurd hthrow Fallible.throw_ne_ok
    · simp only [defaultExecEnv, if_neg hlen, Fallible.bind_eq_ok, Fallible.pure_eq_ok] at h
      obtain ⟨_, rfl, rfl⟩ := h
      cases tty <;> simp [sameEnvKey, key_pathEnv, key_term, key_hostname]

/-! ## The environment of the process -/

section Env

variable {c : ContainerConfig} {puser : Option DefsProcessUser} {runtime : String}
  {request : ContainerExecRequest} {p : DefsProcess}

/-- For a runtime other than `lcr`, the steps of a successful `make_exec_process_spec`: the
container's env and the request's, then the defaults through `do_append_process_exec_env`. -/
lemma makeExecProcessSpec_steps (hrt : notLcr runtime = true)
    (h : makeExecProcessSpec c puser runtime request = .ok p) :
    ∃ defaults, defaultExecEnv request.tty c.hostname = .ok defaults ∧
      mergeEnv defaults (c.env ++ request.env) = .ok p.env := by
  simp only [makeExecProcessSpec, hrt, if_true, Fallible.bind_eq_ok, Fallible.pure_eq_ok] at h
  obtain ⟨env₁, h₁, env₂, h₂, env₃, h₃, rfl⟩ := h
  have henv₁ : env₁ = c.env := mergeEnvs_ok h₁
  have henv₂ : env₂ = c.env ++ request.env := by
    rw [mergeEnvs_ok h₂, henv₁]
  simp only [appendNecessaryProcessEnv, Fallible.bind_eq_ok] at h₃
  obtain ⟨defaults, hd, hm⟩ := h₃
  exact ⟨defaults, hd, henv₂ ▸ hm⟩

/-- The process env is the container's env, then the request's, both whole and in order, then
some of the defaults: every default whose key neither of them sets. -/
theorem makeExecProcessSpec_env (hrt : notLcr runtime = true)
    (h : makeExecProcessSpec c puser runtime request = .ok p) :
    ∃ defaults added, defaultExecEnv request.tty c.hostname = .ok defaults ∧
      p.env = c.env ++ request.env ++ added ∧ added.Sublist defaults ∧
      ∀ d ∈ defaults, (∀ x ∈ c.env ++ request.env, sameEnvKey d x = false) → d ∈ added := by
  obtain ⟨defaults, hd, hm⟩ := makeExecProcessSpec_steps hrt h
  obtain ⟨added, heq, hsub, hmem⟩ := mergeEnv_spec hm
  refine ⟨defaults, added, hd, heq, hsub, fun d hdm hfresh => ?_⟩
  exact hmem d hdm hfresh ((defaultExecEnv_keys hd).2 d hdm)

/-- `PATH` is added whenever the first entry of the container's and the request's env is not a
`PATH` entry, whether a later one is or not. -/
theorem makeExecProcessSpec_appends_path (hrt : notLcr runtime = true)
    (h : makeExecProcessSpec c puser runtime request = .ok p) {x : String} {rest : List String}
    (hx : c.env ++ request.env = x :: rest) (hkey : sameEnvKey pathEnv x = false) :
    pathEnv ∈ p.env := by
  obtain ⟨defaults, hd, hm⟩ := makeExecProcessSpec_steps hrt h
  obtain ⟨ds, rfl⟩ : ∃ ds, defaults = pathEnv :: ds := by
    have hhead := (defaultExecEnv_keys hd).1
    cases defaults with
    | nil => cases hhead
    | cons d ds =>
      cases hhead
      exact ⟨ds, rfl⟩
  rw [hx] at hm
  -- the first default is compared with `x` alone, and appended
  have hloop : p.env = mergeEnvLoop 1 ds (x :: rest ++ [pathEnv]) := by
    rw [mergeEnv_cons hm, mergeEnvLoop, mergeEnvFound_zero, hkey]
    rfl
  obtain ⟨added, heq, -, -⟩ := mergeEnvLoop_spec ds 1 (x :: rest ++ [pathEnv])
  rw [hloop, heq]
  simp

/-- Nothing replaces an entry of the same key: the container's `PATH` stands before the default
one, the request's `A=2` after the container's `A=1`, and the default `TERM` after the
request's, compared with the entry at index 1, the `PATH` just added. -/
theorem makeExecProcessSpec_duplicates_env_keys :
    (makeExecProcessSpec ⟨["A=1", "PATH=/opt/bin"], none, none⟩ none "runc"
        ⟨[], ["sh"], false⟩).toOption.map DefsProcess.env =
      some ["A=1", "PATH=/opt/bin", pathEnv] ∧
    (makeExecProcessSpec ⟨["A=1"], none, none⟩ none "runc"
        ⟨["A=2"], ["sh"], false⟩).toOption.map DefsProcess.env =
      some ["A=1", "A=2", pathEnv] ∧
    (makeExecProcessSpec ⟨[], none, none⟩ none "runc"
        ⟨["TERM=vt100"], ["sh"], true⟩).toOption.map DefsProcess.env =
      some ["TERM=vt100", pathEnv, "TERM=xterm"] := by
  decide

end Env

end ExecProcessSpec

end Isulad
