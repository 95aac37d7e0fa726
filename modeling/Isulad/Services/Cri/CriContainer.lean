import Isulad.Path

/-!
# The container a CRI `CreateContainer` request creates (`cri_container.cc`,
`cri_security_context.cc`, `cri_helpers.cc`)

The CRI service turns a `ContainerConfig` into iSulad's `container_config` and `host_config`.

**Security context.** `ApplyContainerSecurityContext` copies `run_as_user` or
`run_as_username` into `config->user`, `privileged`, `readonly_rootfs`, the added and dropped
capabilities, `no_new_privs` and the supplemental groups into the host config; and
`PackCreateContainerHostConfigSecurityContext` turns `seccomp_profile_path` into a security
option (`GetSeccompiSuladOpts`). Nothing reads `run_as_group`, `masked_paths` or
`readonly_paths`, and the profile `runtime/default` the CRI API names is refused
(`applyContainerSecurityContext_drops_group`).

**Labels.** `GenerateCreateContainerCustomConfig` starts from the caller's labels
(`MakeLabels`), sets `cri.isulad.type` to `container` and `cri.sandbox.id` to the sandbox's id,
each replacing a caller's label of that key, and sets `cri.container.logpath` to the cleaned
`log_directory/log_path` only when one of the two is given. A caller's own
`cri.container.logpath` label then survives, and `StartContainer` removes the file it names
and puts a link there (`CreateContainerLogSymlink`): any host path
(`generateCreateContainerCustomConfig_keeps_forged_logpath`).
-/

namespace Isulad

namespace Cri

open Isulad.Path

/-! ## The security context -/

/-- `Capability`: the capabilities to add and to drop. -/
structure Capability where
  addCapabilities : List String
  dropCapabilities : List String

/-- The fields of `LinuxContainerSecurityContext` apart from the namespace, SELinux and
AppArmor options. -/
structure LinuxContainerSecurityContext where
  capabilities : Option Capability
  privileged : Bool
  runAsUser : Option Int
  runAsGroup : Option Int
  runAsUsername : String
  readonlyRootfs : Bool
  supplementalGroups : List Int
  seccompProfilePath : String
  noNewPrivs : Bool
  maskedPaths : List String
  readonlyPaths : List String

/-- The fields of `host_config` the security context sets. -/
structure HostConfig where
  privileged : Bool
  readonlyRootfs : Bool
  capAdd : List String
  capDrop : List String
  securityOpt : List String
  groupAdd : List String
  deriving DecidableEq, Repr

/-- `ModifyContainerConfig(sc, config)`: the user of `config`; `run_as_username` wins. -/
def modifyContainerConfig (sc : LinuxContainerSecurityContext) (user : Option String) :
    Option String :=
  let user := match sc.runAsUser with
    | some uid => some (toString uid)
    | none => user
  if sc.runAsUsername ≠ "" then some sc.runAsUsername else user

/-- `ModifyHostConfig(sc, hostConfig)`: the flags, the capabilities
(`ModifyHostConfigCapabilities`), `no-new-privileges` (`ModifyHostConfigNoNewPrivs`) and the
supplemental groups (`ModifyHostConfigscSupplementalGroups`). -/
def modifyHostConfig (sc : LinuxContainerSecurityContext) (hc : HostConfig) : HostConfig :=
  let caps : List String × List String :=
    match sc.capabilities with
    | none => (hc.capAdd, hc.capDrop)
    | some c =>
      (if c.addCapabilities = [] then hc.capAdd else c.addCapabilities,
        if c.dropCapabilities = [] then hc.capDrop else c.dropCapabilities)
  { privileged := sc.privileged
    readonlyRootfs := sc.readonlyRootfs
    capAdd := caps.1
    capDrop := caps.2
    securityOpt :=
      if sc.noNewPrivs then hc.securityOpt ++ ["no-new-privileges"] else hc.securityOpt
    groupAdd :=
      if sc.supplementalGroups = [] then hc.groupAdd else sc.supplementalGroups.map toString }

/-- `ApplyContainerSecurityContext(lc, podSandboxID, config, hc)`: the user and the host
configuration, when the request has a security context. -/
def applyContainerSecurityContext (sc : Option LinuxContainerSecurityContext)
    (user : Option String) (hc : HostConfig) : Option String × HostConfig :=
  match sc with
  | none => (user, hc)
  | some sc => (modifyContainerConfig sc user, modifyHostConfig sc hc)

/-- `iSuladOpt`: a security option's key and value. -/
structure ISuladOpt where
  key : String
  value : String
  deriving DecidableEq, Repr

/-- `GetSeccompiSuladOpts(seccompProfile)`; `readProfile` is the JSON of the profile file at
an absolute path (`get_seccomp_security_opt_spec`, `docker_seccomp_generate_json`), and `cwd`
what `cleanpath` takes for a relative one. -/
def getSeccompiSuladOpts (readProfile : List Char → Option String) (cwd : List Char)
    (seccompProfile : String) : Except String (List ISuladOpt) :=
  if seccompProfile = "" ∨ seccompProfile = "unconfined" then .ok [⟨"seccomp", "unconfined"⟩]
  else if seccompProfile = "iSulad/default" ∨ seccompProfile = "docker/default" then .ok []
  else if !"localhost/".toList.isPrefixOf seccompProfile.toList then
    .error ("unknown seccomp profile option: " ++ seccompProfile)
  else
    let fname := seccompProfile.toList.drop "localhost/".length
    match cleanpath cwd fname with
    | none => .error "failed to get clean path"
    | some dstpath =>
      -- `cleanpath` has made the path absolute, so this test never fails
      if dstpath.head? ≠ some '/' then
        .error ("seccomp profile path must be absolute, but got relative path " ++
          String.ofList fname)
      else
        match readProfile dstpath with
        | none => .error "failed to parse seccomp profile"
        | some json => .ok [⟨"seccomp", json⟩]

/-- `PackCreateContainerHostConfigSecurityContext(containerConfig, hostconfig)`: the
security options `key=value` appended to the host configuration. -/
def packCreateContainerHostConfigSecurityContext (readProfile : List Char → Option String)
    (cwd : List Char) (sc : Option LinuxContainerSecurityContext) (hc : HostConfig) :
    Except String HostConfig :=
  match sc with
  | none => .ok hc
  | some sc =>
    match getSeccompiSuladOpts readProfile cwd sc.seccompProfilePath with
    | .error e => .error e
    | .ok opts =>
      .ok { hc with securityOpt := hc.securityOpt ++ opts.map fun o => o.key ++ "=" ++ o.value }

/-- A host configuration with nothing set. -/
def emptyHostConfig : HostConfig := ⟨false, false, [], [], [], []⟩

/-- The context of a container to run as user 1000 and group 5, with a masked and a
read-only path and the runtime's default seccomp profile. -/
def groupedContext : LinuxContainerSecurityContext where
  capabilities := none
  privileged := false
  runAsUser := some 1000
  runAsGroup := some 5
  runAsUsername := ""
  readonlyRootfs := false
  supplementalGroups := []
  seccompProfilePath := "runtime/default"
  noNewPrivs := false
  maskedPaths := ["/proc/kcore"]
  readonlyPaths := ["/proc/sys"]

/-- The container gets the user `1000` with no group, the masked and read-only paths change
nothing whatever they are, and `runtime/default` is refused. -/
theorem applyContainerSecurityContext_drops_group (readProfile : List Char → Option String)
    (cwd : List Char) :
    (applyContainerSecurityContext (some groupedContext) none emptyHostConfig).1 = some "1000" ∧
    (∀ masked readonly : List String,
      applyContainerSecurityContext
          (some { groupedContext with maskedPaths := masked, readonlyPaths := readonly })
          none emptyHostConfig =
        applyContainerSecurityContext (some groupedContext) none emptyHostConfig) ∧
    packCreateContainerHostConfigSecurityContext readProfile cwd (some groupedContext)
        emptyHostConfig =
      .error "unknown seccomp profile option: runtime/default" :=
  ⟨rfl, fun _ _ => rfl, rfl⟩

/-! ## Labels -/

/-- The keys and values of the labels the CRI service keeps for itself. -/
def containerTypeLabelKey : String := "cri.isulad.type"
def containerTypeLabelSandbox : String := "podsandbox"
def containerTypeLabelContainer : String := "container"
def containerLogpathLabelKey : String := "cri.container.logpath"
def sandboxIdLabelKey : String := "cri.sandbox.id"
def kubernetesContainerNameLabel : String := "io.kubernetes.container.name"

/-- `InternalLabelKeys`. -/
def internalLabelKeys : List String :=
  [containerTypeLabelKey, containerLogpathLabelKey, sandboxIdLabelKey]

/-- `LIST_SIZE_MAX`. -/
def listSizeMax : Nat := 1000

/-- `append_json_map_string_string(map, key, val)`: replace the value of `key`, or append
it. -/
def appendJsonMapStringString : List (String × String) → String → String → List (String × String)
  | [], key, val => [(key, val)]
  | (k, v) :: rest, key, val =>
    if k = key then (k, val) :: rest else (k, v) :: appendJsonMapStringString rest key val

/-- `MakeLabels(mapLabels)`: the caller's labels, at most `LIST_SIZE_MAX`. -/
def makeLabels (mapLabels : List (String × String)) : Except String (List (String × String)) :=
  if listSizeMax < mapLabels.length then
    .error ("Labels list is too long, the limit is " ++ toString listSizeMax)
  else .ok (mapLabels.foldl (fun m kv => appendJsonMapStringString m kv.1 kv.2) [])

/-- The labels `GenerateCreateContainerCustomConfig` gives the container; `cwd` is what
`cleanpath` takes for a relative log path. -/
def generateCreateContainerCustomConfig (cwd : List Char) (realPodSandboxID : String)
    (labels : List (String × String)) (logDirectory logPath : String) :
    Except String (List (String × String)) :=
  match makeLabels labels with
  | .error e => .error e
  | .ok custom =>
    let custom := appendJsonMapStringString custom containerTypeLabelKey containerTypeLabelContainer
    let logged : Except String (List (String × String)) :=
      if logDirectory ≠ "" ∨ logPath ≠ "" then
        let logpath := logDirectory ++ "/" ++ logPath
        match cleanpath cwd logpath.toList with
        | none => .error ("Failed to clean path: " ++ logpath)
        | some realLogpath =>
          .ok (appendJsonMapStringString custom containerLogpathLabelKey (String.ofList realLogpath))
        else .ok custom
    match logged with
    | .error e => .error e
    | .ok custom => .ok (appendJsonMapStringString custom sandboxIdLabelKey realPodSandboxID)

/-- `GetContainerLogPath`: the first non-empty `cri.container.logpath` label, the path
`CreateContainerLogSymlink` removes and replaces by a link to the log. -/
def getContainerLogPath (labels : List (String × String)) : Option String :=
  (labels.find? fun kv => kv.1 = containerLogpathLabelKey ∧ kv.2 ≠ "").map Prod.snd

/-- `IsSandboxLabel(input)`. -/
def isSandboxLabel (input : List (String × String)) : Bool :=
  input.any fun kv => kv.1 = containerTypeLabelKey ∧ kv.2 = containerTypeLabelSandbox

/-- `ExtractLabels(input)`: the labels `ContainerStatus` and `ListContainers` report. -/
def extractLabels (input : List (String × String)) : List (String × String) :=
  input.filter fun kv =>
    kv.1 ∉ internalLabelKeys && !(kv.1 = kubernetesContainerNameLabel && isSandboxLabel input)

attribute [local simp] appendJsonMapStringString in
lemma lookup_appendJsonMapStringString_self (m : List (String × String)) (key val : String) :
    (appendJsonMapStringString m key val).lookup key = some val := by
  induction m with
  | nil => simp [appendJsonMapStringString]
  | cons kv rest ih =>
    obtain ⟨k, v⟩ := kv
    by_cases hk : k = key
    · subst hk
      simp [appendJsonMapStringString]
    · have hne : (key == k) = false := beq_false_of_ne (Ne.symm hk)
      simp [appendJsonMapStringString, hk, List.lookup_cons, hne, ih]

lemma lookup_appendJsonMapStringString_ne (m : List (String × String)) {key k : String}
    (hk : k ≠ key) (val : String) :
    (appendJsonMapStringString m key val).lookup k = m.lookup k := by
  induction m with
  | nil => simp [appendJsonMapStringString, hk]
  | cons kv rest ih =>
    obtain ⟨k', v⟩ := kv
    by_cases hk' : k' = key
    · subst hk'
      have hne : (k == k') = false := beq_false_of_ne hk
      simp [appendJsonMapStringString, List.lookup_cons, hne]
    · simp [appendJsonMapStringString, hk', List.lookup_cons, ih]

/-- Whatever the caller's labels, the container's type and sandbox labels are the service's
own: only the log path label can be forged. -/
theorem generateCreateContainerCustomConfig_internal {cwd : List Char}
    {realPodSandboxID logDirectory logPath : String} {labels out : List (String × String)}
    (h : generateCreateContainerCustomConfig cwd realPodSandboxID labels logDirectory logPath =
      .ok out) :
    out.lookup sandboxIdLabelKey = some realPodSandboxID ∧
      out.lookup containerTypeLabelKey = some containerTypeLabelContainer := by
  have hne : containerTypeLabelKey ≠ sandboxIdLabelKey := by decide
  have hlog : containerTypeLabelKey ≠ containerLogpathLabelKey := by decide
  unfold generateCreateContainerCustomConfig at h
  split at h
  · cases h
  · rename_i custom _
    dsimp only at h
    split at h
    · cases h
    · rename_i logged hlogged
      cases h
      refine ⟨lookup_appendJsonMapStringString_self _ _ _, ?_⟩
      rw [lookup_appendJsonMapStringString_ne _ hne]
      -- the log path label, when it is set, is another key
      split at hlogged
      · split at hlogged
        · cases hlogged
        · cases hlogged
          rw [lookup_appendJsonMapStringString_ne _ hlog, lookup_appendJsonMapStringString_self]
      · cases hlogged
        exact lookup_appendJsonMapStringString_self _ _ _

/-- A request with no log directory and no log path whose own labels name a log path. -/
def forgedLabels : List (String × String) := [(containerLogpathLabelKey, "/etc/shadow")]

/-- The caller's `cri.container.logpath` survives, and is the path the container's start
removes and links. -/
theorem generateCreateContainerCustomConfig_keeps_forged_logpath :
    generateCreateContainerCustomConfig ['/'] "sandbox" forgedLabels "" "" =
      .ok [(containerLogpathLabelKey, "/etc/shadow"),
        (containerTypeLabelKey, containerTypeLabelContainer), (sandboxIdLabelKey, "sandbox")] ∧
    getContainerLogPath [(containerLogpathLabelKey, "/etc/shadow"),
        (containerTypeLabelKey, containerTypeLabelContainer), (sandboxIdLabelKey, "sandbox")] =
      some "/etc/shadow" :=
  ⟨rfl, rfl⟩

end Cri

end Isulad
