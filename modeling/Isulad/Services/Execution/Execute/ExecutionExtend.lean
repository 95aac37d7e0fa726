import Isulad.Framework.Fallible
import Isulad.Services.Execution.Manager.RestartManager

/-!
# Updating a container's resources (`do_update_resources`, `execution_extend.c`)

`container_update_cb` hands the request's host config to `do_update_resources`, which, under
the container's lock,

* checks the request alone with `verify_host_config_settings(hostconfig, true)` and refuses a
  container marked for removal, or kernel memory on a running one (`update_host_config_check`);
* keeps a copy of the stored host config (`dump_host_config`), copies every non-zero or
  non-`NULL` field of the request the update knows into the stored one (`update_container`),
  and writes the container out (`container_to_disk`);
* sets the restart manager's policy when the request names one;
* loads the saved OCI config twice, merges the request's cgroup fields into the first copy
  (`merge_conf_cgroup`), saves it, and for a running container applies it (`runtime_update`).

A failure before the merge is saved jumps to `restore_hostspec`, which puts the copy back in
memory and writes it out; a failure after jumps to `restore_ocispec`, which first saves the
second copy. The model takes each external step from an environment that says whether it fails,
and takes a failed write to leave its file as it was.

What the update keeps: the checks see the request, not the result, so the memory constraints
of a created container survive exactly the requests that set no memory field or set the limit
with its reservation (`doUpdateResources_memoryConstraints`). A failed update puts the host
config in memory back (`doUpdateResources_error_hostConfig`); the disk copy, the saved OCI
config and the restart manager come back unless the restore's own write fails or the failure
came after the policy was set (`doUpdateResources_error_disk`, `doUpdateResources_error_oci`,
`doUpdateResources_error_rm`).
-/

namespace Isulad

namespace ExecutionExtend

open Restart

/-! ## The records an update reads and writes -/

/-- `host_config`, with the fields the update checks, copies or merges (`ulimits` and
`hugetlbs` are left out). Integers are `int64_t`; `memory_swappiness` is the `uint64_t *` read
as a signed value. -/
structure HostConfig where
  blkioWeight : Nat
  cpuShares : Int
  cpuPeriod : Int
  cpuQuota : Int
  cpuRealtimePeriod : Int
  cpuRealtimeRuntime : Int
  cpusetCpus : Option String
  cpusetMems : Option String
  memory : Int
  memorySwap : Int
  memoryReservation : Int
  kernelMemory : Int
  oomKillDisable : Bool
  memorySwappiness : Option Int
  pidsLimit : Int
  restartPolicy : Option RestartPolicy
  deriving DecidableEq, Repr, Inhabited

/-- `linux.resources` of a saved OCI config, flattened to the fields `merge_conf_cgroup`
writes. -/
structure LinuxResources where
  cpuShares : Int
  cpuPeriod : Int
  cpuQuota : Int
  cpuRealtimePeriod : Int
  cpuRealtimeRuntime : Int
  cpusetCpus : Option String
  cpusetMems : Option String
  memoryLimit : Int
  disableOomKiller : Bool
  memorySwap : Int
  memoryReservation : Int
  memoryKernel : Int
  memorySwappiness : Int
  blkioWeight : Nat
  pidsLimit : Int
  deriving DecidableEq, Repr, Inhabited

/-- The parts of `container_t` and of its files an update reads and writes: the host config in
memory, the one in `hostconfig.json`, the resources in `config.json`, and the restart manager
(`NULL` until first needed). -/
structure Container where
  id : String
  hostConfig : HostConfig
  disk : HostConfig
  oci : LinuxResources
  rm : Option RestartManager
  restartCount : Int
  running : Bool
  removalInProgress : Bool
  dead : Bool
  deriving DecidableEq, Repr

/-- `sysinfo->cgmeminfo`: the memory controls the kernel supports. -/
structure CgMemInfo where
  limit : Bool
  swap : Bool
  reservation : Bool
  kernel : Bool
  swappiness : Bool
  deriving DecidableEq, Repr

/-- What the update meets outside the container: the system information, the checks of
`verify_host_config_settings` on fields the model leaves out (before the system information is
read: the restart policy; after it, before the memory checks: the hugetlbs; after them: pids,
files, cpu, blkio, oom score and storage options), and whether each allocation, read and write
fails. An error is the message set with `isulad_set_error_message`, or `none`. -/
structure Env where
  sysinfo : Option CgMemInfo
  verifyRestartPolicy : HostConfig → Except (Option String) Unit
  verifyHugetlbs : HostConfig → Except (Option String) Unit
  verifyOthers : HostConfig → Except (Option String) Unit
  dumpFails : Bool
  callocFails : Bool
  toDiskFails : Bool
  loadOciFails : Bool
  loadBackupFails : Bool
  mergeFails : Bool
  saveOciFails : Bool
  runtimeUpdateFails : Bool
  restoreOciFails : Bool
  restoreToDiskFails : Bool

/-! ## The checks (`verify.c`) -/

/-- `LINUX_MIN_MEMORY`: 4 MiB. -/
def linuxMinMemory : Int := 4194304

/-- `is_mem_limit_minimum(limit)`. -/
def isMemLimitMinimum (limit : Int) : Bool := limit ≠ 0 && limit < linuxMinMemory

/-- `verify_mem_limit_swap(sysinfo, limit, swap, update)`. -/
def verifyMemLimitSwap (sysinfo : CgMemInfo) (limit swap : Int) (update : Bool) :
    Except String Unit :=
  if isMemLimitMinimum limit then .error "Minimum memory limit allowed is 4MB"
  else if 0 < limit ∧ !sysinfo.limit then
    .error "Your kernel does not support memory limit capabilities. Limitation discarded."
  else if 0 < limit ∧ swap ≠ 0 ∧ !sysinfo.swap then
    .error "Your kernel does not support swap limit capabilities, memory limited without swap."
  else if 0 < limit ∧ 0 < swap ∧ swap < limit then
    .error "Minimum memoryswap limit should be larger than memory limit"
  else if limit = 0 ∧ 0 < swap ∧ !update then
    .error "You should set the memory limit when using memoryswap limit"
  else .ok ()

/-- `verify_memory_swappiness(sysinfo, swappiness)`. -/
def verifyMemorySwappiness (sysinfo : CgMemInfo) (swappiness : Int) : Except String Unit :=
  if swappiness ≠ -1 ∧ !sysinfo.swappiness then
    .error ("Your kernel does not support memory swappiness capabilities, " ++
      "memory swappiness discarded.")
  else if swappiness < -1 ∨ 100 < swappiness then
    .error ("Invalid value: " ++ toString swappiness ++ ", valid memory swappiness range is 0-100")
  else .ok ()

/-- `verify_memory_reservation(sysinfo, limit, reservation)`. -/
def verifyMemoryReservation (sysinfo : CgMemInfo) (limit reservation : Int) :
    Except String Unit :=
  if 0 < reservation ∧ !sysinfo.reservation then
    .error "Your kernel does not support memory soft limit capabilities. Limitation discarded"
  else if isMemLimitMinimum reservation then .error "Minimum memory reservation allowed is 4MB"
  else if 0 < limit ∧ 0 < reservation ∧ limit < reservation then
    .error "Minimum memory limit should be larger than memory reservation limit, see usage."
  else .ok ()

/-- `verify_memory_kernel(sysinfo, kernel)`; the warning for kernels before 4.0 is only
logged. -/
def verifyMemoryKernel (sysinfo : CgMemInfo) (kernel : Int) : Except String Unit :=
  if 0 < kernel ∧ !sysinfo.kernel then
    .error "Your kernel does not support kernel memory limit capabilities. Limitation discarded."
  else if isMemLimitMinimum kernel then .error "Minimum kernel memory limit allowed is 4MB"
  else .ok ()

/-- `host_config_settings_memory(sysinfo, hostconfig, update)`. -/
def hostConfigSettingsMemory (sysinfo : CgMemInfo) (hostconfig : HostConfig) (update : Bool) :
    Except String Unit := do
  verifyMemLimitSwap sysinfo hostconfig.memory hostconfig.memorySwap update
  verifyMemoryReservation sysinfo hostconfig.memory hostconfig.memoryReservation
  verifyMemoryKernel sysinfo hostconfig.kernelMemory
  match hostconfig.memorySwappiness with
  | some swappiness => verifyMemorySwappiness sysinfo swappiness
  | none => pure ()

/-- `verify_host_config_settings(hostconfig, update)`, with the checks the model leaves out
taken from the environment in the source's order. -/
def verifyHostConfigSettings (env : Env) (hostconfig : HostConfig) (update : Bool) :
    Except (Option String) Unit := do
  env.verifyRestartPolicy hostconfig
  match env.sysinfo with
  | none => throw none
  | some sysinfo =>
    env.verifyHugetlbs hostconfig
    (hostConfigSettingsMemory sysinfo hostconfig update).mapError some
    env.verifyOthers hostconfig

/-- `update_host_config_check(cont, hostconfig)`. -/
def updateHostConfigCheck (env : Env) (cont : Container) (hostconfig : HostConfig) :
    Except (Option String) Unit := do
  verifyHostConfigSettings env hostconfig true
  if cont.removalInProgress || cont.dead then
    throw (some ("Cannot update container " ++ cont.id ++
      ": Container is marked for removal and cannot be \"update\"."))
  else if cont.running && hostconfig.kernelMemory ≠ 0 then
    throw (some ("Cannot update container " ++ cont.id ++
      ": Can not update kernel memory to a running container, please stop it first."))
  else pure ()

/-! ## Merging the request -/

/-- The update's idiom `if (new != 0) { old = new; }`. -/
def setIfNonzero {α : Type} [Zero α] [DecidableEq α] (new old : α) : α :=
  if new ≠ 0 then new else old

/-- `util_valid_str(str)`: present and not empty. -/
def utilValidStr : Option String → Bool
  | some s => s ≠ ""
  | none => false

/-- `update_container_cpu(hostconfig, chostconfig)`. -/
def updateContainerCpu (hostconfig chostconfig : HostConfig) : HostConfig :=
  { chostconfig with
    cpuShares := setIfNonzero hostconfig.cpuShares chostconfig.cpuShares
    cpuPeriod := setIfNonzero hostconfig.cpuPeriod chostconfig.cpuPeriod
    cpuQuota := setIfNonzero hostconfig.cpuQuota chostconfig.cpuQuota
    cpusetCpus := hostconfig.cpusetCpus.or chostconfig.cpusetCpus
    cpusetMems := hostconfig.cpusetMems.or chostconfig.cpusetMems }

/-- The text `update_container_memory` sets; the source's two literals join as
`smaller thanalready`. -/
def memoryAboveSwapMessage (id : String) : String :=
  "Cannot update container " ++ id ++ ": Memory limit should be smaller than" ++
    "already set memoryswap limit, update the memoryswap at the same time."

/-- `update_container_memory(id, hostconfig, chostconfig)`: a new limit above a positive stored
swap limit is refused unless the swap limit is updated with it. -/
def updateContainerMemory (id : String) (hostconfig chostconfig : HostConfig) :
    Except String HostConfig :=
  if hostconfig.memory ≠ 0 ∧ 0 < chostconfig.memorySwap ∧
      chostconfig.memorySwap < hostconfig.memory ∧ hostconfig.memorySwap = 0 then
    .error (memoryAboveSwapMessage id)
  else
    .ok { chostconfig with
      memory := setIfNonzero hostconfig.memory chostconfig.memory
      memorySwap := setIfNonzero hostconfig.memorySwap chostconfig.memorySwap
      memoryReservation := setIfNonzero hostconfig.memoryReservation chostconfig.memoryReservation
      kernelMemory := setIfNonzero hostconfig.kernelMemory chostconfig.kernelMemory }

/-- `update_container_restart_policy(hostconfig, chostconfig)`: `none` when the copy of a
named policy cannot be allocated. -/
def updateContainerRestartPolicy (callocFails : Bool) (hostconfig chostconfig : HostConfig) :
    Option HostConfig :=
  match hostconfig.restartPolicy with
  | some policy =>
    if policy.name.isSome then
      if callocFails then none else some { chostconfig with restartPolicy := some policy }
    else some chostconfig
  | none => some chostconfig

/-- `update_container(cont, hostconfig)`: the stored host config with the request's fields
copied in. On a failure the source has changed part of it in place, which the caller then
replaces by its backup; the model returns only the error. -/
def updateContainer (env : Env) (cont : Container) (hostconfig : HostConfig) :
    Except (Option String) HostConfig := do
  let chostconfig := { cont.hostConfig with
    blkioWeight := setIfNonzero hostconfig.blkioWeight cont.hostConfig.blkioWeight }
  let chostconfig := updateContainerCpu hostconfig chostconfig
  let chostconfig ← (updateContainerMemory cont.id hostconfig chostconfig).mapError some
  match updateContainerRestartPolicy env.callocFails hostconfig chostconfig with
  | some chostconfig => pure chostconfig
  | none => throw none

/-- `merge_conf_cgroup(oci_spec, host_spec)` on the fields the model keeps: each non-zero
field, each non-empty cpuset and a set `oom_kill_disable` is written, and the swappiness is
always written, as `-1` when the request has none. `none` when an allocation, or the merge of
the ulimits or hugetlbs the model leaves out, fails. -/
def mergeConfCgroup (fails : Bool) (ociSpec : LinuxResources) (hostSpec : HostConfig) :
    Option LinuxResources :=
  if fails then none
  else some
    { cpuShares := setIfNonzero hostSpec.cpuShares ociSpec.cpuShares
      cpuPeriod := setIfNonzero hostSpec.cpuPeriod ociSpec.cpuPeriod
      cpuQuota := setIfNonzero hostSpec.cpuQuota ociSpec.cpuQuota
      cpuRealtimePeriod := setIfNonzero hostSpec.cpuRealtimePeriod ociSpec.cpuRealtimePeriod
      cpuRealtimeRuntime := setIfNonzero hostSpec.cpuRealtimeRuntime ociSpec.cpuRealtimeRuntime
      cpusetCpus := if utilValidStr hostSpec.cpusetCpus then hostSpec.cpusetCpus
        else ociSpec.cpusetCpus
      cpusetMems := if utilValidStr hostSpec.cpusetMems then hostSpec.cpusetMems
        else ociSpec.cpusetMems
      memoryLimit := setIfNonzero hostSpec.memory ociSpec.memoryLimit
      disableOomKiller := hostSpec.oomKillDisable || ociSpec.disableOomKiller
      memorySwap := setIfNonzero hostSpec.memorySwap ociSpec.memorySwap
      memoryReservation := setIfNonzero hostSpec.memoryReservation ociSpec.memoryReservation
      memoryKernel := setIfNonzero hostSpec.kernelMemory ociSpec.memoryKernel
      memorySwappiness := hostSpec.memorySwappiness.getD (-1)
      blkioWeight := setIfNonzero hostSpec.blkioWeight ociSpec.blkioWeight
      pidsLimit := setIfNonzero hostSpec.pidsLimit ociSpec.pidsLimit }

/-! ## The update -/

/-- `dump_host_config(cont->hostconfig)`: a copy through JSON, taken to be exact. -/
def dumpHostConfig (env : Env) (origconfig : HostConfig) : Option HostConfig :=
  if env.dumpFails then none else some origconfig

/-- `container_to_disk(cont)`: the host config in memory is written out. -/
def containerToDisk (fails : Bool) (cont : Container) : Option Container :=
  if fails then none else some { cont with disk := cont.hostConfig }

/-- `load_oci_config(rootpath, id)`. -/
def loadOciConfig (fails : Bool) (cont : Container) : Option LinuxResources :=
  if fails then none else some cont.oci

/-- `save_oci_config(id, rootpath, oci_spec)`. -/
def saveOciConfig (fails : Bool) (cont : Container) (ociSpec : LinuxResources) :
    Option Container :=
  if fails then none else some { cont with oci := ociSpec }

/-- `get_restart_manager` then `restart_manager_set_policy`: a container without a manager
gets one from its host config and restart count first. -/
def containerUpdateRestartManager (cont : Container) (policy : RestartPolicy) : Container :=
  let rm := cont.rm.getD (restartManagerNew cont.hostConfig.restartPolicy cont.restartCount)
  { cont with rm := some (restartManagerSetPolicy rm policy) }

/-- The step after the first write: the restart manager takes the request's policy when it
names one. -/
def updateRestartManager (hostconfig : HostConfig) (cont : Container) : Container :=
  match hostconfig.restartPolicy with
  | some policy => if policy.name.isSome then containerUpdateRestartManager cont policy else cont
  | none => cont

/-- `host_config_restore_unlocking(cont, backup)`, the `restore_hostspec` label: the backup goes
back into memory and is written out; a failed write is only logged. -/
def hostConfigRestoreUnlocking (env : Env) (cont : Container) (backup : HostConfig) :
    Container :=
  let cont := { cont with hostConfig := backup }
  (containerToDisk env.restoreToDiskFails cont).getD cont

/-- The `restore_ocispec` label: the second copy loaded is saved back; a failed save is
reported by the return value, which is already `-1`. -/
def restoreOcispec (env : Env) (cont : Container) (backupOciSpec : LinuxResources) :
    Container :=
  (saveOciConfig env.restoreOciFails cont backupOciSpec).getD cont

/-- `do_update_resources(request, cont)`: the outcome and the container it leaves. `request`
is the parsed `request->host_config`, `none` when it is `NULL` or does not parse. -/
def doUpdateResources (env : Env) (request : Option HostConfig) (cont : Container) :
    Except (Option String) Unit × Container :=
  match request with
  | none => (.error none, cont)
  | some hostconfig =>
    match updateHostConfigCheck env cont hostconfig with
    | .error e => (.error e, cont)
    | .ok () =>
      match dumpHostConfig env cont.hostConfig with
      | none => (.error none, cont)
      | some backup =>
        match updateContainer env cont hostconfig with
        | .error e => (.error e, hostConfigRestoreUnlocking env cont backup)
        | .ok chostconfig =>
          let cont := { cont with hostConfig := chostconfig }
          match containerToDisk env.toDiskFails cont with
          | none => (.error none, hostConfigRestoreUnlocking env cont backup)
          | some cont =>
            let cont := updateRestartManager hostconfig cont
            match loadOciConfig env.loadOciFails cont with
            | none => (.error none, hostConfigRestoreUnlocking env cont backup)
            | some ociSpec =>
              match loadOciConfig env.loadBackupFails cont with
              | none => (.error none, hostConfigRestoreUnlocking env cont backup)
              | some backupOciSpec =>
                match mergeConfCgroup env.mergeFails ociSpec hostconfig with
                | none => (.error none, hostConfigRestoreUnlocking env cont backup)
                | some ociSpec =>
                  match saveOciConfig env.saveOciFails cont ociSpec with
                  | none =>
                    (.error none, hostConfigRestoreUnlocking env
                      (restoreOcispec env cont backupOciSpec) backup)
                  | some cont =>
                    if cont.running ∧ env.runtimeUpdateFails then
                      (.error none, hostConfigRestoreUnlocking env
                        (restoreOcispec env cont backupOciSpec) backup)
                    else (.ok (), cont)

/-! ## The steps one at a time -/

section Steps

variable {env : Env} {cont c : Container} {hostconfig chostconfig backup : HostConfig}

@[simp] lemma dumpHostConfig_eq_some :
    dumpHostConfig env hostconfig = some backup ↔ env.dumpFails = false ∧ backup = hostconfig := by
  unfold dumpHostConfig
  cases env.dumpFails <;> simp [eq_comm]

@[simp] lemma containerToDisk_eq_some {fails : Bool} :
    containerToDisk fails cont = some c ↔ fails = false ∧ c = { cont with disk := cont.hostConfig } := by
  unfold containerToDisk
  cases fails <;> simp [eq_comm]

@[simp] lemma loadOciConfig_eq_some {fails : Bool} {ociSpec : LinuxResources} :
    loadOciConfig fails cont = some ociSpec ↔ fails = false ∧ ociSpec = cont.oci := by
  unfold loadOciConfig
  cases fails <;> simp [eq_comm]

@[simp] lemma saveOciConfig_eq_some {fails : Bool} {ociSpec : LinuxResources} :
    saveOciConfig fails cont ociSpec = some c ↔ fails = false ∧ c = { cont with oci := ociSpec } := by
  unfold saveOciConfig
  cases fails <;> simp [eq_comm]

/-- The restore puts the backup in memory, and on disk unless its write fails; it touches nothing
else. -/
@[simp] lemma hostConfigRestoreUnlocking_hostConfig :
    (hostConfigRestoreUnlocking env cont backup).hostConfig = backup := by
  unfold hostConfigRestoreUnlocking containerToDisk
  cases env.restoreToDiskFails <;> rfl

@[simp] lemma hostConfigRestoreUnlocking_disk :
    (hostConfigRestoreUnlocking env cont backup).disk =
      if env.restoreToDiskFails then cont.disk else backup := by
  unfold hostConfigRestoreUnlocking containerToDisk
  cases env.restoreToDiskFails <;> rfl

@[simp] lemma hostConfigRestoreUnlocking_oci :
    (hostConfigRestoreUnlocking env cont backup).oci = cont.oci := by
  unfold hostConfigRestoreUnlocking containerToDisk
  cases env.restoreToDiskFails <;> rfl

@[simp] lemma hostConfigRestoreUnlocking_rm :
    (hostConfigRestoreUnlocking env cont backup).rm = cont.rm := by
  unfold hostConfigRestoreUnlocking containerToDisk
  cases env.restoreToDiskFails <;> rfl

/-- The OCI restore saves the backup unless its write fails; it touches nothing else. -/
@[simp] lemma restoreOcispec_oci {backupOciSpec : LinuxResources} :
    (restoreOcispec env cont backupOciSpec).oci =
      if env.restoreOciFails then cont.oci else backupOciSpec := by
  unfold restoreOcispec saveOciConfig
  cases env.restoreOciFails <;> rfl

@[simp] lemma restoreOcispec_disk {backupOciSpec : LinuxResources} :
    (restoreOcispec env cont backupOciSpec).disk = cont.disk := by
  unfold restoreOcispec saveOciConfig
  cases env.restoreOciFails <;> rfl

@[simp] lemma restoreOcispec_rm {backupOciSpec : LinuxResources} :
    (restoreOcispec env cont backupOciSpec).rm = cont.rm := by
  unfold restoreOcispec saveOciConfig
  cases env.restoreOciFails <;> rfl

attribute [local simp] updateContainerRestartPolicy in
/-- Setting the restart policy touches the restart manager only. -/
@[simp] lemma updateRestartManager_hostConfig :
    (updateRestartManager hostconfig cont).hostConfig = cont.hostConfig := by
  unfold updateRestartManager containerUpdateRestartManager
  split <;> (try split) <;> rfl

@[simp] lemma updateRestartManager_disk :
    (updateRestartManager hostconfig cont).disk = cont.disk := by
  unfold updateRestartManager containerUpdateRestartManager
  split <;> (try split) <;> rfl

@[simp] lemma updateRestartManager_oci :
    (updateRestartManager hostconfig cont).oci = cont.oci := by
  unfold updateRestartManager containerUpdateRestartManager
  split <;> (try split) <;> rfl

@[simp] lemma updateRestartManager_running :
    (updateRestartManager hostconfig cont).running = cont.running := by
  unfold updateRestartManager containerUpdateRestartManager
  split <;> (try split) <;> rfl

/-- The restart manager is left alone, or holds the request's named policy. -/
lemma updateRestartManager_rm (hostconfig : HostConfig) (cont : Container) :
    (updateRestartManager hostconfig cont).rm = cont.rm ∨
      ∃ policy rm, hostconfig.restartPolicy = some policy ∧ policy.name.isSome ∧
        (updateRestartManager hostconfig cont).rm = some (restartManagerSetPolicy rm policy) := by
  unfold updateRestartManager
  split
  next policy hpolicy =>
    by_cases hname : policy.name.isSome
    · refine .inr ⟨policy, cont.rm.getD (restartManagerNew cont.hostConfig.restartPolicy
        cont.restartCount), hpolicy, hname, ?_⟩
      simp [hname, containerUpdateRestartManager]
    · exact .inl (by simp [hname])
  next => exact .inl rfl

end Steps

/-! ## What a passed check says -/

section Checks

variable {sysinfo : CgMemInfo} {limit swap reservation : Int} {update : Bool}

attribute [local simp] isMemLimitMinimum in
/-- A passed `verify_mem_limit_swap`: a set limit is at least 4 MiB, and a positive swap limit
is at least a positive memory limit. -/
lemma verifyMemLimitSwap_eq_ok (h : verifyMemLimitSwap sysinfo limit swap update = .ok ()) :
    (limit ≠ 0 → linuxMinMemory ≤ limit) ∧ (0 < limit → 0 < swap → limit ≤ swap) := by
  unfold verifyMemLimitSwap at h
  split_ifs at h with hmin _ _ hswap
  simp only [isMemLimitMinimum, Bool.and_eq_true, decide_eq_true_eq, not_and, not_lt] at hmin
  exact ⟨hmin, fun hl hs => by omega⟩

/-- A passed `verify_memory_reservation`: a set reservation is at least 4 MiB, and a positive
memory limit is at least a positive reservation. -/
lemma verifyMemoryReservation_eq_ok
    (h : verifyMemoryReservation sysinfo limit reservation = .ok ()) :
    (reservation ≠ 0 → linuxMinMemory ≤ reservation) ∧
      (0 < limit → 0 < reservation → reservation ≤ limit) := by
  unfold verifyMemoryReservation at h
  split_ifs at h with _ hmin hres
  simp only [isMemLimitMinimum, Bool.and_eq_true, decide_eq_true_eq, not_and, not_lt] at hmin
  exact ⟨hmin, fun hl hr => by omega⟩

attribute [local simp] hostConfigSettingsMemory in
/-- The memory checks of a request that passes them. -/
lemma hostConfigSettingsMemory_eq_ok {hostconfig : HostConfig}
    (h : hostConfigSettingsMemory sysinfo hostconfig update = .ok ()) :
    verifyMemLimitSwap sysinfo hostconfig.memory hostconfig.memorySwap update = .ok () ∧
      verifyMemoryReservation sysinfo hostconfig.memory hostconfig.memoryReservation = .ok () := by
  simp only [hostConfigSettingsMemory, Fallible.bind_eq_ok] at h
  obtain ⟨⟨⟩, hswap, ⟨⟩, hres, -⟩ := h
  exact ⟨hswap, hres⟩

attribute [local simp] updateHostConfigCheck verifyHostConfigSettings in
/-- A request that passes `update_host_config_check` passed the memory checks, and the
container it updates is not being removed. -/
lemma updateHostConfigCheck_eq_ok {env : Env} {cont : Container} {hostconfig : HostConfig}
    (h : updateHostConfigCheck env cont hostconfig = .ok ()) :
    (∃ sysinfo, env.sysinfo = some sysinfo ∧
      hostConfigSettingsMemory sysinfo hostconfig true = .ok ()) ∧
      cont.removalInProgress = false ∧ cont.dead = false := by
  simp only [updateHostConfigCheck, Fallible.bind_eq_ok] at h
  obtain ⟨⟨⟩, hverify, hcont⟩ := h
  simp only [verifyHostConfigSettings, Fallible.bind_eq_ok] at hverify
  obtain ⟨⟨⟩, -, hsys⟩ := hverify
  refine ⟨?_, ?_⟩
  · split at hsys
    · exact absurd hsys Fallible.throw_ne_ok
    · next sysinfo hsysinfo =>
      simp only [Fallible.bind_eq_ok, Fallible.mapError_eq_ok] at hsys
      obtain ⟨⟨⟩, -, ⟨⟩, hmem, -⟩ := hsys
      exact ⟨sysinfo, hsysinfo, hmem⟩
  · -- the two refusals cannot have returned; the remaining branch had the guard false
    split_ifs at hcont with hremoval
    simpa using hremoval

end Checks

/-! ## The memory constraints across an update -/

/-- The constraints `verify_mem_limit_swap` and `verify_memory_reservation` put on a created
container: where both are set, the swap limit is at least the memory limit, and the memory limit
at least the reservation. -/
def MemoryConstraints (hc : HostConfig) : Prop :=
  (0 < hc.memory → 0 < hc.memorySwap → hc.memory ≤ hc.memorySwap) ∧
    (0 < hc.memory → 0 < hc.memoryReservation → hc.memoryReservation ≤ hc.memory)

instance : DecidablePred MemoryConstraints := fun _ => inferInstanceAs (Decidable (_ ∧ _))

/-- A request that sets no memory limit, no positive swap limit and no reservation, or that sets
the memory limit together with a reservation. -/
def MemoryFieldsTogether (hc : HostConfig) : Prop :=
  (hc.memory = 0 → hc.memorySwap ≤ 0 ∧ hc.memoryReservation = 0) ∧
    (hc.memory ≠ 0 → hc.memoryReservation ≠ 0)

section Merge

variable {env : Env} {cont : Container} {hostconfig chostconfig c c' : HostConfig}

/-- Copying the restart policy changes nothing else. -/
lemma updateContainerRestartPolicy_eq_some {callocFails : Bool}
    (h : updateContainerRestartPolicy callocFails hostconfig c = some c') :
    c' = { c with restartPolicy := c'.restartPolicy } := by
  unfold updateContainerRestartPolicy at h
  split at h
  · split_ifs at h <;> (cases h; rfl)
  · cases h; rfl

attribute [local simp] updateContainer in
/-- A successful `update_container`: the memory guard did not fire, and the result is the
stored host config with the fields the update copies replaced. -/
lemma updateContainer_eq_ok (h : updateContainer env cont hostconfig = .ok chostconfig) :
    ¬(hostconfig.memory ≠ 0 ∧ 0 < cont.hostConfig.memorySwap ∧
        cont.hostConfig.memorySwap < hostconfig.memory ∧ hostconfig.memorySwap = 0) ∧
      chostconfig = { cont.hostConfig with
        blkioWeight := setIfNonzero hostconfig.blkioWeight cont.hostConfig.blkioWeight
        cpuShares := setIfNonzero hostconfig.cpuShares cont.hostConfig.cpuShares
        cpuPeriod := setIfNonzero hostconfig.cpuPeriod cont.hostConfig.cpuPeriod
        cpuQuota := setIfNonzero hostconfig.cpuQuota cont.hostConfig.cpuQuota
        cpusetCpus := hostconfig.cpusetCpus.or cont.hostConfig.cpusetCpus
        cpusetMems := hostconfig.cpusetMems.or cont.hostConfig.cpusetMems
        memory := setIfNonzero hostconfig.memory cont.hostConfig.memory
        memorySwap := setIfNonzero hostconfig.memorySwap cont.hostConfig.memorySwap
        memoryReservation :=
          setIfNonzero hostconfig.memoryReservation cont.hostConfig.memoryReservation
        kernelMemory := setIfNonzero hostconfig.kernelMemory cont.hostConfig.kernelMemory
        restartPolicy := chostconfig.restartPolicy } := by
  simp only [updateContainer, Fallible.bind_eq_ok, Fallible.mapError_eq_ok] at h
  obtain ⟨c, hmem, hpolicy⟩ := h
  unfold updateContainerMemory at hmem
  split_ifs at hmem with hguard
  cases hmem
  split at hpolicy
  next c' hc' =>
    obtain rfl := Fallible.pure_eq_ok.1 hpolicy
    exact ⟨hguard, updateContainerRestartPolicy_eq_some hc'⟩
  next => exact absurd hpolicy Fallible.throw_ne_ok

/-- `update_container` fails only on the memory guard or an allocation. -/
lemma updateContainer_ok_of (cont : Container) (hostconfig : HostConfig)
    (hcalloc : env.callocFails = false)
    (hguard : ¬(hostconfig.memory ≠ 0 ∧ 0 < cont.hostConfig.memorySwap ∧
        cont.hostConfig.memorySwap < hostconfig.memory ∧ hostconfig.memorySwap = 0)) :
    ∃ chostconfig, updateContainer env cont hostconfig = .ok chostconfig := by
  have hpolicy : ∀ c, ∃ c', updateContainerRestartPolicy env.callocFails hostconfig c = some c' := by
    intro c
    unfold updateContainerRestartPolicy
    split
    · split_ifs <;> simp_all
    · simp
  -- the cpu and blkio copies leave the stored swap limit the guard reads
  have hswap : ∀ c : HostConfig, (updateContainerCpu hostconfig c).memorySwap = c.memorySwap :=
    fun _ => rfl
  simp only [updateContainer, Fallible.bind_eq_ok, Fallible.mapError_eq_ok, updateContainerMemory,
    hswap, hguard, ↓reduceIte]
  obtain ⟨c', hc'⟩ := hpolicy _
  exact ⟨c', _, rfl, by rw [hc']; rfl⟩

/-- Where the request's cpuset is not empty, the test of `merge_conf_cgroup` and the one of
`update_container` pick the same value. -/
lemma utilValidStr_or {new old : Option String} (h : new ≠ some "") :
    (if utilValidStr new then new else old) = new.or old := by
  cases new with
  | none => rfl
  | some s =>
    have hs : s ≠ "" := fun hs => h (hs ▸ rfl)
    simp [utilValidStr, hs]

attribute [local simp] mergeConfCgroup in
/-- A successful `merge_conf_cgroup` did not fail, and its value is the merge. -/
lemma mergeConfCgroup_eq_some {fails : Bool} {ociSpec ociSpec' : LinuxResources}
    (h : mergeConfCgroup fails ociSpec hostconfig = some ociSpec') :
    fails = false ∧ mergeConfCgroup false ociSpec hostconfig = some ociSpec' := by
  cases fails
  · exact ⟨rfl, h⟩
  · simp [mergeConfCgroup] at h

attribute [local simp] setIfNonzero in
/-- The update keeps the memory constraints of a container whenever the request passed the
memory checks and sets its memory fields together. -/
theorem updateContainer_memoryConstraints {sysinfo : CgMemInfo}
    (hv : hostConfigSettingsMemory sysinfo hostconfig true = .ok ())
    (hu : updateContainer env cont hostconfig = .ok chostconfig)
    (hold : MemoryConstraints cont.hostConfig) (hreq : MemoryFieldsTogether hostconfig) :
    MemoryConstraints chostconfig := by
  obtain ⟨hswap, hres⟩ := hostConfigSettingsMemory_eq_ok hv
  obtain ⟨hminL, hls⟩ := verifyMemLimitSwap_eq_ok hswap
  obtain ⟨hminR, hlr⟩ := verifyMemoryReservation_eq_ok hres
  obtain ⟨hguard, hc⟩ := updateContainer_eq_ok hu
  have hm : chostconfig.memory = setIfNonzero hostconfig.memory cont.hostConfig.memory := by
    rw [hc]
  have hs : chostconfig.memorySwap =
      setIfNonzero hostconfig.memorySwap cont.hostConfig.memorySwap := by rw [hc]
  have hr : chostconfig.memoryReservation =
      setIfNonzero hostconfig.memoryReservation cont.hostConfig.memoryReservation := by rw [hc]
  obtain ⟨holdS, holdR⟩ := hold
  obtain ⟨hzero, hwith⟩ := hreq
  have hmin : (0 : Int) < linuxMinMemory := by decide
  simp only [setIfNonzero] at hm hs hr
  by_cases h0 : hostconfig.memory = 0
  · -- no new limit: the stored limit stays, against a swap limit that is new only if not
    -- positive, and the stored reservation
    obtain ⟨hs0, hr0⟩ := hzero h0
    refine ⟨fun hpos hspos => ?_, fun hpos hrpos => ?_⟩
    · split_ifs at hm hs <;> omega
    · split_ifs at hm hr <;> omega
  · -- a new limit of at least 4 MiB: the checks bound it by a new swap limit and a new
    -- reservation, and the guard by a stored swap limit
    have hr0 := hwith h0
    refine ⟨fun hpos hspos => ?_, fun hpos hrpos => ?_⟩
    · split_ifs at hm hs <;> omega
    · split_ifs at hm hr <;> omega

end Merge

/-! ## Every way an update ends -/

/-- The container a failed update restores from, against the one it started with: written out
only if the first write succeeded; with saved resources of its own only if `runtime_update`
failed and so did the save of the backup; and with a new restart policy only if the first write
succeeded and the request names a policy. -/
structure Interrupted (env : Env) (request : Option HostConfig) (cont c : Container) : Prop where
  disk : c.disk = cont.disk ∨ env.toDiskFails = false
  oci : c.oci = cont.oci ∨
    (cont.running = true ∧ env.runtimeUpdateFails = true ∧ env.restoreOciFails = true)
  rm : c.rm = cont.rm ∨ (env.toDiskFails = false ∧ ∃ hostconfig policy rm, request = some hostconfig ∧
    hostconfig.restartPolicy = some policy ∧ policy.name.isSome ∧
    c.rm = some (restartManagerSetPolicy rm policy))

section Cases

variable {env : Env} {request : Option HostConfig} {cont c : Container}
  {hostconfig chostconfig : HostConfig}

lemma Interrupted.of_unwritten (hdisk : c.disk = cont.disk) (hoci : c.oci = cont.oci)
    (hrm : c.rm = cont.rm) : Interrupted env request cont c :=
  ⟨.inl hdisk, .inl hoci, .inl hrm⟩

/-- A failure after the first write restores from the written container with its restart
manager updated. -/
lemma Interrupted.of_written (hdisk : env.toDiskFails = false)
    (hrequest : request = some hostconfig)
    (hrm : c.rm = (updateRestartManager hostconfig
      { cont with hostConfig := chostconfig, disk := chostconfig }).rm)
    (hoci : c.oci = cont.oci ∨
      (cont.running = true ∧ env.runtimeUpdateFails = true ∧ env.restoreOciFails = true)) :
    Interrupted env request cont c := by
  refine ⟨.inr hdisk, hoci, ?_⟩
  rcases updateRestartManager_rm hostconfig
      { cont with hostConfig := chostconfig, disk := chostconfig } with h | h
  · exact .inl (hrm.trans h)
  · obtain ⟨policy, rm, hpolicy, hname, h⟩ := h
    exact .inr ⟨hdisk, hostconfig, policy, rm, hrequest, hpolicy, hname, hrm.trans h⟩

attribute [local simp] doUpdateResources dumpHostConfig containerToDisk loadOciConfig saveOciConfig in
/-- `do_update_resources` is refused before it changes anything, or fails and restores from a
container it interrupted, or succeeds with the merged host config written out, the restart
manager updated and the merged resources saved. -/
theorem doUpdateResources_cases (env : Env) (request : Option HostConfig) (cont : Container) :
    (∃ e, doUpdateResources env request cont = (.error e, cont)) ∨
    (∃ e c, doUpdateResources env request cont =
        (.error e, hostConfigRestoreUnlocking env c cont.hostConfig) ∧
      Interrupted env request cont c) ∨
    (∃ hostconfig chostconfig ociSpec, request = some hostconfig ∧
      updateHostConfigCheck env cont hostconfig = .ok () ∧
      updateContainer env cont hostconfig = .ok chostconfig ∧
      mergeConfCgroup env.mergeFails cont.oci hostconfig = some ociSpec ∧
      doUpdateResources env request cont =
        (.ok (), { updateRestartManager hostconfig
          { cont with hostConfig := chostconfig, disk := chostconfig } with oci := ociSpec })) := by
  rcases request with _ | hostconfig
  · exact .inl ⟨none, rfl⟩
  rcases hcheck : updateHostConfigCheck env cont hostconfig with e | ⟨⟩
  · exact .inl ⟨e, by simp [doUpdateResources, hcheck]⟩
  cases hdump : env.dumpFails
  case true => exact .inl ⟨none, by simp [doUpdateResources, hcheck, dumpHostConfig, hdump]⟩
  rcases hupdate : updateContainer env cont hostconfig with e | chostconfig
  · refine .inr (.inl ⟨e, cont, ?_, .of_unwritten rfl rfl rfl⟩)
    simp [doUpdateResources, hcheck, dumpHostConfig, hdump, hupdate]
  cases hdisk : env.toDiskFails
  case true =>
    refine .inr (.inl ⟨none, { cont with hostConfig := chostconfig }, ?_, .of_unwritten rfl rfl rfl⟩)
    simp [doUpdateResources, hcheck, dumpHostConfig, hdump, hupdate, containerToDisk, hdisk]
  -- past the first write: every later failure restores from the written container `mid`
  set mid := updateRestartManager hostconfig
    { cont with hostConfig := chostconfig, disk := chostconfig } with hmid
  have hwritten : ∀ c : Container, c.rm = mid.rm → (c.oci = cont.oci ∨ (cont.running = true ∧
      env.runtimeUpdateFails = true ∧ env.restoreOciFails = true)) →
      Interrupted env (some hostconfig) cont c :=
    fun c hrm hoci => .of_written hdisk rfl hrm hoci
  have hmidOci : mid.oci = cont.oci := by simp [hmid]
  cases hload : env.loadOciFails
  case true =>
    refine .inr (.inl ⟨none, mid, ?_, hwritten mid rfl (.inl hmidOci)⟩)
    simp [doUpdateResources, hcheck, dumpHostConfig, hdump, hupdate, containerToDisk, hdisk,
      loadOciConfig, hload, hmid]
  cases hbackup : env.loadBackupFails
  case true =>
    refine .inr (.inl ⟨none, mid, ?_, hwritten mid rfl (.inl hmidOci)⟩)
    simp [doUpdateResources, hcheck, dumpHostConfig, hdump, hupdate, containerToDisk, hdisk,
      loadOciConfig, hload, hbackup, hmid]
  rcases hmerge : mergeConfCgroup env.mergeFails cont.oci hostconfig with _ | ociSpec
  · refine .inr (.inl ⟨none, mid, ?_, hwritten mid rfl (.inl hmidOci)⟩)
    simp [doUpdateResources, hcheck, dumpHostConfig, hdump, hupdate, containerToDisk, hdisk,
      loadOciConfig, hload, hbackup, hmid, hmerge]
  cases hsave : env.saveOciFails
  case true =>
    refine .inr (.inl ⟨none, restoreOcispec env mid cont.oci, ?_,
      hwritten _ (by simp) (.inl (by simp [hmidOci]))⟩)
    simp [doUpdateResources, hcheck, dumpHostConfig, hdump, hupdate, containerToDisk, hdisk,
      loadOciConfig, hload, hbackup, hmid, hmerge, saveOciConfig, hsave]
  by_cases hruntime : cont.running = true ∧ env.runtimeUpdateFails = true
  · refine .inr (.inl ⟨none, restoreOcispec env { mid with oci := ociSpec } cont.oci, ?_,
      hwritten _ (by simp) ?_⟩)
    · simp [doUpdateResources, hcheck, dumpHostConfig, hdump, hupdate, containerToDisk, hdisk,
        loadOciConfig, hload, hbackup, hmid, hmerge, saveOciConfig, hsave, hruntime]
    · cases hrestore : env.restoreOciFails
      · exact .inl (by simp [hrestore])
      · exact .inr ⟨hruntime.1, hruntime.2, rfl⟩
  · refine .inr (.inr ⟨hostconfig, chostconfig, ociSpec, rfl, hcheck, hupdate, hmerge, ?_⟩)
    simp [doUpdateResources, hcheck, dumpHostConfig, hdump, hupdate, containerToDisk, hdisk,
      loadOciConfig, hload, hbackup, hmerge, saveOciConfig, hsave, hruntime]

end Cases

/-! ## A failed update -/

section Failure

variable {env : Env} {request : Option HostConfig} {cont : Container} {e : Option String}

/-- A failed update leaves the host config in memory as it was. -/
theorem doUpdateResources_error_hostConfig
    (h : (doUpdateResources env request cont).1 = .error e) :
    (doUpdateResources env request cont).2.hostConfig = cont.hostConfig := by
  rcases doUpdateResources_cases env request cont with
    ⟨_, heq⟩ | ⟨_, c, heq, -⟩ | ⟨_, _, _, -, -, -, -, heq⟩
  · rw [heq]
  · rw [heq, hostConfigRestoreUnlocking_hostConfig]
  · rw [heq] at h
    cases h

/-- A failed update leaves the host config on disk as it was, for a container whose disk copy
is the one in memory, unless the restore's own write fails after the first write succeeded. -/
theorem doUpdateResources_error_disk (hcons : cont.disk = cont.hostConfig)
    (h : (doUpdateResources env request cont).1 = .error e) :
    (doUpdateResources env request cont).2.disk = cont.disk ∨
      (env.restoreToDiskFails = true ∧ env.toDiskFails = false) := by
  rcases doUpdateResources_cases env request cont with
    ⟨_, heq⟩ | ⟨_, c, heq, hc⟩ | ⟨_, _, _, -, -, -, -, heq⟩
  · exact .inl (by rw [heq])
  · rw [heq, hostConfigRestoreUnlocking_disk]
    cases hrestore : env.restoreToDiskFails
    · exact .inl (by simp [hcons])
    · rcases hc.disk with hdisk | hwritten
      · exact .inl (by simp [hdisk])
      · exact .inr ⟨rfl, hwritten⟩
  · rw [heq] at h
    cases h

/-- A failed update leaves the saved resources as they were, unless `runtime_update` failed on a
running container and so did the save of the backup. -/
theorem doUpdateResources_error_oci (h : (doUpdateResources env request cont).1 = .error e) :
    (doUpdateResources env request cont).2.oci = cont.oci ∨
      (cont.running = true ∧ env.runtimeUpdateFails = true ∧ env.restoreOciFails = true) := by
  rcases doUpdateResources_cases env request cont with
    ⟨_, heq⟩ | ⟨_, c, heq, hc⟩ | ⟨_, _, _, -, -, -, -, heq⟩
  · exact .inl (by rw [heq])
  · rw [heq, hostConfigRestoreUnlocking_oci]
    exact hc.oci
  · rw [heq] at h
    cases h

/-- A failed update leaves the restart manager as it was, unless the first write succeeded and
the request names a policy, which the manager then holds. -/
theorem doUpdateResources_error_rm (h : (doUpdateResources env request cont).1 = .error e) :
    (doUpdateResources env request cont).2.rm = cont.rm ∨
      (env.toDiskFails = false ∧ ∃ hostconfig policy rm, request = some hostconfig ∧
        hostconfig.restartPolicy = some policy ∧ policy.name.isSome ∧
        (doUpdateResources env request cont).2.rm = some (restartManagerSetPolicy rm policy)) := by
  rcases doUpdateResources_cases env request cont with
    ⟨_, heq⟩ | ⟨_, c, heq, hc⟩ | ⟨_, _, _, -, -, -, -, heq⟩
  · exact .inl (by rw [heq])
  · rw [heq, hostConfigRestoreUnlocking_rm]
    exact hc.rm
  · rw [heq] at h
    cases h

end Failure

/-! ## A successful update -/

/-- The host config and the saved resources agree on the fields both keep. -/
def ResourcesAgree (hc : HostConfig) (oci : LinuxResources) : Prop :=
  oci.blkioWeight = hc.blkioWeight ∧ oci.cpuShares = hc.cpuShares ∧
    oci.cpuPeriod = hc.cpuPeriod ∧ oci.cpuQuota = hc.cpuQuota ∧
    oci.cpusetCpus = hc.cpusetCpus ∧ oci.cpusetMems = hc.cpusetMems ∧
    oci.memoryLimit = hc.memory ∧ oci.memorySwap = hc.memorySwap ∧
    oci.memoryReservation = hc.memoryReservation ∧ oci.memoryKernel = hc.kernelMemory

section Success

variable {env : Env} {hostconfig : HostConfig} {cont : Container}

/-- A successful update passed the checks and `update_container`, and leaves the merged host
config in memory and on disk and the merged resources saved. -/
theorem doUpdateResources_ok (h : (doUpdateResources env (some hostconfig) cont).1 = .ok ()) :
    ∃ chostconfig ociSpec, updateHostConfigCheck env cont hostconfig = .ok () ∧
      updateContainer env cont hostconfig = .ok chostconfig ∧
      mergeConfCgroup env.mergeFails cont.oci hostconfig = some ociSpec ∧
      (doUpdateResources env (some hostconfig) cont).2.hostConfig = chostconfig ∧
      (doUpdateResources env (some hostconfig) cont).2.disk = chostconfig ∧
      (doUpdateResources env (some hostconfig) cont).2.oci = ociSpec := by
  rcases doUpdateResources_cases env (some hostconfig) cont with
    ⟨_, heq⟩ | ⟨_, _, heq, -⟩ | ⟨_, chostconfig, ociSpec, hreq, hcheck, hupdate, hmerge, heq⟩
  · rw [heq] at h
    cases h
  · rw [heq] at h
    cases h
  · cases hreq
    refine ⟨chostconfig, ociSpec, hcheck, hupdate, hmerge, ?_, ?_, ?_⟩ <;> simp [heq]

/-- A successful update keeps the memory constraints, in memory and on disk, whenever the
request sets its memory fields together. -/
theorem doUpdateResources_memoryConstraints
    (h : (doUpdateResources env (some hostconfig) cont).1 = .ok ())
    (hold : MemoryConstraints cont.hostConfig) (hreq : MemoryFieldsTogether hostconfig) :
    MemoryConstraints (doUpdateResources env (some hostconfig) cont).2.hostConfig ∧
      MemoryConstraints (doUpdateResources env (some hostconfig) cont).2.disk := by
  obtain ⟨chostconfig, -, hcheck, hupdate, -, hmem, hdisk, -⟩ := doUpdateResources_ok h
  obtain ⟨⟨sysinfo, -, hsettings⟩, -, -⟩ := updateHostConfigCheck_eq_ok hcheck
  have hmerged := updateContainer_memoryConstraints hsettings hupdate hold hreq
  rw [hmem, hdisk]
  exact ⟨hmerged, hmerged⟩

/-- A successful update keeps the saved resources in step with the host config on the fields
both keep, unless the request names an empty cpuset: `update_container` copies it and
`merge_conf_cgroup` skips it. -/
theorem doUpdateResources_resourcesAgree
    (h : (doUpdateResources env (some hostconfig) cont).1 = .ok ())
    (hagree : ResourcesAgree cont.hostConfig cont.oci)
    (hcpus : hostconfig.cpusetCpus ≠ some "") (hmems : hostconfig.cpusetMems ≠ some "") :
    ResourcesAgree (doUpdateResources env (some hostconfig) cont).2.hostConfig
      (doUpdateResources env (some hostconfig) cont).2.oci := by
  obtain ⟨chostconfig, ociSpec, -, hupdate, hmerge, hmem, -, hoci⟩ := doUpdateResources_ok h
  obtain ⟨-, hc⟩ := updateContainer_eq_ok hupdate
  obtain ⟨-, hmerge⟩ := mergeConfCgroup_eq_some hmerge
  rw [hmem, hoci, hc]
  simp only [mergeConfCgroup, Bool.false_eq_true, ↓reduceIte, Option.some.injEq] at hmerge
  subst hmerge
  obtain ⟨hblkio, hshares, hperiod, hquota, hcpusets, hmemsets, hlimit, hswap, hres, hkernel⟩ :=
    hagree
  simp only [ResourcesAgree, hblkio, hshares, hperiod, hquota, hcpusets, hmemsets, hlimit, hswap,
    hres, hkernel, utilValidStr_or hcpus, utilValidStr_or hmems, and_self]

/-- Every successful update writes the swappiness into the saved resources, as `-1` when the
request has none, while the host config keeps its own. -/
theorem doUpdateResources_ok_swappiness
    (h : (doUpdateResources env (some hostconfig) cont).1 = .ok ()) :
    (doUpdateResources env (some hostconfig) cont).2.oci.memorySwappiness =
        hostconfig.memorySwappiness.getD (-1) ∧
      (doUpdateResources env (some hostconfig) cont).2.hostConfig.memorySwappiness =
        cont.hostConfig.memorySwappiness := by
  obtain ⟨chostconfig, ociSpec, -, hupdate, hmerge, hmem, -, hoci⟩ := doUpdateResources_ok h
  obtain ⟨-, hc⟩ := updateContainer_eq_ok hupdate
  obtain ⟨-, hmerge⟩ := mergeConfCgroup_eq_some hmerge
  simp only [mergeConfCgroup, Bool.false_eq_true, ↓reduceIte, Option.some.injEq] at hmerge
  rw [hmem, hoci, hc, ← hmerge]
  exact ⟨rfl, rfl⟩

end Success

/-! ## What the checks let through -/

/-- An environment in which no allocation, read or write of the update fails. -/
structure NothingFails (env : Env) : Prop where
  dump : env.dumpFails = false
  calloc : env.callocFails = false
  toDisk : env.toDiskFails = false
  loadOci : env.loadOciFails = false
  loadBackup : env.loadBackupFails = false
  merge : env.mergeFails = false
  saveOci : env.saveOciFails = false
  runtimeUpdate : env.runtimeUpdateFails = false

section Accepted

variable {env : Env} {hostconfig chostconfig : HostConfig} {cont : Container}

/-- Where nothing fails, an update that passes its checks and `update_container` succeeds. -/
theorem doUpdateResources_of_nothingFails (hnf : NothingFails env)
    (hcheck : updateHostConfigCheck env cont hostconfig = .ok ())
    (hupdate : updateContainer env cont hostconfig = .ok chostconfig) :
    (doUpdateResources env (some hostconfig) cont).1 = .ok () := by
  simp [doUpdateResources, hcheck, dumpHostConfig, hnf.dump, hupdate, containerToDisk, hnf.toDisk,
    loadOciConfig, hnf.loadOci, hnf.loadBackup, mergeConfCgroup, hnf.merge, saveOciConfig,
    hnf.saveOci, hnf.runtimeUpdate]

/-- The checks see the request alone: a request whose only memory field is a positive swap
limit passes them for every container not being removed, whatever its memory limit, and where
nothing fails it is stored next to the stored memory limit. -/
theorem doUpdateResources_swap_only (hnf : NothingFails env) (hsys : env.sysinfo.isSome)
    (hverify : env.verifyRestartPolicy hostconfig = .ok () ∧
      env.verifyHugetlbs hostconfig = .ok () ∧ env.verifyOthers hostconfig = .ok ())
    (hmem : hostconfig.memory = 0) (hres : hostconfig.memoryReservation = 0)
    (hkernel : hostconfig.kernelMemory = 0) (hswappiness : hostconfig.memorySwappiness = none)
    (hswap : 0 < hostconfig.memorySwap)
    (hremoval : cont.removalInProgress = false) (hdead : cont.dead = false) :
    (doUpdateResources env (some hostconfig) cont).1 = .ok () ∧
      (doUpdateResources env (some hostconfig) cont).2.hostConfig.memory = cont.hostConfig.memory ∧
      (doUpdateResources env (some hostconfig) cont).2.hostConfig.memorySwap =
        hostconfig.memorySwap := by
  obtain ⟨sysinfo, hsysinfo⟩ := Option.isSome_iff_exists.1 hsys
  obtain ⟨hpolicy, hhugetlbs, hothers⟩ := hverify
  -- with no memory limit the only swap test is the one `update = true` turns off
  have hsettings : hostConfigSettingsMemory sysinfo hostconfig true = .ok () := by
    simp [hostConfigSettingsMemory, verifyMemLimitSwap, verifyMemoryReservation,
      verifyMemoryKernel, isMemLimitMinimum, hmem, hres, hkernel, hswappiness]
  have hcheck : updateHostConfigCheck env cont hostconfig = .ok () := by
    simp [updateHostConfigCheck, verifyHostConfigSettings, hpolicy, hsysinfo, hhugetlbs,
      hsettings, hothers, hremoval, hdead, hkernel]
  -- the guard of `update_container_memory` only looks at a new memory limit
  obtain ⟨chostconfig, hupdate⟩ := updateContainer_ok_of cont hostconfig hnf.calloc
    (by simp [hmem])
  have hok := doUpdateResources_of_nothingFails hnf hcheck hupdate
  obtain ⟨chostconfig', -, -, hupdate', -, hstored, -, -⟩ := doUpdateResources_ok hok
  obtain ⟨-, hc⟩ := updateContainer_eq_ok hupdate'
  refine ⟨hok, ?_, ?_⟩
  · rw [hstored, hc]
    simp [setIfNonzero, hmem]
  · rw [hstored, hc]
    simp [setIfNonzero, hswap.ne']

end Accepted

/-- An environment in which every step succeeds, on a kernel with every memory control. -/
def nominalEnv : Env where
  sysinfo := some ⟨true, true, true, true, true⟩
  verifyRestartPolicy _ := pure ()
  verifyHugetlbs _ := pure ()
  verifyOthers _ := pure ()
  dumpFails := false
  callocFails := false
  toDiskFails := false
  loadOciFails := false
  loadBackupFails := false
  mergeFails := false
  saveOciFails := false
  runtimeUpdateFails := false
  restoreOciFails := false
  restoreToDiskFails := false

/-- A stopped container with a 200 MiB memory limit and a 300 MiB swap limit takes a request
for a 100 MiB swap limit alone, and stores and writes out the pair the create-time checks
refuse; and a request naming the policy `always` that fails when the OCI config cannot be
loaded leaves the restart manager with that policy. -/
theorem doUpdateResources_not_all_or_nothing :
    (∃ (cont : Container) (request : HostConfig),
      MemoryConstraints cont.hostConfig ∧ cont.disk = cont.hostConfig ∧
      (doUpdateResources nominalEnv (some request) cont).1 = .ok () ∧
      ¬MemoryConstraints (doUpdateResources nominalEnv (some request) cont).2.hostConfig ∧
      ¬MemoryConstraints (doUpdateResources nominalEnv (some request) cont).2.disk) ∧
    (∃ (cont : Container) (request : HostConfig),
      (doUpdateResources { nominalEnv with loadOciFails := true } (some request) cont).1 ≠
        .ok () ∧
      (doUpdateResources { nominalEnv with loadOciFails := true } (some request) cont).2.rm ≠
        cont.rm) := by
  refine ⟨⟨⟨"c", { (default : HostConfig) with memory := 209715200, memorySwap := 314572800 },
    { (default : HostConfig) with memory := 209715200, memorySwap := 314572800 },
    { (default : LinuxResources) with memoryLimit := 209715200, memorySwap := 314572800 },
    none, 0, false, false, false⟩, { (default : HostConfig) with memorySwap := 104857600 }, ?_⟩,
    ⟨⟨"c", default, default, default, none, 0, false, false, false⟩,
    { (default : HostConfig) with restartPolicy := some ⟨some "always", 0⟩ }, ?_⟩⟩
  · decide
  · decide

end ExecutionExtend

end Isulad
