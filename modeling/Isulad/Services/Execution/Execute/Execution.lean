import Isulad.Path

/-!
# Preparing a container's root file system on the host at start (`execution.c`)

Before the runtime starts a container, `do_start_container` works on its root file system
`base_fs` from the host, as root and with the host's view of paths:

* for a system container with an external root file system,
  `mount_dev_tmpfs_for_system_container` creates `base_fs/dev` when it is missing, mounts a
  `tmpfs` on it and, with user remapping, gives it to the remapped user;
* `write_env_to_target_file` joins `base_fs` and the configured target path lexically
  (`util_path_join`), creates the directories above it (`util_mkdir_p`) and writes the
  environment into it, one entry a line (`util_open` with `O_CREAT | O_TRUNC`).

Every one of these calls resolves the path through the host kernel, which follows the links
it meets, and the root file system is the image's or the container's own: a link
`base_fs/dev -> /dev` has the `tmpfs` mounted over the host's `/dev` and the host's `/dev`
handed to the remapped user, and a link `base_fs/etc -> /etc` has the environment written into
the host's `/etc` (`doStartContainer_writes_outside_rootfs`). The effects are recorded as the
host operations each call makes, on paths as the kernel resolves them (`HostFs`).
-/

namespace Isulad

namespace Execution

open Isulad.Path

/-- What the preparation does to the host's file system, at paths the kernel resolved. -/
inductive HostOp
  | mkdir (path : List (List Char))
  | writeFile (path : List (List Char)) (content : List Char)
  | mount (target : List (List Char)) (options : List Char)
  | chown (path : List (List Char)) (uid gid : Nat)
  deriving DecidableEq, Repr

/-- The fields of a container that the preparation reads; `userRemap` is the host user and
group `util_parse_user_remap` reads from `hostconfig->user_remap`, and `env` is `none` when the
container has no `config`. -/
structure Container where
  baseFs : List Char
  systemContainer : Bool
  externalRootfs : Option (List Char)
  memory : Int
  userRemap : Option (Nat × Nat)
  envTargetFile : Option (List Char)
  env : Option (List (List Char))

/-! ## Directories -/

/-- The file system with a new directory at the resolved path `p`. -/
def mkdirAt (fs : HostFs.Fs) (p : List (List Char)) : HostFs.Fs :=
  fun q => if q = p then some .dir else fs q

/-- `util_dir_exists(path)`: `stat` finds a directory. -/
def utilDirExists (fs : HostFs.Fs) (path : List Char) : Bool :=
  (HostFs.resolve fs path).bind (HostFs.nodeAt fs) = some .dir

/-- The paths `util_mkdir_p(dir)` calls `mkdir` on: the path up to the end of each of its
components. -/
def mkdirPrefixes (dir : List Char) : List (List Char) :=
  let comps := HostFs.components dir
  let lead := if dir.head? = some '/' then ['/'] else []
  (List.range comps.length).map fun i => lead ++ ['/'].intercalate (comps.take (i + 1))

/-- One `mkdir(cur_dir)` of `util_mkdir_p`: an existing entry must be a directory when
followed; a missing one is created where its parent resolves. -/
def mkdirStep (acc : Option (HostFs.Fs × List HostOp)) (curDir : List Char) :
    Option (HostFs.Fs × List HostOp) :=
  match acc with
  | none => none
  | some (fs, ops) =>
    match HostFs.lstat fs curDir with
    | some _ => if utilDirExists fs curDir then some (fs, ops) else none
    | none =>
      match HostFs.walk fs HostFs.linkDepth false [] curDir with
      | none => none
      | some p => some (mkdirAt fs p, ops ++ [.mkdir p])

/-- `util_mkdir_p(dir, mode)`. -/
def utilMkdirP (fs : HostFs.Fs) (dir : List Char) : Option (HostFs.Fs × List HostOp) :=
  if pathMax < dir.length then none
  else (mkdirPrefixes dir).foldl mkdirStep (some (fs, []))

/-! ## `/dev` of a system container -/

/-- The options of the `tmpfs`: half the memory limit, when there is one. -/
def devMountOptions (memory : Int) : List Char :=
  if 0 < memory then ("size=" ++ toString (memory / 2) ++ ",mode=755").toList
  else "mode=755".toList

/-- `mount_dev_tmpfs_for_system_container(cont)`. -/
def mountDevTmpfsForSystemContainer (fs : HostFs.Fs) (cont : Container) :
    Option (HostFs.Fs × List HostOp) :=
  if !cont.systemContainer || cont.externalRootfs.isNone then some (fs, [])
  else
    let rootfsDevPath := cont.baseFs ++ "/dev".toList
    if pathMax ≤ rootfsDevPath.length then none
    else
      let made := if utilDirExists fs rootfsDevPath then some (fs, []) else utilMkdirP fs rootfsDevPath
      match made with
      | none => none
      | some (fs, ops) =>
        -- `mount` and `chown` resolve the path themselves, following every link
        match HostFs.resolve fs rootfsDevPath with
        | none => none
        | some target =>
          let mounted := ops ++ [.mount target (devMountOptions cont.memory)]
          match cont.userRemap with
          | none => some (fs, mounted)
          | some (hostUid, hostGid) => some (fs, mounted ++ [.chown target hostUid hostGid])

/-! ## The environment file -/

/-- The directory `create_env_path_dir(env_path)` creates: up to the last slash after the
first character, or the whole path when there is none. -/
def createEnvPathDirTarget (envPath : List Char) : List Char :=
  match envPath with
  | [] => []
  | c :: rest =>
    match rest.reverse.span (· ≠ '/') with
    | (_, []) => envPath
    | (_, _ :: revDir) => c :: revDir.reverse

/-- What `write_env_content` writes: each entry and a newline. -/
def envContent (env : List (List Char)) : List Char := (env.map (· ++ ['\n'])).flatten

/-- `write_env_content(env_path, env, env_len)`. -/
def writeEnvContent (fs : HostFs.Fs) (cwd envPath : List Char) (env : List (List Char)) :
    Option (HostFs.Fs × List HostOp) :=
  let dir := createEnvPathDirTarget envPath
  let made := if dir = [] then some (fs, []) else utilMkdirP fs dir
  match made with
  | none => none
  | some (fs, ops) =>
    -- `util_open` cleans the path and `open` follows every link, the last one too
    match cleanpath cwd envPath with
    | none => none
    | some rpath =>
      match HostFs.resolve fs rpath with
      | none => none
      | some target => some (fs, ops ++ [.writeFile target (envContent env)])

/-- `write_env_to_target_file(cont)`. -/
def writeEnvToTargetFile (fs : HostFs.Fs) (cwd : List Char) (cont : Container) :
    Option (HostFs.Fs × List HostOp) :=
  match cont.envTargetFile, cont.env with
  | some t, some env =>
    match utilPathJoin cwd cont.baseFs t with
    | none => none
    | some envPath => writeEnvContent fs cwd envPath env
  | _, _ => some (fs, [])

/-- The host-side steps of `do_start_container` before the runtime runs: what they do to the
host, or `none` when one fails. -/
def doStartContainerPrepare (fs : HostFs.Fs) (cwd : List Char) (cont : Container) :
    Option (List HostOp) :=
  match mountDevTmpfsForSystemContainer fs cont with
  | none => none
  | some (fs, devOps) =>
    match writeEnvToTargetFile fs cwd cont with
    | none => none
    | some (_, envOps) => some (devOps ++ envOps)

/-- The root file system `/c` holds the links `dev -> /dev` and `etc -> /etc`. -/
def plantedLinks : HostFs.Fs := fun path =>
  if path = ["c".toList] then some .dir
  else if path = ["c".toList, "dev".toList] then some (.link "/dev".toList)
  else if path = ["c".toList, "etc".toList] then some (.link "/etc".toList)
  else if path = ["dev".toList] then some .dir
  else if path = ["etc".toList] then some .dir
  else none

/-- A system container on the external root file system `/c`, remapped to user 1000, with
its environment to be written at `/etc/app.env`. -/
def linkedContainer : Container :=
  ⟨"/c".toList, true, some "/c".toList, 0, some (1000, 1000), some "/etc/app.env".toList,
    some ["A=1".toList]⟩

/-- Starting that container mounts over and hands out the host's `/dev`, and writes the
host's `/etc/app.env`. -/
theorem doStartContainer_writes_outside_rootfs :
    doStartContainerPrepare plantedLinks ['/'] linkedContainer =
      some [.mount ["dev".toList] "mode=755".toList, .chown ["dev".toList] 1000 1000,
        .writeFile ["etc".toList, "app.env".toList] "A=1\n".toList] ∧
    ¬ ["c".toList] <+: ["dev".toList] ∧ ¬ ["c".toList] <+: ["etc".toList, "app.env".toList] := by
  decide

end Execution

end Isulad
