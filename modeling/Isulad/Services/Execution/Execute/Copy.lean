import Isulad.Framework.Getopt
import Isulad.Path

/-!
# Copying files into and out of a container (`execution_stream.c`, `libtar.c`)

Both directions resolve the path the client names inside the container's root `base_fs` with
`follow_symlink_in_scope`, and then run the host's `tar` as root on the result.

Out of the container (`copy_from_container_cb`), `resolve_path` resolves the parent directory
of the path in scope and appends its last component as written; `archive_and_send_copy_data`
splits the result into a directory and a base name, and `archive_path` runs
`tar -c -C dir --transform s/base/name/ base`, with no `--` before `base`. When the base name
begins with `-`, `tar` reads it as an option: a container whose `/data/link` points to the
directory `--use-compress-program=sh` at its root turns the copy of `/data/link/` into
`tar ... --use-compress-program=sh`, and no element of the vector is the entry to archive
(`copyFromContainerCb_passes_base_as_option`).

Into the container (`copy_to_container_cb`), the destination directory is resolved in scope
and checked to be a directory, and then `archive_untar` runs `tar -x -C dir`, which creates
each member of the client's archive under `dir` through the kernel's own path resolution, so
every link the container planted under `dir` is followed: a member `conf/passwd` under a link
`conf -> /etc` is written to the host's `/etc/passwd`
(`copyToContainerCb_writes_through_planted_link`). The kernel's resolution is `HostFs.walk`, a
member's own last component not followed (`tar` replaces an existing entry), and the
`readlink` that `follow_symlink_in_scope` calls is that of the same file system.
-/

namespace Isulad

namespace Copy

open Isulad.Path

/-! ## `resolve_path` -/

/-- `has_trailing_path_separator(path)`. -/
def hasTrailingPathSeparator (path : List Char) : Bool := path.getLast? = some '/'

/-- `preserve_trailing_dot_or_separator(cleanedpath, originalpath)`: the cleaned path with the
original's trailing `.` or `/`. -/
def preserveTrailingDotOrSeparator (cleanedpath originalpath : List Char) : Option (List Char) :=
  if cleanedpath = [] ∨ originalpath = [] then none
  else if pathMax ≤ cleanedpath.length then none
  else
    let respath :=
      if !specifyCurrentDir cleanedpath && specifyCurrentDir originalpath then
        (if hasTrailingPathSeparator cleanedpath then cleanedpath else cleanedpath ++ ['/']) ++ ['.']
      else cleanedpath
    some (if !hasTrailingPathSeparator respath && hasTrailingPathSeparator originalpath then
      respath ++ ['/'] else respath)

/-- `filepath_split(path, &dir, &base)`: cut after the last slash; `.` when there is none. -/
def filepathSplit (path : List Char) : List Char × List Char :=
  match path.reverse.span (· ≠ '/') with
  | (_, []) => (['.'], path)
  | (revBase, _ :: revDir) => (('/' :: revDir).reverse, revBase.reverse)

/-- `get_resource_path(rootpath, path)`: `/rootpath/path` cleaned and resolved in scope. -/
def getResourcePath (readlink : List Char → Option (List Char)) (cwd rootpath path : List Char) :
    Option (List Char) :=
  let tmppath := '/' :: rootpath ++ '/' :: path
  if pathMax ≤ tmppath.length then none
  else
    match cleanpath cwd tmppath with
    | none => none
    | some fullpath => followSymlinkInScope readlink cwd fullpath rootpath

/-- `resolve_path(rootpath, path, &resolvedpath, &abspath)`: the parent directory resolved in
scope with the last component appended, and the path made absolute. -/
def resolvePath (readlink : List Char → Option (List Char)) (cwd rootpath path : List Char) :
    Option (List Char × List Char) :=
  let tmppath := '/' :: path
  if pathMax ≤ tmppath.length then none
  else
    match cleanpath cwd tmppath with
    | none => none
    | some cleaned =>
      match preserveTrailingDotOrSeparator cleaned tmppath with
      | none => none
      | some abspath =>
        match getResourcePath readlink cwd rootpath (filepathSplit abspath).1 with
        | none => none
        | some resolvedDir => some (resolvedDir ++ '/' :: (filepathSplit abspath).2, abspath)

/-- `strstr(hay, needle) + strlen(needle)`: the text after the first occurrence. -/
def afterFirstInfix (needle : List Char) : List Char → Option (List Char)
  | [] => if needle = [] then some [] else none
  | c :: cs => if needle <+: c :: cs then some ((c :: cs).drop needle.length)
    else afterFirstInfix needle cs

/-- What `do_container_stat_path` reports: the node `lstat` finds, and for a link its
resolution inside the container. -/
structure ContainerPathStat where
  mode : HostFs.Node
  linkTarget : Option (List Char)
  deriving DecidableEq, Repr

/-- `do_container_stat_path(rootpath, resolvedpath, abspath)`. -/
def doContainerStatPath (fs : HostFs.Fs) (cwd rootpath resolvedpath abspath : List Char) :
    Option ContainerPathStat :=
  match HostFs.lstat fs resolvedpath with
  | none => none
  | some (.link t) =>
    match getResourcePath (HostFs.readlink fs) cwd rootpath abspath with
    | none => none
    | some hostpath =>
      match afterFirstInfix rootpath hostpath with
      | none => none
      | some rest =>
        match utilPathJoin cwd ['/'] rest with
        | none => none
        | some target => some ⟨.link t, some target⟩
  | some node => some ⟨node, none⟩

/-- `resolve_and_stat_path(rootpath, srcpath, &resolvedpath, &abspath)`. -/
def resolveAndStatPath (fs : HostFs.Fs) (cwd rootpath srcpath : List Char) :
    Option (ContainerPathStat × List Char × List Char) :=
  match resolvePath (HostFs.readlink fs) cwd rootpath srcpath with
  | none => none
  | some (resolved, abs) =>
    match doContainerStatPath fs cwd rootpath resolved abs with
    | none => none
    | some stat => some (stat, resolved, abs)

/-! ## `tar` -/

/-- `format_transform_of_tar(srcbase, dstbase)`: `s/src/dst/`, `/` written `.`. -/
def formatTransformOfTar (srcbase dstbase : List Char) : Option (List Char) :=
  let srcEscaped := if srcbase = ['/'] then ['.'] else srcbase
  let dstEscaped := if dstbase = ['/'] then ['.'] else dstbase
  if pathMax < srcEscaped.length + dstEscaped.length + 5 then none
  else some ("s/".toList ++ srcEscaped ++ '/' :: dstEscaped ++ ['/'])

/-- The argument vector `archive_path(srcdir, srcbase, rebase_name, compression)` runs. -/
def archivePath (srcdir srcbase rebaseName : List Char) (compression : Bool) :
    List (List Char) :=
  ["tar".toList, "-c".toList] ++ (if compression then ["-z".toList] else []) ++
    ["-C".toList, srcdir] ++
    (match formatTransformOfTar srcbase rebaseName with
      | some transform => ["--transform".toList, transform]
      | none => []) ++
    [srcbase]

/-- The argument vector `archive_untar(content, compression, dstdir, transform)` runs. -/
def archiveUntar (compression : Bool) (dstdir : List Char) (transform : Option (List Char)) :
    List (List Char) :=
  ["tar".toList, "-x".toList] ++ (if compression then ["-z".toList] else []) ++
    ["-C".toList, dstdir] ++
    (match transform with
      | some transform => ["--transform".toList, transform]
      | none => [])

/-- The first occurrence of `pat` in `s` replaced by `repl`. -/
def replaceFirst (pat repl : List Char) : List Char → List Char
  | [] => []
  | c :: cs => if pat ≠ [] ∧ pat <+: c :: cs then repl ++ (c :: cs).drop pat.length
    else c :: replaceFirst pat repl cs

/-- A member's name after `--transform s/pat/repl/`, the pattern read as plain text. -/
def applyTransform : Option (List Char) → List Char → List Char
  | none, name => name
  | some t, name =>
    match (t.drop 2).span (· ≠ '/') with
    | (pat, _ :: rest) => replaceFirst pat (rest.takeWhile (· ≠ '/')) name
    | (_, []) => name

/-- Where `tar -x -C dir` creates each member of the archive: the kernel resolves
`dir/member`, following every link but the member's own last component. -/
def untarTargets (fs : HostFs.Fs) (dstdir : List Char) (transform : Option (List Char))
    (members : List (List Char)) : List (Option (List (List Char))) :=
  members.map fun m =>
    HostFs.walk fs HostFs.linkDepth false [] (dstdir ++ '/' :: applyTransform transform m)

/-! ## Copying out of a container -/

/-- `archive_and_send_copy_data(stream, response, resolvedpath, abspath)`: the `tar` it
runs. -/
def archiveAndSendCopyData (cwd resolvedpath abspath : List Char) : Option (List (List Char)) :=
  match cleanpath cwd resolvedpath with
  | none => none
  | some cleaned => some (archivePath (dirname cleaned) (basename cleaned) (basename abspath) false)

/-- `copy_from_container_cb` for the path `srcpath` of a container with root `baseFs`: the
`tar` it runs. -/
def copyFromContainerCb (fs : HostFs.Fs) (cwd baseFs srcpath : List Char) :
    Option (List (List Char)) :=
  match resolveAndStatPath fs cwd baseFs srcpath with
  | none => none
  | some (_, resolved, abs) => archiveAndSendCopyData cwd resolved abs

/-- The container's `/data/link` points to the directory `--use-compress-program=sh` at its
root. -/
def optionNamedDir : HostFs.Fs := fun path =>
  if path = ["rootfs".toList] then some .dir
  else if path = ["rootfs".toList, "data".toList] then some .dir
  else if path = ["rootfs".toList, "data".toList, "link".toList] then
    some (.link "/--use-compress-program=sh".toList)
  else if path = ["rootfs".toList, "--use-compress-program=sh".toList] then some .dir
  else none

/-- The `tar` that copying `/data/link/` out of that container runs. -/
def compressArgv : List (List Char) :=
  ["tar".toList, "-c".toList, "-C".toList, "/rootfs".toList, "--transform".toList,
    "s/--use-compress-program=sh/link/".toList, "--use-compress-program=sh".toList]

/-- Copying `/data/link/` out of the container with root `/rootfs` hands `tar` the base name
`--use-compress-program=sh` with no `--` before it: whatever options `tar` knows, it reads no
operand there, and none of the vector names the entry to archive. -/
theorem copyFromContainerCb_passes_base_as_option :
    copyFromContainerCb optionNamedDir ['/'] "/rootfs".toList "/data/link/".toList =
      some compressArgv ∧
    ∀ takesArg, Getopt.Arg.operand "--use-compress-program=sh".toList ∉
      Getopt.classify takesArg compressArgv.tail := by
  refine ⟨by decide, fun takesArg h => ?_⟩
  rcases Getopt.classify_operand h with hd | hd
  · exact absurd hd (by decide)
  · exact absurd hd (by decide)

/-! ## Copying into a container -/

/-- `struct archive_copy_info`. -/
structure ArchiveCopyInfo where
  path : List Char
  pathExists : Bool
  isdir : Bool
  rebaseName : Option (List Char)

/-- `asserts_directory(path)`. -/
def assertsDirectory (path : List Char) : Bool :=
  hasTrailingPathSeparator path || specifyCurrentDir path

/-- The base name `split_path_dir_entry(path, NULL, &base)` gives. -/
def splitPathBase (cwd path : List Char) : Option (List Char) :=
  match cleanpath cwd path with
  | none => none
  | some cleaned => some (basename (if specifyCurrentDir path then cleaned ++ ['/', '.'] else cleaned))

/-- `prepare_archive_copy(srcinfo, dstinfo, &transform, &err)`: the directory to extract into
and the renaming, or the error text (`none` when it sets none). -/
def prepareArchiveCopy (cwd : List Char) (srcinfo dstinfo : ArchiveCopyInfo) :
    Except (Option String) (List Char × Option (List Char)) :=
  match splitPathDirEntry cwd dstinfo.path, splitPathBase cwd dstinfo.path,
      splitPathBase cwd srcinfo.path with
  | some dstdir, some dstbase, some srcbase =>
    let rebased := formatTransformOfTar (srcinfo.rebaseName.getD srcbase) dstbase
    if dstinfo.pathExists && dstinfo.isdir then .ok (dstinfo.path, none)
    else if dstinfo.pathExists && srcinfo.isdir then .error (some "cannot copy directory to file")
    else if dstinfo.pathExists then .ok (dstdir, rebased)
    else if srcinfo.isdir then .ok (dstdir, rebased)
    else if assertsDirectory dstinfo.path then .error (some "no such directory, can not copy file")
    else .ok (dstdir, rebased)
  | _, _, _ => .error none

/-- `container_copy_to_request`. -/
structure CopyToRequest where
  dstPath : List Char
  srcIsdir : Bool
  srcPath : List Char
  srcRebaseName : Option (List Char)

/-- `copy_to_container_get_dstdir(cont, request, &transform)`: a link at the destination is
followed once, inside the container. -/
def copyToContainerGetDstdir (fs : HostFs.Fs) (cwd baseFs : List Char) (request : CopyToRequest) :
    Except (Option String) (List Char × Option (List Char)) :=
  let first : Option ContainerPathStat :=
    (resolveAndStatPath fs cwd baseFs request.dstPath).map (·.1)
  let dst : List Char × Option ContainerPathStat :=
    match first with
    | some { mode := .link _, linkTarget := some target } => (target, (resolveAndStatPath fs cwd baseFs target).map (·.1))
    | _ => (request.dstPath, first)
  let dstinfo : ArchiveCopyInfo :=
    ⟨dst.1, dst.2.isSome, dst.2.any (·.mode = .dir), none⟩
  prepareArchiveCopy cwd ⟨request.srcPath, true, request.srcIsdir, request.srcRebaseName⟩ dstinfo

/-- `copy_to_container_resolve_path(cont, dstdir, &resolvedpath, &abspath)`: the directory
resolved in scope. -/
def copyToContainerResolvePath (fs : HostFs.Fs) (cwd baseFs dstdir : List Char) :
    Option (List Char) :=
  match utilPathJoin cwd ['/'] dstdir with
  | none => none
  | some joined =>
    match cleanpath cwd joined with
    | none => none
    | some cleaned =>
      match preserveTrailingDotOrSeparator cleaned dstdir with
      | none => none
      | some abspath => getResourcePath (HostFs.readlink fs) cwd baseFs abspath

/-- `copy_to_container_check_path_valid(cont, resolvedpath, abspath)`. -/
def copyToContainerCheckPathValid (fs : HostFs.Fs) (readonlyRootfs : Bool)
    (resolvedpath : List Char) : Except String Unit :=
  if readonlyRootfs then .error "container rootfs is marked read-only"
  else
    match HostFs.lstat fs resolvedpath with
    | none => .error ("lstat " ++ String.ofList resolvedpath)
    | some .dir => .ok ()
    | some _ => .error "extraction point is not a directory"

/-- `copy_to_container_cb(request, stream, &err)` with the archive's members `members`: where
`tar -x` creates each of them, or the error text. -/
def copyToContainerCb (fs : HostFs.Fs) (cwd baseFs : List Char) (readonlyRootfs : Bool)
    (request : CopyToRequest) (members : List (List Char)) :
    Except (Option String) (List (Option (List (List Char)))) :=
  match copyToContainerGetDstdir fs cwd baseFs request with
  | .error e => .error e
  | .ok (dstdir, transform) =>
    match copyToContainerResolvePath fs cwd baseFs dstdir with
    | none => .error none
    | some resolvedpath =>
      match copyToContainerCheckPathValid fs readonlyRootfs resolvedpath with
      | .error e => .error (some e)
      | .ok () => .ok (untarTargets fs resolvedpath transform members)

/-- The container with root `/c` holds a link `conf -> /etc`. -/
def plantedEtc : HostFs.Fs := fun path =>
  if path = ["c".toList] then some .dir
  else if path = ["c".toList, "conf".toList] then some (.link "/etc".toList)
  else if path = ["etc".toList] then some .dir
  else if path = ["etc".toList, "passwd".toList] then some .file
  else none

/-- Copying an archive with the member `conf/passwd` to `/` of that container passes every
check and has `tar` write the host's `/etc/passwd`. -/
theorem copyToContainerCb_writes_through_planted_link :
    copyToContainerCb plantedEtc ['/'] "/c".toList false
        ⟨['/'], false, "passwd".toList, none⟩ ["conf/passwd".toList] =
      .ok [some ["etc".toList, "passwd".toList]] ∧
    ¬ ["c".toList] <+: ["etc".toList, "passwd".toList] :=
  ⟨rfl, by decide⟩

end Copy

end Isulad
