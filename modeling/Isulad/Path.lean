import Isulad.Framework.HostFs
import Isulad.Framework.Loop
import Mathlib.Data.List.Infix

/-!
# Cleaning paths and resolving them inside a root (`path.c`)

`cleanpath` makes a path absolute (against the working directory) and removes its empty,
`.` and `..` components lexically, `..` stopping at `/`. `follow_symlink_in_scope(fullpath,
rootpath)` cleans both and resolves `fullpath` as if `rootpath` were `/`: its loop
(`do_eval_symlinks_in_scope`) copies one component at a time after the root, backs up on
`..` but never into the root, and on a symbolic link splices the link's text in front of the
rest of the path, restarting at the root for an absolute target and dropping the link's name
for a relative one, up to `MAXSYMLINKS` links.

Strings are lists of characters; a C buffer with its cursor `dest` is the text before
`dest`. The file system is the oracle `readlink`: the target of the path when it is a
symbolic link (`lstat` and `readlink`), `none` otherwise. Both loops are `for` loops whose
every round consumes input or a link, so they are `Loop.run`s of their bodies.

Whatever the file system holds, the result stays under the root: it is the root, or begins
with the root and a slash (`followSymlinkInScope_scope`). But whether `fullpath` lies under
the root at all is tested with `strstr`, which finds the root anywhere in it: a path such as
`/a/bc/d` is resolved under the root `/a/b` (to `/a/b/c/d`) where it should be refused
(`followSymlinkInScope_accepts_outside_root`).
-/

namespace Isulad

namespace Path

/-! ## Text in a buffer -/

/-- `PATH_MAX`. -/
def pathMax : Nat := 4096

/-- `MAXSYMLINKS` of the C library's `<sys/param.h>`. -/
def maxSymlinks : Nat := 20

/-- The component at the head of a path, and the rest from the slash that ends it: skip the
slashes, then take the characters up to the next slash or the end
(`do_eval_symlinks_skip_slash`; `do_clean_path` scans the same way). -/
def skipSlash (p : List Char) : List Char × List Char :=
  (p.dropWhile (· = '/')).span (· ≠ '/')

/-- `for (--dest; dest > start && !ISSLASH(dest[-1]); --dest)` on the text before `dest`: drop
the last character, then those back to the last slash. -/
def backToSlash (buf : List Char) : List Char :=
  (buf.dropLast.reverse.dropWhile (· ≠ '/')).reverse

/-- `if (!ISSLASH(dest[-1])) *dest++ = '/'`. -/
def withSlash (buf : List Char) : List Char :=
  if buf.getLast? = some '/' then buf else buf ++ ['/']

/-- A non-empty component leaves less of the path to scan. -/
lemma skipSlash_snd_length {p : List Char} (h : (skipSlash p).1 ≠ []) :
    (skipSlash p).2.length < p.length := by
  simp only [skipSlash, List.span_eq_takeWhile_dropWhile] at h ⊢
  have hsplit := List.takeWhile_append_dropWhile (p := fun c => decide (c ≠ '/'))
    (l := p.dropWhile (· = '/'))
  have hlen := congrArg List.length hsplit
  have hsuffix : (p.dropWhile (· = '/')).length ≤ p.length := (List.dropWhile_suffix _).length_le
  have hpos := List.length_pos_of_ne_nil h
  rw [List.length_append] at hlen
  omega

/-- Backing up to a slash keeps a prefix that ends in a slash, when there is more after it. -/
lemma backToSlash_prefix {pre buf : List Char} (h : pre ++ ['/'] <+: buf)
    (hlen : pre.length + 1 < buf.length) : pre ++ ['/'] <+: backToSlash buf := by
  obtain ⟨m, rfl⟩ := h
  obtain ⟨c, m, rfl⟩ : ∃ c m', m = c :: m' := by
    cases m with
    | nil => simp at hlen
    | cons c m' => exact ⟨c, m', rfl⟩
  -- the slash at the end of `pre ++ ['/']` stops the scan back
  have hdrop : (pre ++ ['/'] ++ c :: m).dropLast = pre ++ '/' :: (c :: m).dropLast := by
    rw [List.append_assoc, List.singleton_append, List.dropLast_append_of_ne_nil (by simp)]
    rfl
  have hscan : ∀ l : List Char, ∃ t, (l ++ '/' :: pre.reverse).dropWhile (· ≠ '/') =
      t ++ '/' :: pre.reverse := by
    intro l
    induction l with
    | nil => exact ⟨[], by simp⟩
    | cons x l ih =>
      by_cases hx : x = '/'
      · exact ⟨x :: l, by simp [hx]⟩
      · simpa [hx] using ih
  obtain ⟨t, ht⟩ := hscan (c :: m).dropLast.reverse
  refine ⟨t.reverse, ?_⟩
  have hrev : (pre ++ '/' :: (c :: m).dropLast).reverse =
      (c :: m).dropLast.reverse ++ '/' :: pre.reverse := by simp
  rw [backToSlash, hdrop, hrev, ht]
  simp

lemma prefix_withSlash (buf : List Char) : buf <+: withSlash buf := by
  unfold withSlash
  split
  · exact List.prefix_refl _
  · exact List.prefix_append _ _

/-- Dropping the last character keeps a shorter prefix. -/
lemma prefix_dropLast {pre buf : List Char} (h : pre <+: buf) (hlen : pre.length < buf.length) :
    pre <+: buf.dropLast := by
  obtain ⟨m, rfl⟩ := h
  have hm : m ≠ [] := by
    rintro rfl
    simp at hlen
  rw [List.dropLast_append_of_ne_nil hm]
  exact List.prefix_append _ _

/-! ## `cleanpath` -/

/-- The state of `do_clean_path`'s loop: the text from `stpos` on, and the result before
`dest`. -/
structure CleanState where
  stpos : List Char
  dest : List Char

/-- `do_clean_path_continue`: `.` is skipped and `..` backs `dest` up one component, but not
past the leading slash; `none` for any other component. -/
def doCleanPathContinue (comp dest : List Char) : Option (List Char) :=
  if comp = ['.'] then some dest
  else if comp = ['.', '.'] then some (if dest.length ≤ 1 then dest else backToSlash dest)
  else none

/-- One round of `do_clean_path`'s loop; it fails when the result would not fit `PATH_MAX`. -/
def doCleanPathStep (s : CleanState) : Option (List Char) ⊕ CleanState :=
  if s.stpos = [] then .inl (some s.dest)
  else
    let r := skipSlash s.stpos
    if r.1 = [] then .inl (some s.dest)
    else
      match doCleanPathContinue r.1 s.dest with
      | some dest => .inr ⟨r.2, dest⟩
      | none =>
        let dest := withSlash s.dest
        if dest.length + r.1.length ≥ pathMax then .inl none
        else .inr ⟨r.2, dest ++ r.1⟩

lemma doCleanPathStep_decreases : Loop.Decreases doCleanPathStep (·.stpos.length) := by
  intro s s' h
  unfold doCleanPathStep at h
  dsimp only at h
  split at h
  · cases h
  · split at h
    · cases h
    · rename_i hcomp
      have := skipSlash_snd_length hcomp
      split at h
      · cases h
        exact this
      · split at h
        · cases h
        · cases h
          exact this

/-- `do_clean_path`. -/
def doCleanPath (stpos dest : List Char) : Option (List Char) :=
  (Loop.run doCleanPathStep (·.stpos.length) ⟨stpos, dest⟩).join

/-- `cleanpath(path, ...)`, with `cwd` what `getcwd` gives for a relative path. -/
def cleanpath (cwd path : List Char) : Option (List Char) :=
  if path = [] then none
  else
    let start : Option (List Char) :=
      if path.head? = some '/' then some ['/']
      else if path.length ≥ pathMax - 1 - cwd.length then none
      else some cwd
    match start with
    | none => none
    | some dest =>
      match doCleanPath path dest with
      | none => none
      | some dest => some (if dest.length > 1 ∧ dest.getLast? = some '/' then dest.dropLast else dest)

/-! ## `follow_symlink_in_scope` -/

/-- `skip_dest_trailing_slash`: back `dest` up one component, never into the root prefix. -/
def skipDestTrailingSlash (dest : List Char) (prefixLen : Nat) : List Char :=
  if dest.length > prefixLen + 1 then backToSlash dest else dest

/-- `do_get_symlinks_copy_buf`: an absolute link text restarts the result at the root
prefix; a relative one drops the link's own name. -/
def doGetSymlinksCopyBuf (buf prefixPath : List Char) (prefixLen : Nat) (dest : List Char) :
    List Char :=
  if buf.head? = some '/' then prefixPath.take prefixLen ++ ['/']
  else skipDestTrailingSlash dest prefixLen

/-- The state of `do_eval_symlinks_in_scope`'s loop: the text from `start` on (of `fullpath`,
or of `extra_buf` after a link), the result before `dest`, and `num_links`. -/
structure ScopeState where
  start : List Char
  dest : List Char
  numLinks : Nat

/-- `do_get_symlinks` for the link before `dest` whose text is `target`, where `rest` is the
path after the link (`*end`): count the link, and go on from its text followed by the rest.
It fails past `MAXSYMLINKS` links, and when the two do not fit `PATH_MAX`. -/
def doGetSymlinks (target rest prefixPath : List Char) (prefixLen numLinks : Nat)
    (dest : List Char) : Option ScopeState :=
  if numLinks + 1 > maxSymlinks then none
  else
    -- `readlink(*rpath, buf, PATH_MAX - 1)`
    let buf := target.take (pathMax - 1)
    if rest.length ≥ pathMax - buf.length then none
    else some ⟨buf ++ rest, doGetSymlinksCopyBuf buf prefixPath prefixLen dest, numLinks + 1⟩

/-- One round of `do_eval_symlinks_in_scope`'s loop. -/
def doEvalSymlinksInScopeStep (readlink : List Char → Option (List Char))
    (prefixPath : List Char) (prefixLen : Nat) (s : ScopeState) :
    Option (List Char) ⊕ ScopeState :=
  if s.start = [] then .inl (some s.dest)
  else
    let r := skipSlash s.start
    if r.1 = [] then .inl (some s.dest)
    else if r.1 = ['.'] then .inr { s with start := r.2 }
    else if r.1 = ['.', '.'] then
      .inr { s with start := r.2, dest := skipDestTrailingSlash s.dest prefixLen }
    else
      let dest := withSlash s.dest ++ r.1
      match readlink dest with
      | none => .inr { s with start := r.2, dest := dest }
      | some target =>
        match doGetSymlinks target r.2 prefixPath prefixLen s.numLinks dest with
        | none => .inl none
        | some s' => .inr s'

/-- What is left of the loop: the links it may still follow, each bringing at most
`PATH_MAX` characters, and the characters left. -/
def scopeMeasure (s : ScopeState) : Nat :=
  s.start.length + 1 + (maxSymlinks + 1 - s.numLinks) * (pathMax + 1)

attribute [local simp] scopeMeasure in
lemma doGetSymlinks_measure {target rest prefixPath dest : List Char} {prefixLen numLinks : Nat}
    {s' : ScopeState} (h : doGetSymlinks target rest prefixPath prefixLen numLinks dest = some s')
    (start : List Char) : scopeMeasure s' < scopeMeasure ⟨start, dest, numLinks⟩ := by
  unfold doGetSymlinks at h
  split at h
  · cases h
  · rename_i hlinks
    dsimp only at h
    split at h
    · cases h
    · rename_i hfit
      cases h
      have htake := List.length_take_le (pathMax - 1) target
      simp only [scopeMeasure, List.length_append, maxSymlinks, pathMax] at hlinks hfit htake ⊢
      omega

attribute [local simp] cleanpath doEvalSymlinksInScopeStep in
lemma doEvalSymlinksInScopeStep_decreases (readlink : List Char → Option (List Char))
    (prefixPath : List Char) (prefixLen : Nat) :
    Loop.Decreases (doEvalSymlinksInScopeStep readlink prefixPath prefixLen) scopeMeasure := by
  intro s s' h
  unfold doEvalSymlinksInScopeStep at h
  dsimp only at h
  split at h
  · cases h
  · split at h
    · cases h
    · rename_i hcomp
      have hlen := skipSlash_snd_length hcomp
      split at h
      · cases h
        simp only [scopeMeasure]
        omega
      · split at h
        · cases h
          simp only [scopeMeasure]
          omega
        · split at h
          · cases h
            simp only [scopeMeasure]
            omega
          · split at h
            · cases h
            · rename_i s'' hget
              cases h
              exact doGetSymlinks_measure hget _

/-- `do_eval_symlinks_in_scope`: the loop from `fullpath + prefix_len`. -/
def doEvalSymlinksInScope (readlink : List Char → Option (List Char))
    (fullpath prefixPath : List Char) (prefixLen : Nat) (dest : List Char) :
    Option (List Char) :=
  (Loop.run (doEvalSymlinksInScopeStep readlink prefixPath prefixLen) scopeMeasure
    ⟨fullpath.drop prefixLen, dest, 0⟩).join

/-- The length of the root kept in front of the result: none for the root `/`. -/
def prefixLength (root : List Char) : Nat := if root = ['/'] then 0 else root.length

/-- `eval_symlinks_in_scope(fullpath, rootpath)`; the test that `fullpath` lies in the root
is `strstr(fullpath, root)`. -/
def evalSymlinksInScope (readlink : List Char → Option (List Char))
    (cwd fullpath rootpath : List Char) : Option (List Char) :=
  match cleanpath cwd rootpath with
  | none => none
  | some root =>
    if fullpath = root then some fullpath
    else if ¬ root <:+: fullpath then none
    else
      let prefixLen := prefixLength root
      match doEvalSymlinksInScope readlink fullpath root prefixLen
          (root.take prefixLen ++ ['/']) with
      | none => none
      | some dest =>
        some (if dest.length > prefixLen + 1 ∧ dest.getLast? = some '/' then dest.dropLast
          else dest)

/-- `follow_symlink_in_scope(fullpath, rootpath)`. -/
def followSymlinkInScope (readlink : List Char → Option (List Char))
    (cwd fullpath rootpath : List Char) : Option (List Char) :=
  match cleanpath cwd fullpath with
  | none => none
  | some full =>
    match cleanpath cwd rootpath with
    | none => none
    | some root => evalSymlinksInScope readlink cwd full root

/-! ## The result stays under the root -/

section Scope

variable {readlink : List Char → Option (List Char)} {prefixPath : List Char} {prefixLen : Nat}

lemma skipDestTrailingSlash_prefix {dest : List Char}
    (h : prefixPath.take prefixLen ++ ['/'] <+: dest)
    (hlen : (prefixPath.take prefixLen).length = prefixLen) :
    prefixPath.take prefixLen ++ ['/'] <+: skipDestTrailingSlash dest prefixLen := by
  unfold skipDestTrailingSlash
  split
  · exact backToSlash_prefix h (by omega)
  · exact h

/-- Every round of the loop keeps the root prefix and its slash in front of the result. -/
lemma doEvalSymlinksInScopeStep_prefix (hlen : (prefixPath.take prefixLen).length = prefixLen)
    {s s' : ScopeState} (h : prefixPath.take prefixLen ++ ['/'] <+: s.dest)
    (hs : doEvalSymlinksInScopeStep readlink prefixPath prefixLen s = .inr s') :
    prefixPath.take prefixLen ++ ['/'] <+: s'.dest := by
  unfold doEvalSymlinksInScopeStep at hs
  dsimp only at hs
  split at hs
  · cases hs
  · split at hs
    · cases hs
    · split at hs
      · cases hs
        exact h
      · split at hs
        · cases hs
          exact skipDestTrailingSlash_prefix h hlen
        · -- a name: it is appended, and a link then resets or backs up the result
          have hname : prefixPath.take prefixLen ++ ['/'] <+:
              withSlash s.dest ++ (skipSlash s.start).1 :=
            h.trans ((prefix_withSlash _).trans (List.prefix_append _ _))
          split at hs
          · cases hs
            exact hname
          · split at hs
            · cases hs
            · rename_i s'' hget
              cases hs
              unfold doGetSymlinks at hget
              split at hget
              · cases hget
              · dsimp only at hget
                split at hget
                · cases hget
                · cases hget
                  unfold doGetSymlinksCopyBuf
                  split
                  · exact List.prefix_refl _
                  · exact skipDestTrailingSlash_prefix hname hlen

/-- The loop ends only by returning the result so far, or by failing. -/
lemma doEvalSymlinksInScopeStep_done {s : ScopeState} {d : List Char}
    (hs : doEvalSymlinksInScopeStep readlink prefixPath prefixLen s = .inl (some d)) :
    d = s.dest := by
  unfold doEvalSymlinksInScopeStep at hs
  dsimp only at hs
  split at hs
  · cases hs
    rfl
  · split at hs
    · cases hs
      rfl
    · split at hs
      · cases hs
      · split at hs
        · cases hs
        · split at hs
          · cases hs
          · split at hs
            · cases hs
            · cases hs

/-- What the loop returns begins with the root prefix and its slash. -/
theorem doEvalSymlinksInScope_prefix (hlen : (prefixPath.take prefixLen).length = prefixLen)
    {fullpath p : List Char}
    (h : doEvalSymlinksInScope readlink fullpath prefixPath prefixLen
      (prefixPath.take prefixLen ++ ['/']) = some p) :
    prefixPath.take prefixLen ++ ['/'] <+: p := by
  unfold doEvalSymlinksInScope at h
  refine Loop.run_invariant (doEvalSymlinksInScopeStep_decreases readlink prefixPath prefixLen)
    (I := fun s => prefixPath.take prefixLen ++ ['/'] <+: s.dest)
    (Q := fun r => ∀ d, r = some d → prefixPath.take prefixLen ++ ['/'] <+: d)
    (fun _ _ hs hstep => doEvalSymlinksInScopeStep_prefix hlen hs hstep) ?_
    (List.prefix_refl _) (Option.join_eq_some_iff.1 h) p rfl
  intro s a hs hstep d hd
  subst hd
  rw [doEvalSymlinksInScopeStep_done hstep]
  exact hs

lemma length_take_prefixLength (root : List Char) :
    (root.take (prefixLength root)).length = prefixLength root := by
  unfold prefixLength
  split <;> simp

/-- Whatever the file system holds, `eval_symlinks_in_scope` returns the cleaned root, or a
path that begins with it and a slash (with the root `/`, a path that begins with `/`). -/
theorem evalSymlinksInScope_scope {cwd fullpath rootpath p : List Char}
    (h : evalSymlinksInScope readlink cwd fullpath rootpath = some p) :
    ∃ root, cleanpath cwd rootpath = some root ∧
      (p = root ∨ root.take (prefixLength root) ++ ['/'] <+: p) := by
  unfold evalSymlinksInScope at h
  cases hroot : cleanpath cwd rootpath with
  | none =>
    rw [hroot] at h
    cases h
  | some root =>
    rw [hroot] at h
    refine ⟨root, rfl, ?_⟩
    dsimp only at h
    split at h
    · -- `fullpath` is the root itself
      rename_i heq
      cases h
      exact .inl heq
    · split at h
      · cases h
      · right
        split at h
        · cases h
        · rename_i d hd
          have hpre := doEvalSymlinksInScope_prefix (length_take_prefixLength root) hd
          cases h
          split
          · rename_i htrim
            refine prefix_dropLast hpre ?_
            rw [List.length_append, length_take_prefixLength]
            simpa using htrim.1
          · exact hpre

end Scope

/-- `strstr` finds the root `/a/b` inside `/a/bc/d`, which is not under it, and the path is
resolved under the root as `/a/b/c/d`, with no link on the way. -/
theorem followSymlinkInScope_accepts_outside_root :
    cleanpath "/".toList "/a/bc/d".toList = some "/a/bc/d".toList ∧
    cleanpath "/".toList "/a/b".toList = some "/a/b".toList ∧
    ¬ "/a/b/".toList <+: "/a/bc/d".toList ∧
    followSymlinkInScope (fun _ => none) "/".toList "/a/bc/d".toList "/a/b".toList =
      some "/a/b/c/d".toList := by
  decide

/-! ## `realpath_in_scope` -/

/-- POSIX `basename` (`<libgen.h>`). -/
def basename (p : List Char) : List Char :=
  if p = [] then ['.']
  else
    let q := p.reverse.dropWhile (· = '/')
    if q = [] then ['/'] else (q.takeWhile (· ≠ '/')).reverse

/-- POSIX `dirname` (`<libgen.h>`), for paths that do not begin with two slashes. -/
def dirname (p : List Char) : List Char :=
  if p = [] then ['.']
  else
    let q := p.reverse.dropWhile (· = '/')
    if q = [] then ['/']
    else
      let r := q.dropWhile (· ≠ '/')
      if r = [] then ['.']
      else
        let s := r.dropWhile (· = '/')
        if s = [] then ['/'] else s.reverse

/-- `specify_current_dir`: the path is empty or its base name is `.`. -/
def specifyCurrentDir (path : List Char) : Bool :=
  path = [] ∨ basename path = ['.']

/-- `split_path_dir_entry(path, &dir, NULL)`: the directory of the cleaned path, a path that
names `.` keeping it as its entry. -/
def splitPathDirEntry (cwd path : List Char) : Option (List Char) :=
  match cleanpath cwd path with
  | none => none
  | some cleaned =>
    some (dirname (if specifyCurrentDir path then cleaned ++ ['/', '.'] else cleaned))

/-- `util_path_join(dir, file)` (`utils_file.c`): `dir/file` cleaned, when it fits
`PATH_MAX`. -/
def utilPathJoin (cwd dir file : List Char) : Option (List Char) :=
  if (dir ++ '/' :: file).length ≥ pathMax then none else cleanpath cwd (dir ++ '/' :: file)

/-- `max_symlink_iter` of `find_realpath`. -/
def maxSymlinkIter : Nat := 10

/-- The state of `find_realpath`'s loop. -/
structure RealpathState where
  i : Nat
  iterPath : List Char

/-- One round of `find_realpath`'s loop: while the path itself is a link (`lstat`), replace
it by the link's text, joined to the link's directory when relative. Only the last component
is looked at; the kernel follows links before it in every `lstat`. -/
def findRealpathStep (fs : HostFs.Fs) (cwd : List Char) (s : RealpathState) :
    Option (List Char) ⊕ RealpathState :=
  if s.i > maxSymlinkIter then .inl none
  else
    match HostFs.lstat fs s.iterPath with
    | some (.link text) =>
      -- `readlink(iter_path, target, PATH_MAX - 1)`
      let target := text.take (pathMax - 1)
      if target ≠ [] ∧ target.head? ≠ some '/' then
        match splitPathDirEntry cwd s.iterPath with
        | none => .inl none
        | some parent =>
          match utilPathJoin cwd parent target with
          | none => .inl none
          | some joined => .inr ⟨s.i + 1, joined⟩
      else .inr ⟨s.i + 1, target⟩
    | _ => .inl (some s.iterPath)

lemma findRealpathStep_decreases (fs : HostFs.Fs) (cwd : List Char) :
    Loop.Decreases (findRealpathStep fs cwd) (fun s => maxSymlinkIter + 1 - s.i) := by
  intro s s' h
  unfold findRealpathStep at h
  split at h
  · cases h
  · rename_i hi
    split at h
    · dsimp only at h
      split at h
      · split at h
        · cases h
        · split at h
          · cases h
          · cases h
            simp only
            omega
      · cases h
        simp only
        omega
    · cases h

/-- `find_realpath(path)`. -/
def findRealpath (fs : HostFs.Fs) (cwd path : List Char) : Option (List Char) :=
  (Loop.run (findRealpathStep fs cwd) (fun s => maxSymlinkIter + 1 - s.i) ⟨0, path⟩).join

/-- `realpath_in_scope(rootfs, path, &real_path)`: the result must begin with the characters
of `rootfs` (`strncmp(tmp, rootfs, strlen(rootfs))`). -/
def realpathInScope (fs : HostFs.Fs) (cwd rootfs path : List Char) : Option (List Char) :=
  if (rootfs ++ path).length ≥ pathMax then none
  else
    match cleanpath cwd (rootfs ++ path) with
    | none => none
    | some cleaned =>
      match findRealpath fs cwd cleaned with
      | none => none
      | some tmp => if rootfs <+: tmp then some tmp else none

/-- All `realpath_in_scope` checks of its result is that its text begins with the root's. -/
theorem realpathInScope_prefix {fs : HostFs.Fs} {cwd rootfs path out : List Char}
    (h : realpathInScope fs cwd rootfs path = some out) : rootfs <+: out := by
  unfold realpathInScope at h
  split at h
  · cases h
  · split at h
    · cases h
    · split at h
      · cases h
      · split at h
        · cases h
          assumption
        · cases h

/-- A root `/r` whose `etc` is a link to the host's `/etc`. -/
def linkedEtc : HostFs.Fs := fun path =>
  if path = ["r".toList] then some .dir
  else if path = ["r".toList, "etc".toList] then some (.link "/etc".toList)
  else if path = ["etc".toList] then some .dir
  else if path = ["etc".toList, "hostname".toList] then some .file
  else none

/-- Through the link `/r/etc` to `/etc`, `realpath_in_scope("/r", "/etc/hostname")` accepts
`/r/etc/hostname`, which the kernel opens as the host's `/etc/hostname`. -/
theorem realpathInScope_escapes_through_parent_link :
    realpathInScope linkedEtc "/".toList "/r".toList "/etc/hostname".toList =
      some "/r/etc/hostname".toList ∧
    HostFs.resolve linkedEtc "/r".toList = some ["r".toList] ∧
    HostFs.resolve linkedEtc "/r/etc/hostname".toList =
      some ["etc".toList, "hostname".toList] ∧
    ¬ ["r".toList] <+: ["etc".toList, "hostname".toList] := by
  decide

end Path

end Isulad
