import Mathlib.Data.List.Basic

/-!
# A host file system with symbolic links, and how the kernel resolves paths in it

The file system gives each path that no link leads through (a list of names from `/`) its
node: a directory, a regular file or a symbolic link with its text. The kernel resolves a
path one component at a time from `/` (or from the working directory): `.` stays, `..` goes
up (not above `/`), a directory is entered, and a link is replaced by the resolution of its
text, from `/` when the text is absolute and from the link's own directory otherwise. The
last component's link is followed by `open` and `stat`, and not by `lstat` and `readlink`
(`follow`). A missing last component resolves to the path where it would be created; a
missing or non-directory one before it fails.

`walk` nests the resolution of link texts at most `depth` deep (the kernel gives up after 40
links). Each level is a structural recursion on the components, so the walk computes.
-/

namespace HostFs

/-- What a path leads to. -/
inductive Node
  | dir
  | file
  | link (target : List Char)
  deriving DecidableEq, Repr

/-- A file system: the node at each path of names that no link leads through. -/
abbrev Fs := List (List Char) → Option Node

/-- The names in a path: its slash-separated pieces, empty ones dropped. -/
def components (p : List Char) : List (List Char) :=
  (p.splitOn '/').filter (· ≠ [])

/-- Where the resolution of `p` starts: at `/` for an absolute path, else at `cur`. -/
def startAt (cur : List (List Char)) (p : List Char) : List (List Char) :=
  if p.head? = some '/' then [] else cur

/-- The node at a resolved path; `/` is a directory. -/
def nodeAt (fs : Fs) (path : List (List Char)) : Option Node :=
  if path = [] then some .dir else fs path

/-- Resolve the names `comps` from the directory `cur`, with `sub cur t` resolving the text
`t` of a link found in `cur`. -/
def walkWith (fs : Fs) (follow : Bool)
    (sub : List (List Char) → List Char → Option (List (List Char))) :
    List (List Char) → List (List Char) → Option (List (List Char))
  | cur, [] => some cur
  | cur, c :: rest =>
    if c = ['.'] then walkWith fs follow sub cur rest
    else if c = ['.', '.'] then walkWith fs follow sub cur.dropLast rest
    else
      match fs (cur ++ [c]) with
      | none => if rest = [] then some (cur ++ [c]) else none
      | some .file => if rest = [] then some (cur ++ [c]) else none
      | some .dir => walkWith fs follow sub (cur ++ [c]) rest
      | some (.link t) =>
        if rest = [] ∧ follow = false then some (cur ++ [c])
        else
          match sub cur t with
          | none => none
          | some d =>
            if rest ≠ [] ∧ nodeAt fs d ≠ some .dir then none
            else walkWith fs follow sub d rest

/-- Resolve the path `p` from the directory `cur`, link texts nested at most `depth` deep. -/
def walk (fs : Fs) : Nat → Bool → List (List Char) → List Char → Option (List (List Char))
  | 0, follow, cur, p => walkWith fs follow (fun _ _ => none) (startAt cur p) (components p)
  | depth + 1, follow, cur, p =>
    walkWith fs follow (fun d t => walk fs depth true d t) (startAt cur p) (components p)

/-- The kernel's bound on the links one lookup follows. -/
def linkDepth : Nat := 40

/-- The path `open` reaches from `/`, every link followed. -/
def resolve (fs : Fs) (p : List Char) : Option (List (List Char)) :=
  walk fs linkDepth true [] p

/-- `lstat`: the node of the path itself, a last link not followed. -/
def lstat (fs : Fs) (p : List Char) : Option Node :=
  (walk fs linkDepth false [] p).bind (nodeAt fs)

/-- `readlink`: the text of the link the path names. -/
def readlink (fs : Fs) (p : List Char) : Option (List Char) :=
  match lstat fs p with
  | some (.link t) => some t
  | _ => none

end HostFs
