import Isulad.Cutils.UtilsString
import Isulad.Framework.CString
import Isulad.Framework.Fresh

/-!
# The network files of a container (`execution_network.c`)

`merge_resolv` rewrites `resolv.conf` with the container's `--dns`, `--dns-search` and
`--dns-opt`, and `merge_hosts` rewrites `/etc/hosts` with its `--add-host` entries. Both read
the file with `getline` and build the new content line by line, then append what the options
add; a content that stays `NULL` leaves the file as it was.

A line is kept by what its first fields are, split at single spaces:

* `resolv.conf`: a line starting with `#`, or whose first field is `search`, `options` or
  `nameserver`; the values given are added to each `search` and `options` line, and the given
  nameservers, search domains and options no line had are appended after;
* `/etc/hosts`: a line starting with `#`, or with two fields; an added host becomes a line
  `ip name` unless the file had that pair.

Every other line is dropped (`resolvLine`, `hostsLine`), and a tab is no separator. The runs
over the lines (`resolvLoop_eq`, `hostsLoop_eq`) give the new content as the texts the lines
keep, in order, then what is added, and what is added is the given values not there yet, each
once (`Fresh.fresh`): `mergeResolv_eq` and `mergeHosts_eq`. A value added to a `search` or
`options` line takes the place of the line's last character, its newline when it has one
(`mergeDnsValues_snoc`); an `--add-host` entry is cut at every `:`, so only an address without
one is written whole (`mergeHostsContent_eq`).
-/

namespace Isulad

namespace ExecutionNetwork

open Cutils CString Fresh

/-- The fields of `host_config` the network files are merged from. -/
structure HostConfig where
  dns : List (List Char)
  dnsSearch : List (List Char)
  dnsOptions : List (List Char)
  extraHosts : List (List Char)
  deriving DecidableEq, Repr

/-- `write_content_to_file`: the file after the merge. A `NULL` content writes nothing. -/
def writeContentToFile (file : List Char) (content : Option (List Char)) : List Char :=
  content.getD file

/-! ## `resolv.conf` -/

/-- One value onto the line: the last character of the content, the line's newline or the
space after the value before, becomes a space, then the value and a space follow. -/
def appendDnsValue (content v : List Char) : List Char :=
  (if content.length > 0 then content.set (content.length - 1) ' ' else content) ++ v ++ [' ']

/-- The body `merge_dns_search` and `merge_dns_options` share: the values given that the line
does not have (its `tokens`) are written at its end, and the last space becomes a newline. -/
def mergeDnsValues (given : List (List Char)) (content : List Char) (tokens : List (List Char)) :
    List Char :=
  let merged := (addFresh id appendDnsValue given (content, tokens)).1
  if merged.length > content.length then merged.set (merged.length - 1) '\n' else merged

/-- `merge_dns_search`. -/
def mergeDnsSearch (hostSpec : HostConfig) (content : List Char) (tokens : List (List Char)) :
    List Char :=
  mergeDnsValues hostSpec.dnsSearch content tokens

/-- `merge_dns_options`. -/
def mergeDnsOptions (hostSpec : HostConfig) (content : List Char) (tokens : List (List Char)) :
    List Char :=
  mergeDnsValues hostSpec.dnsOptions content tokens

/-- `merge_dns`: a `nameserver` line for each address given that no line had. -/
def mergeDns (hostSpec : HostConfig) (content : Option (List Char)) (dnsMap : List (List Char)) :
    Option (List Char) × List (List Char) :=
  addFresh id (fun content d =>
      some (utilStringAppend ['\n']
        (some (utilStringAppend d (some (utilStringAppend "nameserver ".toList content))))))
    hostSpec.dns (content, dnsMap)

/-- The body `generate_new_search` and `generate_new_options` share: when the file had no line
of the kind, a new one with the values given, each once. -/
def generateNewValues (keyword : List Char) (given : List (List Char)) (seen : Bool)
    (content : Option (List Char)) : Option (List Char) :=
  if !seen && given.length > 0 then
    let line := (addFresh id (fun content v =>
        utilStringAppend [' '] (some (utilStringAppend v (some content))))
      given (utilStringAppend keyword content, [])).1
    some (utilStringAppend ['\n'] (some line))
  else content

/-- `generate_new_search`. -/
def generateNewSearch (hostSpec : HostConfig) (content : Option (List Char)) (search : Bool) :
    Option (List Char) :=
  generateNewValues "search ".toList hostSpec.dnsSearch search content

/-- `generate_new_options`. -/
def generateNewOptions (hostSpec : HostConfig) (content : Option (List Char)) (options : Bool) :
    Option (List Char) :=
  generateNewValues "options ".toList hostSpec.dnsOptions options content

/-- `generate_new_search_and_options`. -/
def generateNewSearchAndOptions (hostSpec : HostConfig) (content : Option (List Char))
    (search options : Bool) : Option (List Char) :=
  generateNewOptions hostSpec (generateNewSearch hostSpec content search) options

/-- What `merge_resolv` carries from line to line. -/
structure ResolvState where
  content : Option (List Char)
  dnsMap : List (List Char)
  search : Bool
  options : Bool
  deriving DecidableEq, Repr

/-- `resolve_handle_content` on one line; `none` is its `-1`. The fields are those of the line
trimmed, split at single spaces. -/
def resolveHandleContent (hostSpec : HostConfig) (st : ResolvState) (pline : List Char) :
    Option ResolvState :=
  if pline.head? = some '#' then
    some { st with content := some (utilStringAppend pline st.content) }
  else
    let tmpStr := utilTrimSpace (utilTrimNewline pline)
    if tmpStr = [] then some st
    else
      match strtokTokens ' ' tmpStr with
      | [] => none
      | token :: rest =>
        if token = "search".toList then
          some { st with
            search := true
            content := some (mergeDnsSearch hostSpec (utilStringAppend pline st.content) rest) }
        else if token = "options".toList then
          some { st with
            options := true
            content := some (mergeDnsOptions hostSpec (utilStringAppend pline st.content) rest) }
        else if token = "nameserver".toList then
          match rest with
          | [] => none
          | addr :: _ =>
            some { st with
              content := some (utilStringAppend pline st.content)
              dnsMap := st.dnsMap ++ [addr] }
        else some st

/-- `merge_resolv` on the content of the file: the file after, `none` when it fails. -/
def mergeResolv (hostSpec : HostConfig) (file : List Char) : Option (List Char) := do
  let st ← (getlines '\n' file).foldlM (resolveHandleContent hostSpec) ⟨none, [], false, false⟩
  let content := (mergeDns hostSpec st.content st.dnsMap).1
  let content := generateNewSearchAndOptions hostSpec content st.search st.options
  pure (writeContentToFile file content)

/-! ## `/etc/hosts` -/

/-- The content and the `ip:name` pairs of `merge_hosts`. -/
abbrev HostsState := Option (List Char) × List (List Char)

/-- `snprintf(host_key, MAX_BUFFER_SIZE, "%s:%s", ...)` fits. -/
def hostKeyFits (hostKey : List Char) : Bool := (String.ofList hostKey).utf8ByteSize < maxBufferSize

/-- The loop body of `get_content_and_hosts_map`: a comment is kept, and a line with two fields,
split at single spaces, is kept and its `ip:name` recorded. -/
def hostsHandleLine (st : HostsState) (pline : List Char) : Option HostsState :=
  if pline.head? = some '#' then some (some (utilStringAppend pline st.1), st.2)
  else
    match strtokTokens ' ' (utilTrimNewline pline) with
    | hostIp :: hostName :: _ =>
      let hostKey := hostIp ++ ':' :: hostName
      if hostKeyFits hostKey then some (some (utilStringAppend pline st.1), st.2 ++ [hostKey])
      else none
    | _ => some st

/-- `get_content_and_hosts_map`. -/
def getContentAndHostsMap (file : List Char) : Option HostsState :=
  (getlines '\n' file).foldlM hostsHandleLine (none, [])

/-- `merge_hosts_content`: each `--add-host` is cut at `:` by `strtok_r`, into the name and the
address, and written as `ip name` unless the file or an earlier one had that pair. -/
def mergeHostsContent : List (List Char) → HostsState → Option HostsState
  | [], st => some st
  | hosts :: rest, (content, hostsMap) =>
    match strtokTokens ':' hosts with
    | hostName :: hostIp :: _ =>
      let hostKey := hostIp ++ ':' :: hostName
      if !hostKeyFits hostKey then none
      else if hostsMap.contains hostKey then mergeHostsContent rest (content, hostsMap)
      else
        mergeHostsContent rest
          (some (utilStringAppend ['\n'] (some (utilStringAppend hostName
            (some (utilStringAppend [' '] (some (utilStringAppend hostIp content))))))),
           hostsMap ++ [hostKey])
    | _ => none

/-- `merge_hosts` on the content of the file: the file after, `none` when it fails. -/
def mergeHosts (hostSpec : HostConfig) (file : List Char) : Option (List Char) := do
  let st ← getContentAndHostsMap file
  let st ← mergeHostsContent hostSpec.extraHosts st
  pure (writeContentToFile file st.1)

/-! ## Writing values onto a line -/

/-- Text appended to a content that may still be `NULL`: nothing appended leaves it as it was. -/
def appendText (content : Option (List Char)) (t : List Char) : Option (List Char) :=
  if t = [] then content else some (content.getD [] ++ t)

lemma appendText_appendText (content : Option (List Char)) (t u : List Char) :
    appendText (appendText content t) u = appendText content (t ++ u) := by
  unfold appendText
  by_cases ht : t = [] <;> by_cases hu : u = [] <;> simp [ht, hu]

attribute [local simp] appendText in
/-- A writer that appends a text per entry appends the texts of all of them. -/
lemma foldl_append_some {β : Type} (f : β → List Char) (xs : List β) (content : Option (List Char))
    (hf : ∀ x, f x ≠ []) :
    xs.foldl (fun c x => some (c.getD [] ++ f x)) content = appendText content (xs.flatMap f) := by
  induction xs generalizing content with
  | nil => simp [appendText]
  | cons x xs ih =>
    rw [List.foldl_cons, ih, List.flatMap_cons, ← appendText_appendText]
    simp [appendText, hf x]

lemma foldl_append_space (xs : List (List Char)) (start : List Char) :
    xs.foldl (fun c v => c ++ v ++ [' ']) start = start ++ xs.flatMap (· ++ [' ']) := by
  induction xs generalizing start with
  | nil => simp
  | cons x xs ih =>
    rw [List.foldl_cons, ih]
    simp

/-- Over a line ending in `c`, the value replaces `c` by a space. -/
lemma appendDnsValue_snoc (l : List Char) (c : Char) (v : List Char) :
    appendDnsValue (l ++ [c]) v = (l ++ ' ' :: v) ++ [' '] := by
  simp [appendDnsValue]

lemma foldl_appendDnsValue_snoc (v : List Char) (vs : List (List Char)) :
    ∀ (l : List Char) (c : Char),
      (v :: vs).foldl appendDnsValue (l ++ [c]) = l ++ (v :: vs).flatMap (' ' :: ·) ++ [' '] := by
  -- each value leaves the content ending in the space after it
  induction vs generalizing v with
  | nil => intro l c; simp [appendDnsValue_snoc]
  | cons w ws ih =>
    intro l c
    rw [List.foldl_cons, appendDnsValue_snoc, ih w (l ++ ' ' :: v) ' ']
    simp

/-- The values given that the line lacks are written after its last character but one: after
its newline's place when it ends in one. -/
lemma mergeDnsValues_snoc (given tokens : List (List Char)) (l : List Char) (c : Char) :
    mergeDnsValues given (l ++ [c]) tokens =
      if fresh id tokens given = [] then l ++ [c]
      else l ++ (fresh id tokens given).flatMap (' ' :: ·) ++ ['\n'] := by
  unfold mergeDnsValues
  rw [addFresh_eq]
  cases h : fresh id tokens given with
  | nil => simp
  | cons v vs =>
    rw [foldl_appendDnsValue_snoc]
    -- the values written make the line longer, and its last space becomes the newline
    have hlen : (l ++ [c]).length < (l ++ (v :: vs).flatMap (' ' :: ·) ++ [' ']).length := by
      simp
    have hidx : (l ++ (v :: vs).flatMap (' ' :: ·) ++ [' ']).length - 1 =
        (l ++ (v :: vs).flatMap (' ' :: ·)).length := by
      simp only [List.length_append, List.length_singleton, Nat.add_sub_cancel]
    rw [if_pos hlen, hidx, List.set_append_right _ _ le_rfl]
    simp

lemma mergeDnsValues_append (given tokens : List (List Char)) (pre : List Char) {line : List Char}
    (hne : line ≠ []) :
    mergeDnsValues given (pre ++ line) tokens = pre ++ mergeDnsValues given line tokens := by
  obtain ⟨l, c, rfl⟩ : ∃ l c, line = l ++ [c] :=
    ⟨line.dropLast, line.getLast hne, (List.dropLast_append_getLast hne).symm⟩
  rw [← List.append_assoc, mergeDnsValues_snoc, mergeDnsValues_snoc]
  split_ifs <;> simp

lemma mergeDnsValues_ne_nil (given tokens : List (List Char)) {line : List Char}
    (hne : line ≠ []) : mergeDnsValues given line tokens ≠ [] := by
  obtain ⟨l, c, rfl⟩ : ∃ l c, line = l ++ [c] :=
    ⟨line.dropLast, line.getLast hne, (List.dropLast_append_getLast hne).symm⟩
  rw [mergeDnsValues_snoc]
  split_ifs <;> simp

/-! ## The lines of `resolv.conf` -/

/-- What a line is to `resolve_handle_content`. -/
inductive ResolvLine
  | comment
  | other
  | search (tokens : List (List Char))
  | options (tokens : List (List Char))
  | nameserver (addr : List Char)
  | bad
  deriving DecidableEq, Repr

/-- The kind of a line, by the tests of `resolve_handle_content` in their order. -/
def resolvLine (pline : List Char) : ResolvLine :=
  if pline.head? = some '#' then .comment
  else if utilTrimSpace (utilTrimNewline pline) = [] then .other
  else
    match strtokTokens ' ' (utilTrimSpace (utilTrimNewline pline)) with
    | [] => .bad
    | token :: rest =>
      if token = "search".toList then .search rest
      else if token = "options".toList then .options rest
      else if token = "nameserver".toList then
        match rest with
        | [] => .bad
        | addr :: _ => .nameserver addr
      else .other

namespace ResolvLine

/-- The text a line of the kind leaves in the new content. -/
def kept (hostSpec : HostConfig) (pline : List Char) : ResolvLine → List Char
  | comment => pline
  | search tokens => mergeDnsSearch hostSpec pline tokens
  | options tokens => mergeDnsOptions hostSpec pline tokens
  | nameserver _ => pline
  | other => []
  | bad => []

/-- The nameserver a line of the kind records. -/
def addr : ResolvLine → Option (List Char)
  | nameserver a => some a
  | _ => none

def isSearch : ResolvLine → Bool
  | search _ => true
  | _ => false

def isOptions : ResolvLine → Bool
  | options _ => true
  | _ => false

/-- The state after a line of the kind. -/
def apply (hostSpec : HostConfig) (pline : List Char) (k : ResolvLine) (st : ResolvState) :
    ResolvState where
  content := appendText st.content (k.kept hostSpec pline)
  dnsMap := st.dnsMap ++ k.addr.toList
  search := st.search || k.isSearch
  options := st.options || k.isOptions

attribute [local simp] apply kept addr isSearch isOptions in
/-- A line of no kind leaves the state as it was. -/
@[simp] lemma apply_other (hostSpec : HostConfig) (pline : List Char) (st : ResolvState) :
    other.apply hostSpec pline st = st := by
  simp [apply, kept, appendText, addr, isSearch, isOptions]

end ResolvLine

/-- One line: `resolve_handle_content` fails on a bad line and otherwise does what the line's
kind does. -/
lemma resolveHandleContent_eq (hostSpec : HostConfig) (st : ResolvState) {pline : List Char}
    (hne : pline ≠ []) :
    resolveHandleContent hostSpec st pline =
      if resolvLine pline = .bad then none
      else some ((resolvLine pline).apply hostSpec pline st) := by
  unfold resolveHandleContent resolvLine
  by_cases hc : pline.head? = some '#'
  · simp [hc, ResolvLine.apply, ResolvLine.kept, appendText, hne, utilStringAppend,
      ResolvLine.addr, ResolvLine.isSearch, ResolvLine.isOptions]
  rw [if_neg hc, if_neg hc]
  by_cases ht : utilTrimSpace (utilTrimNewline pline) = []
  · simp [ht]
  simp only [ht, if_false]
  cases strtokTokens ' ' (utilTrimSpace (utilTrimNewline pline)) with
  | nil => rfl
  | cons token rest =>
    dsimp only
    -- a `search` or `options` line is merged on the whole content, which ends with the line
    have hmerge : ∀ given, mergeDnsValues given (utilStringAppend pline st.content) rest =
        st.content.getD [] ++ mergeDnsValues given pline rest := fun given =>
      mergeDnsValues_append given rest _ hne
    by_cases hs : token = "search".toList
    · simp [hs, ResolvLine.apply, ResolvLine.kept, appendText, mergeDnsSearch, hmerge,
        mergeDnsValues_ne_nil _ _ hne, ResolvLine.addr, ResolvLine.isSearch, ResolvLine.isOptions]
    simp only [hs, ↓reduceIte]
    by_cases ho : token = "options".toList
    · simp [ho, ResolvLine.apply, ResolvLine.kept, appendText, mergeDnsOptions, hmerge,
        mergeDnsValues_ne_nil _ _ hne, ResolvLine.addr, ResolvLine.isSearch, ResolvLine.isOptions]
    simp only [ho, ↓reduceIte]
    by_cases hn : token = "nameserver".toList
    · simp only [hn, ↓reduceIte]
      cases rest with
      | nil => rfl
      | cons a _ =>
        dsimp only
        simp [ResolvLine.apply, ResolvLine.kept, appendText, hne, utilStringAppend,
          ResolvLine.addr, ResolvLine.isSearch, ResolvLine.isOptions]
    · simp only [hn, ↓reduceIte, reduceCtorEq, ResolvLine.apply_other]

/-- The loop over the lines: each line does what its kind does, when none is bad. -/
lemma resolvLoop_eq (hostSpec : HostConfig) (lines : List (List Char)) (st : ResolvState)
    (hne : ∀ l ∈ lines, l ≠ []) (hgood : ∀ l ∈ lines, resolvLine l ≠ .bad) :
    lines.foldlM (resolveHandleContent hostSpec) st =
      some (lines.foldl (fun st l => (resolvLine l).apply hostSpec l st) st) := by
  induction lines generalizing st with
  | nil => rfl
  | cons l ls ih =>
    rw [List.foldlM_cons, resolveHandleContent_eq hostSpec st (hne l List.mem_cons_self),
      if_neg (hgood l List.mem_cons_self), List.foldl_cons]
    exact ih _ (fun l' h => hne l' (List.mem_cons_of_mem _ h))
      (fun l' h => hgood l' (List.mem_cons_of_mem _ h))

/-- The state after the lines, field by field: the texts the lines keep, in order, the
nameservers they record, and whether one was a `search` or an `options` line. -/
lemma foldl_apply (hostSpec : HostConfig) (lines : List (List Char)) (st : ResolvState) :
    lines.foldl (fun st l => (resolvLine l).apply hostSpec l st) st =
      { content := appendText st.content (lines.flatMap fun l => (resolvLine l).kept hostSpec l)
        dnsMap := st.dnsMap ++ lines.filterMap fun l => (resolvLine l).addr
        search := st.search || lines.any fun l => (resolvLine l).isSearch
        options := st.options || lines.any fun l => (resolvLine l).isOptions } := by
  induction lines generalizing st with
  | nil => simp [appendText]
  | cons l ls ih =>
    rw [List.foldl_cons, ih]
    cases h : (resolvLine l).addr <;>
      simp [ResolvLine.apply, appendText_appendText, h, Bool.or_assoc]

/-- `merge_dns` appends a `nameserver` line for each fresh address. -/
def nameserverLine (addr : List Char) : List Char := "nameserver ".toList ++ addr ++ ['\n']

lemma mergeDns_eq (hostSpec : HostConfig) (content : Option (List Char))
    (dnsMap : List (List Char)) :
    (mergeDns hostSpec content dnsMap).1 =
      appendText content ((fresh id dnsMap hostSpec.dns).flatMap nameserverLine) := by
  have hwrite : (fun content d => some (utilStringAppend ['\n']
      (some (utilStringAppend d (some (utilStringAppend "nameserver ".toList content)))))) =
      fun (content : Option (List Char)) d => some (content.getD [] ++ nameserverLine d) := by
    funext content d
    -- unfolded by hand: a simp lemma for a definition with a string literal in it is slow
    unfold utilStringAppend nameserverLine
    rw [Option.getD_some, Option.getD_some]
    simp only [List.append_assoc]
  have hne : ∀ d, nameserverLine d ≠ [] := fun d => by
    unfold nameserverLine
    rw [List.append_assoc]
    exact List.append_ne_nil_of_right_ne_nil _ (by simp)
  rw [mergeDns, addFresh_eq, hwrite, foldl_append_some _ _ _ hne]

/-- A new `search` or `options` line: the keyword, each value given once and a space after
it, and the newline. -/
lemma generateNewValues_eq (keyword : List Char) (given : List (List Char)) (seen : Bool)
    (content : Option (List Char)) :
    generateNewValues keyword given seen content =
      if !seen && given.length > 0 then
        some (content.getD [] ++ keyword ++ (fresh id [] given).flatMap (· ++ [' ']) ++ ['\n'])
      else content := by
  unfold generateNewValues
  split_ifs
  · rw [addFresh_eq]
    simp only [utilStringAppend, Option.getD_some, foldl_append_space]
  · rfl

/-- `merge_resolv` on a file with no bad line: the texts its lines keep, in order, then a
`nameserver` line for each address given that no line had, each once, then a `search` and an
`options` line when the file had none. Nothing kept and nothing added leaves the file as it
was. -/
theorem mergeResolv_eq (hostSpec : HostConfig) (file : List Char)
    (hgood : ∀ l ∈ getlines '\n' file, resolvLine l ≠ .bad) :
    mergeResolv hostSpec file = some (writeContentToFile file
      (generateNewSearchAndOptions hostSpec
        (appendText
          (appendText none ((getlines '\n' file).flatMap fun l => (resolvLine l).kept hostSpec l))
          ((fresh id ((getlines '\n' file).filterMap fun l => (resolvLine l).addr)
            hostSpec.dns).flatMap nameserverLine))
        ((getlines '\n' file).any fun l => (resolvLine l).isSearch)
        ((getlines '\n' file).any fun l => (resolvLine l).isOptions))) := by
  have hloop := resolvLoop_eq hostSpec (getlines '\n' file) ⟨none, [], false, false⟩
    (fun _ h => ne_nil_of_mem_getlines h) hgood
  rw [foldl_apply] at hloop
  rw [mergeResolv, hloop]
  simp only [Option.bind_eq_bind, Option.bind_some, mergeDns_eq, List.nil_append, Bool.false_or]
  rfl

/-- A `domain` line and a line whose fields are separated by a tab are dropped, a `search`
line without its newline loses its last character to the first domain added, and so does a
`nameserver` line to the `nameserver` line added after it. -/
theorem mergeResolv_drops_and_corrupts_lines :
    mergeResolv ⟨[], [], [], []⟩ "domain example.com\nnameserver 1.1.1.1\n".toList =
      some "nameserver 1.1.1.1\n".toList ∧
    mergeResolv ⟨[], [], [], []⟩ "nameserver\t1.1.1.1\nnameserver 8.8.8.8\n".toList =
      some "nameserver 8.8.8.8\n".toList ∧
    mergeResolv ⟨[], ["b.com".toList], [], []⟩ "search a.com".toList =
      some "search a.co b.com\n".toList ∧
    mergeResolv ⟨["8.8.8.8".toList], [], [], []⟩ "nameserver 1.1.1.1".toList =
      some "nameserver 1.1.1.1nameserver 8.8.8.8\n".toList := by
  decide +kernel

/-! ## The lines of `/etc/hosts` -/

/-- What a line is to `get_content_and_hosts_map`. -/
inductive HostsLine
  | comment
  | entry (hostKey : List Char)
  | other
  | tooLong
  deriving DecidableEq, Repr

/-- The kind of a line, by the tests of `get_content_and_hosts_map` in their order. -/
def hostsLine (pline : List Char) : HostsLine :=
  if pline.head? = some '#' then .comment
  else
    match strtokTokens ' ' (utilTrimNewline pline) with
    | hostIp :: hostName :: _ =>
      if hostKeyFits (hostIp ++ ':' :: hostName) then .entry (hostIp ++ ':' :: hostName)
      else .tooLong
    | _ => .other

namespace HostsLine

/-- The text a line of the kind leaves in the new content. -/
def kept (pline : List Char) : HostsLine → List Char
  | comment => pline
  | entry _ => pline
  | other => []
  | tooLong => []

/-- The `ip:name` pair a line of the kind records. -/
def key : HostsLine → Option (List Char)
  | entry k => some k
  | _ => none

end HostsLine

attribute [local simp] hostsHandleLine in
/-- One line: a comment and an entry are kept, the entry's pair recorded. -/
lemma hostsHandleLine_eq (st : HostsState) {pline : List Char} (hne : pline ≠ []) :
    hostsHandleLine st pline =
      if hostsLine pline = .tooLong then none
      else some (appendText st.1 ((hostsLine pline).kept pline),
        st.2 ++ (hostsLine pline).key.toList) := by
  unfold hostsHandleLine hostsLine
  by_cases hc : pline.head? = some '#'
  · simp [hc, HostsLine.kept, HostsLine.key, appendText, hne, utilStringAppend]
  simp only [hc, ↓reduceIte]
  rcases strtokTokens ' ' (utilTrimNewline pline) with _ | ⟨hostIp, _ | ⟨hostName, rest⟩⟩
  · simp [HostsLine.kept, HostsLine.key, appendText]
  · simp [HostsLine.kept, HostsLine.key, appendText]
  · by_cases hfit : hostKeyFits (hostIp ++ ':' :: hostName) = true
    · simp [hfit, HostsLine.kept, HostsLine.key, appendText, hne, utilStringAppend]
    · simp [hfit]

/-- The loop over the lines, when every `ip:name` fits the buffer. -/
lemma hostsLoop_eq (lines : List (List Char)) (st : HostsState) (hne : ∀ l ∈ lines, l ≠ [])
    (hfit : ∀ l ∈ lines, hostsLine l ≠ .tooLong) :
    lines.foldlM hostsHandleLine st =
      some (appendText st.1 (lines.flatMap fun l => (hostsLine l).kept l),
        st.2 ++ lines.filterMap fun l => (hostsLine l).key) := by
  induction lines generalizing st with
  | nil => simp [appendText]
  | cons l ls ih =>
    rw [List.foldlM_cons, hostsHandleLine_eq st (hne l List.mem_cons_self),
      if_neg (hfit l List.mem_cons_self)]
    refine (ih _ (fun l' h => hne l' (List.mem_cons_of_mem _ h))
      (fun l' h => hfit l' (List.mem_cons_of_mem _ h))).trans ?_
    cases h : (hostsLine l).key <;> simp [appendText_appendText, h]

/-- An `--add-host` entry `name:ip`, from its name and its address. -/
def hostEntry (p : List Char × List Char) : List Char := p.1 ++ ':' :: p.2

/-- The pair `ip:name` that `merge_hosts_content` looks up and records for it. -/
def hostPair (p : List Char × List Char) : List Char := p.2 ++ ':' :: p.1

/-- The line `ip name` it writes for it. -/
def hostLine (p : List Char × List Char) : List Char := p.2 ++ ' ' :: p.1 ++ ['\n']

/-- An entry that `strtok_r` cuts into its name and its address: both non-empty and without
`:`, and with an `ip:name` that fits the buffer. -/
structure WellFormedHost (p : List Char × List Char) : Prop where
  name_ne : p.1 ≠ []
  ip_ne : p.2 ≠ []
  colon_not_mem_name : ':' ∉ p.1
  colon_not_mem_ip : ':' ∉ p.2
  fits : hostKeyFits (hostPair p) = true

lemma strtokTokens_hostEntry {p : List Char × List Char} (hp : WellFormedHost p) :
    strtokTokens ':' (hostEntry p) = [p.1, p.2] := by
  rw [hostEntry, strtokTokens_append hp.colon_not_mem_name hp.name_ne,
    strtokTokens_of_not_mem hp.colon_not_mem_ip hp.ip_ne]

/-- The added hosts: a line `ip name` for each pair that neither the file nor an earlier entry
had, each once. -/
lemma mergeHostsContent_eq (hosts : List (List Char × List Char))
    (hwf : ∀ p ∈ hosts, WellFormedHost p) (content : Option (List Char))
    (hostsMap : List (List Char)) :
    mergeHostsContent (hosts.map hostEntry) (content, hostsMap) =
      some (appendText content ((fresh hostPair hostsMap hosts).flatMap hostLine),
        hostsMap ++ (fresh hostPair hostsMap hosts).map hostPair) := by
  induction hosts generalizing content hostsMap with
  | nil => simp [mergeHostsContent, fresh, appendText]
  | cons p ps ih =>
    have hp := hwf p List.mem_cons_self
    have hps : ∀ q ∈ ps, WellFormedHost q := fun q hq => hwf q (List.mem_cons_of_mem _ hq)
    rw [List.map_cons, mergeHostsContent, strtokTokens_hostEntry hp]
    dsimp only
    have hfits : hostKeyFits (p.2 ++ ':' :: p.1) = true := hp.fits
    simp only [hfits, Bool.not_true, Bool.false_eq_true, ↓reduceIte]
    by_cases hmem : p.2 ++ ':' :: p.1 ∈ hostsMap
    · rw [if_pos (List.contains_iff_mem.2 hmem), ih hps, fresh,
        if_pos (show hostPair p ∈ hostsMap from hmem)]
    · -- the entry is written, `ip name` and a newline after what is there
      have hwrite : utilStringAppend ['\n'] (some (utilStringAppend p.1
          (some (utilStringAppend [' '] (some (utilStringAppend p.2 content)))))) =
          content.getD [] ++ hostLine p := by
        simp [utilStringAppend, hostLine]
      rw [if_neg (mt List.contains_iff_mem.1 hmem), hwrite, ih hps, fresh,
        if_neg (show hostPair p ∉ hostsMap from hmem)]
      simp [appendText, hostLine, hostPair]

/-- `merge_hosts` on a file whose pairs fit the buffer, with well-formed `--add-host` entries:
the comments and the lines of two fields, in order, then a line `ip name` for each entry whose
pair neither the file nor an earlier entry had. Nothing kept and nothing added leaves the file
as it was. -/
theorem mergeHosts_eq (hostSpec : HostConfig) (file : List Char)
    (hosts : List (List Char × List Char)) (hextra : hostSpec.extraHosts = hosts.map hostEntry)
    (hwf : ∀ p ∈ hosts, WellFormedHost p)
    (hfit : ∀ l ∈ getlines '\n' file, hostsLine l ≠ .tooLong) :
    mergeHosts hostSpec file = some (writeContentToFile file
      (appendText
        (appendText none ((getlines '\n' file).flatMap fun l => (hostsLine l).kept l))
        ((fresh hostPair ((getlines '\n' file).filterMap fun l => (hostsLine l).key)
          hosts).flatMap hostLine))) := by
  have hloop := hostsLoop_eq (getlines '\n' file) (none, [])
    (fun _ h => ne_nil_of_mem_getlines h) hfit
  rw [mergeHosts, getContentAndHostsMap, hloop, hextra]
  simp only [Option.bind_eq_bind, Option.bind_some, List.nil_append]
  rw [mergeHostsContent_eq hosts hwf]
  rfl

/-- A tab-separated entry is dropped, an IPv6 address is cut at its first `:` or loses what
comes before `::`, and an entry added after a last line without its newline is glued to it. -/
theorem mergeHosts_drops_entries_and_cuts_addresses :
    mergeHosts ⟨[], [], [], ["h:10.0.0.1".toList]⟩ "127.0.0.1\tlocalhost\n".toList =
      some "10.0.0.1 h\n".toList ∧
    mergeHosts ⟨[], [], [], ["h:fe80::1".toList]⟩ [] = some "fe80 h\n".toList ∧
    mergeHosts ⟨[], [], [], ["h:::1".toList]⟩ [] = some "1 h\n".toList ∧
    mergeHosts ⟨[], [], [], ["h:10.0.0.1".toList]⟩ "127.0.0.1 localhost".toList =
      some "127.0.0.1 localhost10.0.0.1 h\n".toList := by
  decide +kernel

end ExecutionNetwork

end Isulad
