import Isulad.Framework.CString
import Isulad.Image.Oci.ConfigMerge

/-!
# The env target file (`merge_env_target_file`, `specs_extend.c`)

A container's `env_target_file` names a file in its root filesystem whose `KEY=VALUE` lines are
added to the process environment. `generate_env_map_from_file` reads it line by line into a
map, a later line of a key replacing the value of an earlier one; `do_merge_env_target` then
appends `KEY=VALUE` for each key of the map that no entry of the process env has, and
`merge_env` puts them after the process env.

Both the lines of the file and the entries of the process env are cut with `strtok_r` at `=`,
which skips empty pieces: the value of a line is only the text up to its next `=`
(`envLineEntry_cuts_value`), a line with nothing after its `=` defines nothing
(`envLineEntry_empty_value`), and an entry of the process env with nothing after its `=` makes
the whole merge fail (`checkEnvNeedAppend_of_no_value`). `mergeEnvTargetFile_eq` gives the
environment the merge leaves otherwise.
-/

namespace Isulad

namespace SpecsExtend

open Cutils CString

/-- `REGULAR_FILE_SIZE`. -/
def regularFileSize : Nat := 10 * 1024 * 1024

/-- The loop body of `generate_env_map_from_file` on one line: the line trimmed; a comment
defines nothing, and otherwise the first two pieces `strtok_r` cuts at `=`, trimmed, are the key
and the value. The length check is C's `size_t` arithmetic. -/
def generateEnvMapLine (envMap : List (String × String)) (pline : List Char) :
    Except String (List (String × String)) :=
  let line := utilTrimSpace (utilTrimNewline pline)
  if line.head? = some '#' then .ok envMap
  else
    match strtokTokens '=' line with
    | key :: value :: _ =>
      let key := String.ofList (utilTrimSpace key)
      let value := String.ofList (utilTrimSpace value)
      if (maxBufferSize - 1 + 2 ^ 64 - key.utf8ByteSize) % 2 ^ 64 < value.utf8ByteSize then
        .error s!"env length exceed {maxBufferSize} bytes"
      else .ok (ConfigMerge.appendJsonMapStringString envMap key value)
    | _ => .ok envMap

/-- `generate_env_map_from_file`, on the content of the file. -/
def generateEnvMapFromFile (file : List Char) : Except String (List (String × String)) :=
  (getlines '\n' file).foldlM generateEnvMapLine []

/-- `check_env_need_append`: whether no entry of the process env has the key. Each entry is cut
at `=` like a line of the file, and one without a value is refused. -/
def checkEnvNeedAppend (env : List String) (envKey : String) : Except String Bool :=
  match env with
  | [] => .ok true
  | e :: rest =>
    match strtokTokens '=' e.toList with
    | key :: _ :: _ =>
      if String.ofList key = envKey then .ok false else checkEnvNeedAppend rest envKey
    | _ => .error "Bad env format"

/-- `do_append_env`: `key=value` appended. -/
def doAppendEnv (env : List String) (key value : String) : List String :=
  env ++ [key ++ "=" ++ value]

/-- `merge_env`: the entries after the process env, past the `LIST_ENV_SIZE_MAX` check. -/
def mergeEnv (processEnv env : List String) : Except String (List String) :=
  if env.length = 0 then .ok processEnv
  else if env.length > (ConfigMerge.listEnvSizeMax + 2 ^ 64 - processEnv.length) % 2 ^ 64 then
    .error s!"The length of envionment variables is too long, the limit is {ConfigMerge.listEnvSizeMax}"
  else .ok (processEnv ++ env)

/-- The loop body of `do_merge_env_target` on one entry of the map. -/
def mergeEnvTargetEntry (processEnv : List String) (env : List String) (kv : String × String) :
    Except String (List String) := do
  let isAppend ← checkEnvNeedAppend processEnv kv.1
  pure (if isAppend then doAppendEnv env kv.1 kv.2 else env)

/-- `do_merge_env_target`. -/
def doMergeEnvTarget (processEnv : List String) (envMap : List (String × String)) :
    Except String (List String) := do
  let env ← envMap.foldlM (mergeEnvTargetEntry processEnv) []
  mergeEnv processEnv env

/-- `merge_env_target_file` on the process env, for the file `envTargetFile` with the given
content, `none` when it does not exist. -/
def mergeEnvTargetFile (processEnv : List String) (envTargetFile : String)
    (content : Option (List Char)) : Except String (List String) :=
  match content with
  | none => .ok processEnv
  | some file =>
    if (String.ofList file).utf8ByteSize > regularFileSize then
      .error s!"env target file {envTargetFile}, size exceed limit: {regularFileSize}"
    else do
      let envMap ← generateEnvMapFromFile file
      doMergeEnvTarget processEnv envMap

/-! ## The lines of the file -/

/-- The key and the value a line defines: the first two pieces of the trimmed line cut at `=`,
trimmed, when it is no comment. -/
def envLineEntry (pline : List Char) : Option (String × String) :=
  if (utilTrimSpace (utilTrimNewline pline)).head? = some '#' then none
  else
    match strtokTokens '=' (utilTrimSpace (utilTrimNewline pline)) with
    | key :: value :: _ =>
      some (String.ofList (utilTrimSpace key), String.ofList (utilTrimSpace value))
    | _ => none

/-- The length check of `generate_env_map_from_file` passes for the key and the value. -/
def EntryFits (kv : String × String) : Prop :=
  ¬ (maxBufferSize - 1 + 2 ^ 64 - kv.1.utf8ByteSize) % 2 ^ 64 < kv.2.utf8ByteSize

instance (kv : String × String) : Decidable (EntryFits kv) := inferInstanceAs (Decidable (¬ _))

attribute [local simp] generateEnvMapLine in
/-- One line: what it defines, if anything, goes into the map, a later line of a key replacing
the value of an earlier one. -/
lemma generateEnvMapLine_eq (envMap : List (String × String)) (pline : List Char) :
    generateEnvMapLine envMap pline =
      match envLineEntry pline with
      | none => .ok envMap
      | some kv =>
        if EntryFits kv then .ok (ConfigMerge.appendJsonMapStringString envMap kv.1 kv.2)
        else .error s!"env length exceed {maxBufferSize} bytes" := by
  unfold generateEnvMapLine envLineEntry
  by_cases hc : (utilTrimSpace (utilTrimNewline pline)).head? = some '#'
  · simp only [hc, ↓reduceIte]
  simp only [hc, ↓reduceIte]
  rcases strtokTokens '=' (utilTrimSpace (utilTrimNewline pline)) with
    _ | ⟨key, _ | ⟨value, rest⟩⟩
  · rfl
  · rfl
  · dsimp only
    by_cases hlong : (maxBufferSize - 1 + 2 ^ 64 - (String.ofList (utilTrimSpace key)).utf8ByteSize)
        % 2 ^ 64 < (String.ofList (utilTrimSpace value)).utf8ByteSize
    · have hfit :
          ¬ EntryFits (String.ofList (utilTrimSpace key), String.ofList (utilTrimSpace value)) :=
        not_not.2 hlong
      rw [if_pos hlong, if_neg hfit]
    · have hfit :
          EntryFits (String.ofList (utilTrimSpace key), String.ofList (utilTrimSpace value)) :=
        hlong
      rw [if_neg hlong, if_pos hfit]

/-- The map the lines give, when every entry fits: each line's entry put in, in order. -/
lemma foldlM_generateEnvMapLine (lines : List (List Char)) (envMap : List (String × String))
    (hfit : ∀ l ∈ lines, ∀ kv, envLineEntry l = some kv → EntryFits kv) :
    lines.foldlM generateEnvMapLine envMap =
      .ok ((lines.filterMap envLineEntry).foldl
        (fun m kv => ConfigMerge.appendJsonMapStringString m kv.1 kv.2) envMap) := by
  induction lines generalizing envMap with
  | nil => rfl
  | cons l ls ih =>
    have hrest : ∀ l' ∈ ls, ∀ kv, envLineEntry l' = some kv → EntryFits kv :=
      fun l' h => hfit l' (List.mem_cons_of_mem _ h)
    rw [List.foldlM_cons, generateEnvMapLine_eq]
    cases h : envLineEntry l with
    | none =>
      rw [List.filterMap_cons_none h]
      exact ih envMap hrest
    | some kv =>
      dsimp only
      rw [if_pos (hfit l List.mem_cons_self kv h), List.filterMap_cons_some h, List.foldl_cons]
      exact ih _ hrest

/-- A line `key=value=rest`: its value is only the text up to the second `=`. -/
lemma envLineEntry_cuts_value {pline k v w : List Char}
    (hline : utilTrimSpace (utilTrimNewline pline) = k ++ '=' :: (v ++ '=' :: w))
    (hk : k ≠ []) (hv : v ≠ []) (hke : '=' ∉ k) (hve : '=' ∉ v) (hc : k.head? ≠ some '#') :
    envLineEntry pline =
      some (String.ofList (utilTrimSpace k), String.ofList (utilTrimSpace v)) := by
  have hhead : (utilTrimSpace (utilTrimNewline pline)).head? ≠ some '#' := by
    rw [hline, List.head?_append_of_ne_nil _ hk]
    exact hc
  unfold envLineEntry
  rw [if_neg hhead, hline, strtokTokens_append hke hk, strtokTokens_append hve hv]

/-- A line `key=` defines nothing. -/
lemma envLineEntry_empty_value {pline k : List Char}
    (hline : utilTrimSpace (utilTrimNewline pline) = k ++ ['=']) (hke : '=' ∉ k) :
    envLineEntry pline = none := by
  unfold envLineEntry
  split_ifs
  · rfl
  · rw [hline]
    by_cases hk : k = []
    · subst hk
      rfl
    · rw [strtokTokens_append hke hk]
      rfl

/-! ## The process env -/

/-- The key of an entry of the process env, as `check_env_need_append` reads it. -/
def envEntryKey (e : String) : String := String.ofList ((strtokTokens '=' e.toList).headD [])

/-- An entry that `strtok_r` cuts into a key and a value. -/
def EnvEntryWellFormed (e : String) : Prop := 2 ≤ (strtokTokens '=' e.toList).length

/-- Whether no entry of the process env has the key of `kv`. -/
def keyIsNew (processEnv : List String) (kv : String × String) : Bool :=
  processEnv.all fun e => envEntryKey e ≠ kv.1

attribute [local simp] checkEnvNeedAppend in
/-- Over well-formed entries, a key is appended when no entry has it. -/
lemma checkEnvNeedAppend_eq {env : List String} (hwf : ∀ e ∈ env, EnvEntryWellFormed e)
    (key : String) : checkEnvNeedAppend env key = .ok (env.all fun e => envEntryKey e ≠ key) := by
  induction env with
  | nil => rfl
  | cons e rest ih =>
    have he : 2 ≤ (strtokTokens '=' e.toList).length := hwf e List.mem_cons_self
    unfold checkEnvNeedAppend
    rcases htok : strtokTokens '=' e.toList with _ | ⟨k, _ | ⟨v, tail⟩⟩
    · simp [htok] at he
    · simp [htok] at he
    · dsimp only
      have hkey : envEntryKey e = String.ofList k := by simp [envEntryKey, htok]
      by_cases hk : String.ofList k = key
      · rw [if_pos hk]
        simp [hkey, hk]
      · rw [if_neg hk, ih fun e' h => hwf e' (List.mem_cons_of_mem _ h)]
        simp [hkey, hk]

/-- An entry without a value fails the check of the first key looked up. -/
lemma checkEnvNeedAppend_of_no_value {e : String} (he : ¬ EnvEntryWellFormed e)
    (rest : List String) (key : String) :
    checkEnvNeedAppend (e :: rest) key = .error "Bad env format" := by
  unfold EnvEntryWellFormed at he
  unfold checkEnvNeedAppend
  rcases htok : strtokTokens '=' e.toList with _ | ⟨k, _ | ⟨v, tail⟩⟩
  · rfl
  · rfl
  · simp [htok] at he

/-- The loop of `do_merge_env_target`: `key=value` for each entry whose key the process env
lacks, in the order of the map. -/
lemma foldlM_mergeEnvTargetEntry {processEnv : List String}
    (hwf : ∀ e ∈ processEnv, EnvEntryWellFormed e) (envMap : List (String × String))
    (env : List String) :
    envMap.foldlM (mergeEnvTargetEntry processEnv) env =
      .ok (env ++ (envMap.filter (keyIsNew processEnv)).map fun kv => kv.1 ++ "=" ++ kv.2) := by
  induction envMap generalizing env with
  | nil => simp [pure, Except.pure]
  | cons kv rest ih =>
    have hstep : mergeEnvTargetEntry processEnv env kv =
        .ok (if keyIsNew processEnv kv then doAppendEnv env kv.1 kv.2 else env) := by
      simp only [mergeEnvTargetEntry, checkEnvNeedAppend_eq hwf]
      rfl
    rw [List.foldlM_cons, hstep]
    by_cases h : keyIsNew processEnv kv = true
    · rw [if_pos h]
      show rest.foldlM (mergeEnvTargetEntry processEnv) (doAppendEnv env kv.1 kv.2) = _
      rw [ih, List.filter_cons_of_pos h, List.map_cons, doAppendEnv, List.append_assoc]
      rfl
    · rw [if_neg h]
      show rest.foldlM (mergeEnvTargetEntry processEnv) env = _
      rw [ih, List.filter_cons_of_neg h]

/-- `merge_env` appends the entries when both together stay within `LIST_ENV_SIZE_MAX`. -/
lemma mergeEnv_ok {processEnv env : List String}
    (hlen : processEnv.length + env.length ≤ ConfigMerge.listEnvSizeMax) :
    mergeEnv processEnv env = .ok (processEnv ++ env) := by
  unfold mergeEnv
  have hmax : ConfigMerge.listEnvSizeMax < 2 ^ 64 := by
    unfold ConfigMerge.listEnvSizeMax
    norm_num
  -- no wrap: the room left is `LIST_ENV_SIZE_MAX - env_len`
  have hroom : (ConfigMerge.listEnvSizeMax + 2 ^ 64 - processEnv.length) % 2 ^ 64 =
      ConfigMerge.listEnvSizeMax - processEnv.length := by
    rw [show ConfigMerge.listEnvSizeMax + 2 ^ 64 - processEnv.length =
        ConfigMerge.listEnvSizeMax - processEnv.length + 2 ^ 64 by omega, Nat.add_mod_right,
      Nat.mod_eq_of_lt (by omega)]
  split_ifs with h0 h1
  · simp [List.eq_nil_of_length_eq_zero h0]
  · omega
  · rfl

lemma length_appendJsonMapStringString_le (m : List (String × String)) (key val : String) :
    (ConfigMerge.appendJsonMapStringString m key val).length ≤ m.length + 1 := by
  induction m with
  | nil => simp [ConfigMerge.appendJsonMapStringString]
  | cons kv rest ih =>
    unfold ConfigMerge.appendJsonMapStringString
    split_ifs <;> simp [ih]

/-- `do_merge_env_target` over a well-formed process env. -/
lemma doMergeEnvTarget_eq {processEnv : List String} {envMap : List (String × String)}
    (hwf : ∀ e ∈ processEnv, EnvEntryWellFormed e)
    (hlen : processEnv.length + envMap.length ≤ ConfigMerge.listEnvSizeMax) :
    doMergeEnvTarget processEnv envMap =
      .ok (processEnv ++ (envMap.filter (keyIsNew processEnv)).map fun kv => kv.1 ++ "=" ++ kv.2) := by
  have hfilter : ((envMap.filter (keyIsNew processEnv)).map
      fun kv => kv.1 ++ "=" ++ kv.2).length ≤ envMap.length := by
    rw [List.length_map]
    exact List.length_filter_le _ _
  unfold doMergeEnvTarget
  rw [foldlM_mergeEnvTargetEntry hwf, List.nil_append]
  exact mergeEnv_ok (by omega)

lemma length_foldl_appendJsonMapStringString_le (entries m : List (String × String)) :
    (entries.foldl (fun m kv => ConfigMerge.appendJsonMapStringString m kv.1 kv.2) m).length ≤
      m.length + entries.length := by
  induction entries generalizing m with
  | nil => simp
  | cons kv rest ih =>
    have hrest := ih (ConfigMerge.appendJsonMapStringString m kv.1 kv.2)
    have hone := length_appendJsonMapStringString_le m kv.1 kv.2
    rw [List.foldl_cons, List.length_cons]
    omega

/-! ## The merge -/

/-- `merge_env_target_file` on an existing file within the size limit whose entries fit, over a
well-formed process env: the process env, then `KEY=VALUE` for each key the lines define and
the process env lacks, in the order the keys first appear, with the value of the last line of
the key. -/
theorem mergeEnvTargetFile_eq {processEnv : List String} (envTargetFile : String)
    {file : List Char} (hsize : (String.ofList file).utf8ByteSize ≤ regularFileSize)
    (hfit : ∀ l ∈ getlines '\n' file, ∀ kv, envLineEntry l = some kv → EntryFits kv)
    (hwf : ∀ e ∈ processEnv, EnvEntryWellFormed e)
    (hlen : processEnv.length + ((getlines '\n' file).filterMap envLineEntry).length ≤
      ConfigMerge.listEnvSizeMax) :
    mergeEnvTargetFile processEnv envTargetFile (some file) =
      .ok (processEnv ++ ((((getlines '\n' file).filterMap envLineEntry).foldl
        (fun m kv => ConfigMerge.appendJsonMapStringString m kv.1 kv.2) []).filter
          (keyIsNew processEnv)).map fun kv => kv.1 ++ "=" ++ kv.2) := by
  have hmap := length_foldl_appendJsonMapStringString_le
    ((getlines '\n' file).filterMap envLineEntry) []
  rw [List.length_nil, Nat.zero_add] at hmap
  unfold mergeEnvTargetFile
  dsimp only
  rw [if_neg (by omega), generateEnvMapFromFile, foldlM_generateEnvMapLine _ _ hfit]
  exact doMergeEnvTarget_eq hwf (by omega)

/-- `OPTS=--x=1` gives `OPTS=--x`, a line `A=` is dropped, and an entry `A=` of the process env
makes the merge fail. -/
theorem mergeEnvTargetFile_cuts_values_and_refuses_empty :
    mergeEnvTargetFile [] "/etc/env" (some "OPTS=--x=1\n".toList) = .ok ["OPTS=--x"] ∧
    mergeEnvTargetFile [] "/etc/env" (some "A=\n".toList) = .ok [] ∧
    mergeEnvTargetFile ["A="] "/etc/env" (some "B=1\n".toList) = .error "Bad env format" := by
  decide

end SpecsExtend

end Isulad
