import Isulad.Cutils.UtilsString
import Isulad.Framework.CString

/-!
# Environment and label files of `isula create` (`create.c`)

`read_env_from_file` reads an `--env-file` with `fgets` into a buffer one byte longer than the
file, so each call returns one line, its newline kept. A line of one character is skipped; of
any other the last character is overwritten with `NUL`, and the rest goes through
`validate_env`: refused when its name (the text before the first `=`) is empty, kept whole when
it has a `=`, and otherwise completed from the client's environment. `read_label_from_file`
reads a `--label-file` with `getline` the same way, through `validate_label`.

The last character is cut whether or not it is a newline. On a text of newline-ended lines each
line is cut of its newline only; but a last line without a newline loses its last character, or
is skipped when that is all it has (`readEnvFromFile_eq`, `readLabelFromFile_eq`). `request_pack_custom_conf` puts the entries of the files before
those of `--env` and `--label` (`requestPackCustomConf_env`, `requestPackCustomConf_label`).
-/

namespace Isulad

namespace Create

open Cutils CString

/-! ## `validate_env` and `validate_label` -/

/-- `validate_env(env, &dst)`; `getenv` is the client's environment. -/
def validateEnv (getenv : List Char → Option (List Char)) (env : List Char) : Option (List Char) :=
  let arr := utilStringSplitMulti env '='
  match arr.head? with
  | some (some name) =>
    if name.isEmpty then none
    else if utilArrayLen arr > 1 then some env
    else
      match getenv env with
      | none => some env
      | some value => some (env ++ '=' :: value)
  | _ => none

/-- `validate_label(label)`. -/
def validateLabel (label : List Char) : Bool :=
  match utilStringSplitN label '=' 2 with
  | some (some name :: _) => !name.isEmpty
  | _ => false

/-- The name of an entry: its text before the first `=`. -/
def entryName (entry : List Char) : List Char := entry.takeWhile fun c => c != '='

/-! ## Reading the files -/

/-- The lines `fgets` and `getline` return that the loops do not skip, each with its last
character cut. -/
def fileEntries (content : List Char) : List (List Char) :=
  ((getlines '\n' content).filter fun line => line.length != 1).map List.dropLast

/-- `read_env_from_file(path, file_size, conf)`: the entries appended, in order. -/
def readEnvFromFile (getenv : List Char → Option (List Char)) (content : List Char) :
    Option (List (List Char)) :=
  (fileEntries content).mapM (validateEnv getenv)

/-- `read_label_from_file(path, file_size, conf)`: the labels appended, in order. -/
def readLabelFromFile (content : List Char) : Option (List (List Char)) :=
  (fileEntries content).mapM fun label => if validateLabel label then some label else none

/-- What `request_pack_custom_conf` sets of the request: the env and the labels. -/
structure CustomConf where
  env : List (List Char)
  label : List (List Char)
  deriving DecidableEq, Repr

/-- The loops over the files of `request_pack_custom_env_file` and
`request_pack_custom_label_file`: each file's entries appended, in the order of the files. -/
def appendFiles (read : List Char → Option (List (List Char))) (files : List (List Char))
    (entries : List (List Char)) : Option (List (List Char)) :=
  files.foldlM (fun entries file => (read file).map (entries ++ ·)) entries

/-- `request_pack_custom_env_file(args, conf)`; a file is its content. -/
def requestPackCustomEnvFile (getenv : List Char → Option (List Char))
    (envFiles : List (List Char)) (conf : CustomConf) : Option CustomConf :=
  (appendFiles (readEnvFromFile getenv) envFiles conf.env).map fun env => { conf with env }

/-- `request_pack_custom_env(args, conf)`: `--env` appended. -/
def requestPackCustomEnv (env : List (List Char)) (conf : CustomConf) : CustomConf :=
  { conf with env := conf.env ++ env }

/-- `request_pack_custom_label_file(args, conf)`. -/
def requestPackCustomLabelFile (labelFiles : List (List Char)) (conf : CustomConf) :
    Option CustomConf :=
  (appendFiles readLabelFromFile labelFiles conf.label).map fun label => { conf with label }

/-- `request_pack_custom_label(args, conf)`: each `--label` checked and appended. -/
def requestPackCustomLabel (label : List (List Char)) (conf : CustomConf) : Option CustomConf :=
  label.foldlM (fun conf l => if validateLabel l then some { conf with label := conf.label ++ [l] }
    else none) conf

/-- `request_pack_custom_conf` on the env and the labels of a fresh request. -/
def requestPackCustomConf (getenv : List Char → Option (List Char))
    (envFiles env labelFiles label : List (List Char)) : Option CustomConf := do
  let conf ← requestPackCustomEnvFile getenv envFiles ⟨[], []⟩
  let conf := requestPackCustomEnv env conf
  let conf ← requestPackCustomLabelFile labelFiles conf
  requestPackCustomLabel label conf

/-! ## The two checks -/

/-- `validate_env` refuses an entry with an empty name, keeps one with a `=` whole, and
completes one without from the client's environment. -/
lemma validateEnv_eq (getenv : List Char → Option (List Char)) (env : List Char) :
    validateEnv getenv env =
      if (entryName env).isEmpty then none
      else if '=' ∈ env then some env
      else some ((getenv env).elim env fun value => env ++ '=' :: value) := by
  have harr := utilStringSplitMulti_eq env '='
  -- the first slot is the name, and there are as many slots as fields
  have hhead : (utilStringSplitMulti env '=').head? = some (some (entryName env)) := by
    have hfirst := splitOnChar_head '=' env
    rw [harr]
    cases hs : splitOnChar '=' env with
    | nil => exact absurd hs (splitOnChar_ne_nil '=' env)
    | cons f fs =>
      rw [hs] at hfirst
      cases hfirst
      rfl
  have hlen : utilArrayLen (utilStringSplitMulti env '=') = (splitOnChar '=' env).length := by
    rw [harr]
    exact utilArrayLen_map_some _ _ rfl
  unfold validateEnv
  simp only [hhead, hlen]
  by_cases hname : (entryName env).isEmpty = true
  · simp [hname]
  · by_cases heq : '=' ∈ env
    · simp [hname, heq, (one_lt_length_splitOnChar '=' env).2 heq]
    · have hone : ¬ 1 < (splitOnChar '=' env).length := fun h =>
        heq ((one_lt_length_splitOnChar '=' env).1 h)
      cases getenv env <;> simp [hname, heq, hone]

/-- `validate_label` refuses exactly a label with an empty name. -/
lemma validateLabel_eq {label : List Char} (hne : label ≠ []) :
    validateLabel label = !(entryName label).isEmpty := by
  unfold validateLabel
  rcases utilStringSplitN_two label '=' hne with ⟨hn, hs⟩ | ⟨tok, rest, hn, rfl, hs⟩
  · have hname : entryName label = label :=
      List.takeWhile_eq_self_iff.2 fun c hc => by
        simp only [bne_iff_ne, ne_eq]
        rintro rfl
        exact hn hc
    rw [hs, hname]
  · have hname : entryName (tok ++ '=' :: rest) = tok := by
      have htok : ∀ c ∈ tok, (c != '=') = true := fun c hc => by
        simp only [bne_iff_ne, ne_eq]
        rintro rfl
        exact hn hc
      rw [entryName, List.takeWhile_append_of_pos htok, List.takeWhile_cons_of_neg (by simp),
        List.append_nil]
    rw [hs, hname]

/-! ## What the files give -/

section Files

variable {ls : List (List Char)} {last : List Char}

/-- The entries of a text of newline-ended lines and a last piece: each non-empty line whole,
then the piece without its last character, or nothing when that is all it has. -/
lemma fileEntries_eq (hls : ∀ l ∈ ls, '\n' ∉ l) (hlast : '\n' ∉ last) :
    fileEntries ((ls.map (· ++ ['\n'])).flatten ++ last) =
      ls.filter (fun l => !l.isEmpty) ++ (if last.length ≤ 1 then [] else [last.dropLast]) := by
  unfold fileEntries
  rw [getlines_lines hls hlast, List.filter_append, List.map_append]
  congr 1
  · -- a line is skipped exactly when the newline is all it has
    clear hls
    induction ls with
    | nil => rfl
    | cons l ls ih =>
      by_cases hl : l = []
      · subst hl
        simpa using ih
      · simp [hl, ih]
  · by_cases h0 : last = []
    · subst h0
      rfl
    · by_cases h1 : last.length = 1
      · simp [h0, h1]
      · have h2 : ¬ last.length ≤ 1 := by
          have := List.length_pos_iff.2 h0
          omega
        simp [h0, h1, h2]

/-- An env file: each non-empty newline-ended line checked whole, then the last line, when it has
no newline, checked without its last character, or skipped when that is all it has. -/
theorem readEnvFromFile_eq (getenv : List Char → Option (List Char))
    (hls : ∀ l ∈ ls, '\n' ∉ l) (hlast : '\n' ∉ last) :
    readEnvFromFile getenv ((ls.map (· ++ ['\n'])).flatten ++ last) =
      (ls.filter (fun l => !l.isEmpty) ++ (if last.length ≤ 1 then [] else [last.dropLast])).mapM
        (validateEnv getenv) := by
  rw [readEnvFromFile, fileEntries_eq hls hlast]

/-- A label file, the same way. -/
theorem readLabelFromFile_eq (hls : ∀ l ∈ ls, '\n' ∉ l) (hlast : '\n' ∉ last) :
    readLabelFromFile ((ls.map (· ++ ['\n'])).flatten ++ last) =
      (ls.filter (fun l => !l.isEmpty) ++ (if last.length ≤ 1 then [] else [last.dropLast])).mapM
        fun label => if validateLabel label then some label else none := by
  rw [readLabelFromFile, fileEntries_eq hls hlast]

end Files

/-! ## The order of the entries -/

/-- The files' entries follow what was there, file after file. -/
lemma appendFiles_eq (read : List Char → Option (List (List Char))) (files : List (List Char))
    (entries : List (List Char)) :
    appendFiles read files entries = (files.mapM read).map fun ess => entries ++ ess.flatten := by
  induction files generalizing entries with
  | nil => simp [appendFiles]
  | cons file files ih =>
    unfold appendFiles at ih ⊢
    rw [List.foldlM_cons, List.mapM_cons]
    cases read file with
    | none => rfl
    | some es =>
      simp only [Option.map_some, Option.bind_eq_bind, Option.bind_some, ih]
      cases files.mapM read <;> simp

/-- The labels of `--label`, each checked, follow those there. -/
lemma requestPackCustomLabel_eq (label : List (List Char)) (conf : CustomConf) :
    requestPackCustomLabel label conf =
      if label.all validateLabel then some { conf with label := conf.label ++ label } else none := by
  induction label generalizing conf with
  | nil => simp [requestPackCustomLabel]
  | cons l label ih =>
    unfold requestPackCustomLabel at ih ⊢
    rw [List.foldlM_cons]
    by_cases hl : validateLabel l = true
    · simp [hl, ih]
    · simp [hl]

/-- `request_pack_custom_conf`: the entries of the env files then `--env`, the labels of the
label files then `--label`, when every file reads and every `--label` passes its check. -/
lemma requestPackCustomConf_eq (getenv : List Char → Option (List Char))
    (envFiles env labelFiles label : List (List Char)) :
    requestPackCustomConf getenv envFiles env labelFiles label =
      (envFiles.mapM (readEnvFromFile getenv)).bind fun envs =>
        (labelFiles.mapM readLabelFromFile).bind fun labels =>
          if label.all validateLabel then some ⟨envs.flatten ++ env, labels.flatten ++ label⟩
          else none := by
  unfold requestPackCustomConf requestPackCustomEnvFile requestPackCustomLabelFile
  simp only [appendFiles_eq]
  cases envFiles.mapM (readEnvFromFile getenv) with
  | none => rfl
  | some envs =>
    cases labelFiles.mapM readLabelFromFile with
    | none => rfl
    | some labels => simp [requestPackCustomEnv, requestPackCustomLabel_eq]

section Order

variable {getenv : List Char → Option (List Char)} {envFiles env labelFiles label : List (List Char)}
  {conf : CustomConf}

/-- The env of the request: the entries of the env files, in order, then `--env`. -/
theorem requestPackCustomConf_env
    (h : requestPackCustomConf getenv envFiles env labelFiles label = some conf) :
    ∃ fromFiles, envFiles.mapM (readEnvFromFile getenv) = some fromFiles ∧
      conf.env = fromFiles.flatten ++ env := by
  rw [requestPackCustomConf_eq] at h
  obtain ⟨envs, henvs, labels, -, hconf⟩ := by simpa only [Option.bind_eq_some_iff] using h
  refine ⟨envs, henvs, ?_⟩
  split at hconf
  · cases hconf
    rfl
  · cases hconf

/-- The labels of the request: those of the label files, in order, then `--label`. -/
theorem requestPackCustomConf_label
    (h : requestPackCustomConf getenv envFiles env labelFiles label = some conf) :
    ∃ fromFiles, labelFiles.mapM readLabelFromFile = some fromFiles ∧
      conf.label = fromFiles.flatten ++ label := by
  rw [requestPackCustomConf_eq] at h
  obtain ⟨envs, -, labels, hlabels, hconf⟩ := by simpa only [Option.bind_eq_some_iff] using h
  refine ⟨labels, hlabels, ?_⟩
  split at hconf
  · cases hconf
    rfl
  · cases hconf

end Order

/-- An env file `A=1` without a final newline gives `A=`, a label file `k=v` gives `k=`, and a
last line `B` is dropped. -/
theorem createFiles_cut_last_character :
    requestPackCustomConf (fun _ => none) ["A=1".toList] ["B=2".toList] ["k=v".toList] [] =
      some ⟨["A=".toList, "B=2".toList], ["k=".toList]⟩ ∧
    readEnvFromFile (fun _ => none) "A=1\nB".toList = some ["A=1".toList] := by
  decide

end Create

end Isulad
