import Isulad.Cutils.UtilsConvert
import Isulad.Framework.Fallible
import Isulad.Framework.Loop

/-!
# The command-line parser of `isula` and `isulad` (`commander.c`)

`command_parse_args` walks the arguments after the command's name (`command_init` skips two)
and stops at the first one that is not an option: one that does not begin with `-`, or is `-`
alone. `--` ends the options and is dropped. `--name=v` and `--name v` go to the first option
whose long name `str_skip_str` finds at the front of `name=v` or `name` and that is followed by
`=` or by nothing; a cluster `-xyz` goes letter after letter through `command_parse_options`.

A flag that takes a value takes the text after `=` when the cluster goes on with `=`, and
otherwise the next argument (`read_option_arg`). That holds also when the cluster goes on
with anything else, and the rest of the cluster is then read as more letters: `-uroot busybox`
gives the user `busybox` and fails on the letter `r` (`commandParseArgs_cluster_value`).

What does hold: the arguments handed back are a suffix of the arguments, which begins with
one that is not an option or right after `--` (`commandParseArgs_args`); a cluster of flags
without a value sets each flag in order (`commandParseShortArg_flags`); and a run of
`--name=v` gives each value to the option of that name, in order, for a table whose long
names are distinct and hold no `=` (`commandParseArgs_long_values`).
-/

namespace Isulad

namespace Commander

open Cutils

/-! ## Options -/

/-- `command_option_type_t`. -/
inductive CommandOptionType
  | bool
  | boolFalse
  | string
  | stringDup
  | callback
  deriving DecidableEq, Repr

/-- A `command_option_t` as the parser reads it. `small` is `none` for the `0` of an option
without a letter, which no character of an argument equals; `cb` returns whether the callback
returned `0`. -/
structure CommandOption where
  type : CommandOptionType
  large : Option (List Char)
  small : Option Char
  cb : Option (List Char → Bool)

/-- What an option's `data` receives: a flag, or a text (given to the callback, if any). -/
inductive OptionValue
  | flag (b : Bool)
  | text (s : List Char)
  deriving DecidableEq, Repr

/-- How parsing stops early: a return of `-1`, or `exit(code)`. -/
inductive Stop
  | fail
  | exit (code : Nat)
  deriving DecidableEq, Repr

/-- `EINVALIDARGS`. -/
def einvalidargs : Nat := 125

/-- What the parser has set: each option's index in the table with the value it received, in
order. -/
abbrev OptionLog := List (Nat × OptionValue)

/-- `command_init`: the parser starts after the program's and the command's names. -/
def commandInit (argv : List (List Char)) : List (List Char) := argv.drop 2

/-! ## Reading a value -/

/-- `read_option_arg(self, opt, &opt_arg, &readed)`, where `data` is the text after `=` when
`opt->hasdata` is set, and `argv` starts at the argument being parsed. Without data the value
is the next argument, which `self->argv` then points at. -/
def readOptionArg (data : Option (List Char)) (argv : List (List Char)) :
    Except Stop (List Char × List (List Char)) :=
  match data, argv with
  | some value, argv => .ok (value, argv)
  | none, _ :: next :: rest => .ok (next, next :: rest)
  -- "Flag needs an argument"
  | none, _ => .error .fail

/-- `command_get_option_data(self, option, &opt_arg)`. -/
def commandGetOptionData (option : CommandOption) (data : Option (List Char))
    (argv : List (List Char)) : Except Stop (OptionValue × List (List Char)) :=
  match option.type with
  | .bool | .boolFalse =>
    match data with
    | none => .ok (.flag (option.type == .bool), argv)
    | some value =>
      match utilStrToBool value with
      | .ok b => .ok (.flag b, argv)
      | .error _ => .error .fail
  | .string | .stringDup => do
    -- the two differ only in whether `data` keeps a copy of the text
    let (readed, argv) ← readOptionArg data argv
    match option.cb with
    | none => .ok (.text readed, argv)
    | some cb => if cb readed then .ok (.text readed, argv) else .error .fail
  | .callback => do
    let (readed, argv) ← readOptionArg data argv
    match option.cb with
    -- "Must specify callback for type array"
    | none => .error .fail
    | some cb => if cb readed then .ok (.text readed, argv) else .error .fail

/-- The first option of the table that satisfies `p`, with its index. -/
def findOption (p : CommandOption → Bool) : List CommandOption → Option (Nat × CommandOption)
  | [] => none
  | o :: options =>
    if p o then some (0, o) else (findOption p options).map fun (j, o) => (j + 1, o)

/-! ## Short options -/

/-- `command_parse_short_arg(self, arg)`: the loop of `command_parse_options` over the letters of
a cluster. A flag followed by `=` takes the rest as its data and ends the cluster; a flag
followed by anything else leaves the rest to be read as more letters. -/
def commandParseShortArg (options : List CommandOption) :
    List Char → List (List Char) → Except Stop (OptionLog × List (List Char))
  -- a cluster is never empty: the parser only passes what follows `-` and a letter
  | [], _ => .error (.exit einvalidargs)
  | c :: rest, argv =>
    match findOption (·.small == some c) options with
    -- "Unkown flag found"
    | none => .error (.exit einvalidargs)
    | some (j, opt) =>
      match rest with
      | [] => do
        let (v, argv) ← commandGetOptionData opt none argv
        pure ([(j, v)], argv)
      | '=' :: value => do
        let (v, argv) ← commandGetOptionData opt (some value) argv
        pure ([(j, v)], argv)
      | _ => do
        let (v, argv) ← commandGetOptionData opt none argv
        let (log, argv) ← commandParseShortArg options rest argv
        pure ((j, v) :: log, argv)

/-! ## Long options -/

/-- `str_skip_str(str, skip)`: what follows `skip` at the front of `str`. -/
def strSkipStr : List Char → List Char → Option (List Char)
  | str, [] => some str
  | [], _ :: _ => none
  | c :: str, s :: skip => if c = s then strSkipStr str skip else none

/-- Whether `--arg` names the option, and with which data: the long name followed by nothing,
or by `=` and the data. -/
def longMatch (arg : List Char) (option : CommandOption) : Option (Option (List Char)) :=
  match option.large with
  | none => none
  | some large =>
    match strSkipStr arg large with
    | some [] => some none
    | some ('=' :: value) => some (some value)
    | _ => none

/-- `command_parse_long_arg(self, arg)`: `help` prints the help and exits. -/
def commandParseLongArg (options : List CommandOption) (arg : List Char)
    (argv : List (List Char)) : Except Stop (OptionLog × List (List Char)) :=
  if arg = "help".toList then .error (.exit 0)
  else
    match findOption (fun o => (longMatch arg o).isSome) options with
    -- "Unkown flag found"
    | none => .error (.exit einvalidargs)
    | some (j, opt) => do
      let (v, argv) ← commandGetOptionData opt (longMatch arg opt).join argv
      pure ([(j, v)], argv)

/-! ## The arguments -/

/-- The state of `command_parse_args`'s loop: `self->argv` from the argument being parsed on,
and what the options have received. -/
structure ParseState where
  argv : List (List Char)
  log : OptionLog

/-- What `command_parse_args` leaves: what the options received, and the arguments left, which
it writes to `*argc` and `*argv` (when there are any: the callers' start empty). -/
structure Parsed where
  log : OptionLog
  args : List (List Char)
  deriving DecidableEq, Repr

/-- One round of `command_parse_args`'s loop. After an option the loop's increment steps past
the argument `self->argv` points at: the option's, or the last value it read. -/
def commandParseArgsStep (options : List CommandOption) (s : ParseState) :
    Except Stop Parsed ⊕ ParseState :=
  match s.argv with
  | [] => .inl (.ok ⟨s.log, []⟩)
  | arg :: rest =>
    match arg with
    | '-' :: c :: more =>
      if c ≠ '-' then
        match commandParseShortArg options (c :: more) (arg :: rest) with
        | .ok (log, argv) => .inr ⟨argv.tail, s.log ++ log⟩
        | .error e => .inl (.error e)
      -- `--`
      else if more = [] then .inl (.ok ⟨s.log, rest⟩)
      else
        match commandParseLongArg options more (arg :: rest) with
        | .ok (log, argv) => .inr ⟨argv.tail, s.log ++ log⟩
        | .error e => .inl (.error e)
    -- not an option: it does not begin with `-`, or is `-` alone
    | _ => .inl (.ok ⟨s.log, arg :: rest⟩)

/-! ## What a round consumes -/

attribute [local simp] readOptionArg in
lemma readOptionArg_suffix {data : Option (List Char)} {argv argv' : List (List Char)}
    {value : List Char} (h : readOptionArg data argv = .ok (value, argv')) : argv' <:+ argv := by
  unfold readOptionArg at h
  split at h
  · cases h
    exact List.suffix_refl _
  · cases h
    exact List.suffix_cons _ _
  · cases h

/-- An option takes at most the next argument. -/
lemma commandGetOptionData_suffix {option : CommandOption} {data : Option (List Char)}
    {argv argv' : List (List Char)} {v : OptionValue}
    (h : commandGetOptionData option data argv = .ok (v, argv')) : argv' <:+ argv := by
  unfold commandGetOptionData at h
  cases hty : option.type <;> simp only [hty] at h
  case bool | boolFalse =>
    -- a flag reads no argument
    split at h
    · cases h
      exact List.suffix_refl _
    · split at h
      · cases h
        exact List.suffix_refl _
      · cases h
  case string | stringDup =>
    obtain ⟨⟨readed, argv₁⟩, hr, h⟩ := Fallible.bind_eq_ok.1 h
    dsimp only at h
    split at h
    · cases h
      exact readOptionArg_suffix hr
    · split at h
      · cases h
        exact readOptionArg_suffix hr
      · cases h
  case callback =>
    obtain ⟨⟨readed, argv₁⟩, hr, h⟩ := Fallible.bind_eq_ok.1 h
    dsimp only at h
    split at h
    · cases h
    · split at h
      · cases h
        exact readOptionArg_suffix hr
      · cases h

attribute [local simp] commandParseShortArg in
lemma commandParseShortArg_suffix {options : List CommandOption} {cluster : List Char}
    {argv argv' : List (List Char)} {log : OptionLog}
    (h : commandParseShortArg options cluster argv = .ok (log, argv')) : argv' <:+ argv := by
  induction cluster generalizing argv log with
  | nil => cases h
  | cons c rest ih =>
    unfold commandParseShortArg at h
    split at h
    · cases h
    · -- the values read make a row of suffixes
      split at h
      all_goals
        obtain ⟨⟨v, argv₁⟩, hd, h⟩ := Fallible.bind_eq_ok.1 h
        have hs := commandGetOptionData_suffix hd
        dsimp only at h
      · cases Fallible.pure_eq_ok.1 h
        exact hs
      · cases Fallible.pure_eq_ok.1 h
        exact hs
      · obtain ⟨⟨log₁, argv₂⟩, hrest, h⟩ := Fallible.bind_eq_ok.1 h
        cases Fallible.pure_eq_ok.1 h
        exact (ih hrest).trans hs

lemma commandParseLongArg_suffix {options : List CommandOption} {arg : List Char}
    {argv argv' : List (List Char)} {log : OptionLog}
    (h : commandParseLongArg options arg argv = .ok (log, argv')) : argv' <:+ argv := by
  unfold commandParseLongArg at h
  split at h
  · cases h
  · split at h
    · cases h
    · obtain ⟨⟨v, argv₁⟩, hd, h⟩ := Fallible.bind_eq_ok.1 h
      cases Fallible.pure_eq_ok.1 h
      exact commandGetOptionData_suffix hd

attribute [local simp] commandParseArgsStep in
/-- Every round that goes on consumes at least the argument it parsed. -/
lemma commandParseArgsStep_decreases (options : List CommandOption) :
    Loop.Decreases (commandParseArgsStep options) (·.argv.length) := by
  intro s s' h
  unfold commandParseArgsStep at h
  split at h
  · cases h
  · rename_i arg rest hargv
    split at h
    · split at h
      · split at h
        · rename_i log argv hshort
          cases h
          have := (commandParseShortArg_suffix hshort).length_le
          simp only [hargv, List.length_tail, List.length_cons] at this ⊢
          omega
        · cases h
      · split at h
        · cases h
        · split at h
          · rename_i log argv hlong
            cases h
            have := (commandParseLongArg_suffix hlong).length_le
            simp only [hargv, List.length_tail, List.length_cons] at this ⊢
            omega
          · cases h
    · cases h

/-- `command_parse_args(self, &argc, &argv)` on the arguments `command_init` leaves; the loop
always ends (`Loop.run_isSome`). -/
def commandParseArgs (options : List CommandOption) (argv : List (List Char)) :
    Except Stop Parsed :=
  (Loop.run (commandParseArgsStep options) (·.argv.length) ⟨argv, []⟩).getD (.error .fail)

/-- An argument the loop reads as an option: `-` and at least one more character. -/
def isOptionArg : List Char → Bool
  | '-' :: _ :: _ => true
  | _ => false

/-! ## One round -/

section Round

variable {options : List CommandOption} {s s' : ParseState} {p : Parsed}

/-- A round that ends with success has met the end of the arguments, one that is not an
option, or `--`; the arguments after it are handed back. -/
lemma commandParseArgsStep_eq_inl (h : commandParseArgsStep options s = .inl (.ok p)) :
    p.log = s.log ∧
      (s.argv = [] ∧ p.args = [] ∨
        (∃ arg rest, s.argv = arg :: rest ∧ isOptionArg arg = false ∧ p.args = s.argv) ∨
        s.argv = ['-', '-'] :: p.args) := by
  unfold commandParseArgsStep at h
  split at h
  · rename_i hargv
    cases h
    exact ⟨rfl, .inl ⟨hargv, rfl⟩⟩
  · rename_i arg rest hargv
    split at h
    · rename_i c more
      split at h
      · split at h <;> cases h
      · split at h
        · rename_i hc hmore
          cases h
          have hc' : c = '-' := not_not.1 hc
          subst hc' hmore
          exact ⟨rfl, .inr (.inr hargv)⟩
        · split at h <;> cases h
    · rename_i hnot
      cases h
      refine ⟨rfl, .inr (.inl ⟨arg, rest, hargv, ?_, hargv.symm⟩)⟩
      unfold isOptionArg
      split
      · rename_i c more
        exact absurd rfl (hnot c more)
      · rfl

/-- A round that goes on has parsed the options of the argument in front, consuming it and
the values read. -/
lemma commandParseArgsStep_eq_inr (h : commandParseArgsStep options s = .inr s') :
    ∃ log argv, argv <:+ s.argv ∧ s'.argv = argv.tail ∧ s'.log = s.log ++ log := by
  unfold commandParseArgsStep at h
  split at h
  · cases h
  · rename_i arg rest hargv
    split at h
    · split at h
      · split at h
        · rename_i log argv hshort
          cases h
          exact ⟨log, argv, hargv ▸ commandParseShortArg_suffix hshort, rfl, rfl⟩
        · cases h
      · split at h
        · cases h
        · split at h
          · rename_i log argv hlong
            cases h
            exact ⟨log, argv, hargv ▸ commandParseLongArg_suffix hlong, rfl, rfl⟩
          · cases h
    · cases h

end Round

/-- `command_parse_args` is its loop run from the first argument with nothing set. -/
lemma run_eq_commandParseArgs (options : List CommandOption) (argv : List (List Char)) :
    Loop.run (commandParseArgsStep options) (·.argv.length) ⟨argv, []⟩ =
      some (commandParseArgs options argv) := by
  have hsome := Loop.run_isSome (commandParseArgsStep_decreases options) ⟨argv, []⟩
  unfold commandParseArgs
  cases hrun : Loop.run (commandParseArgsStep options) (·.argv.length) ⟨argv, []⟩ with
  | none => rw [hrun] at hsome; cases hsome
  | some r => rfl

/-! ## What is handed back -/

/-- The arguments `command_parse_args` hands back are the arguments from some point on, and
that point is their end, an argument that is not an option, or the one after `--`. -/
theorem commandParseArgs_args {options : List CommandOption} {argv : List (List Char)}
    {p : Parsed} (h : commandParseArgs options argv = .ok p) :
    p.args <:+ argv ∧
      (p.args = [] ∨ (∃ arg rest, p.args = arg :: rest ∧ isOptionArg arg = false) ∨
        ['-', '-'] :: p.args <:+ argv) := by
  have hrun : Loop.run (commandParseArgsStep options) (·.argv.length) ⟨argv, []⟩ =
      some (.ok p) := by
    rw [run_eq_commandParseArgs, h]
  -- the invariant: the loop stands at a suffix of the arguments
  refine Loop.run_invariant (commandParseArgsStep_decreases options)
    (I := fun s => s.argv <:+ argv)
    (Q := fun r => ∀ p, r = .ok p → p.args <:+ argv ∧
      (p.args = [] ∨ (∃ arg rest, p.args = arg :: rest ∧ isOptionArg arg = false) ∨
        ['-', '-'] :: p.args <:+ argv)) ?_ ?_ (List.suffix_refl argv) hrun p rfl
  · intro s s' hs hstep
    obtain ⟨log, argv₁, hsuf, hargv, -⟩ := commandParseArgsStep_eq_inr hstep
    rw [hargv]
    exact ((List.tail_suffix argv₁).trans hsuf).trans hs
  · rintro s r hs hstep p rfl
    obtain ⟨-, hend | ⟨arg, rest, hargv, hopt, hargs⟩ | hdash⟩ := commandParseArgsStep_eq_inl hstep
    · rw [hend.2]
      exact ⟨List.nil_suffix, .inl rfl⟩
    · rw [hargs]
      exact ⟨hs, .inr (.inl ⟨arg, rest, hargv, hopt⟩)⟩
    · rw [hdash] at hs
      exact ⟨(List.suffix_cons _ _).trans hs, .inr (.inr hs)⟩

/-! ## Clusters of flags -/

/-- A flag without data takes no argument: `BOOL` sets `true`, `BOOL_FALSE` sets `false`. -/
lemma commandGetOptionData_flag {option : CommandOption}
    (hty : option.type = .bool ∨ option.type = .boolFalse) (argv : List (List Char)) :
    commandGetOptionData option none argv = .ok (.flag (option.type == .bool), argv) := by
  unfold commandGetOptionData
  rcases hty with hty | hty <;> simp [hty]

/-- The flag a letter sets, for a letter of a flag without data. -/
def letterFlag (options : List CommandOption) (c : Char) : Option (Nat × OptionValue) :=
  (findOption (·.small == some c) options).map fun (j, o) => (j, .flag (o.type == .bool))

/-- A cluster of letters, none `=`, each of a flag without data, sets each flag in order and
reads no argument. -/
theorem commandParseShortArg_flags {options : List CommandOption} {cluster : List Char}
    (hne : cluster ≠ [])
    (hflags : ∀ c ∈ cluster, c ≠ '=' ∧ ∃ j o, findOption (·.small == some c) options = some (j, o) ∧
      (o.type = .bool ∨ o.type = .boolFalse))
    (argv : List (List Char)) :
    commandParseShortArg options cluster argv = .ok (cluster.filterMap (letterFlag options), argv) := by
  induction cluster with
  | nil => exact absurd rfl hne
  | cons c rest ih =>
    obtain ⟨-, j, o, hfind, hty⟩ := hflags c List.mem_cons_self
    have hletter : letterFlag options c = some (j, .flag (o.type == .bool)) := by
      simp [letterFlag, hfind]
    unfold commandParseShortArg
    simp only [hfind]
    -- the letter after `c` decides: the end, `=`, or more letters
    split
    · simp [commandGetOptionData_flag hty, hletter]
    · rename_i value
      exact absurd rfl (hflags '=' (List.mem_cons_of_mem _ List.mem_cons_self)).1
    · rename_i hnil heq
      have hrest := ih (by simpa using hnil) fun c hc => hflags c (List.mem_cons_of_mem _ hc)
      simp [commandGetOptionData_flag hty, hrest, hletter]

/-! ## Long options with a value -/

lemma strSkipStr_eq_some_iff {str skip rest : List Char} :
    strSkipStr str skip = some rest ↔ str = skip ++ rest := by
  induction skip generalizing str with
  | nil => simp [strSkipStr]
  | cons s skip ih =>
    cases str with
    | nil => simp [strSkipStr]
    | cons c str =>
      by_cases hc : c = s
      · simp [strSkipStr, hc, ih]
      · simp [strSkipStr, hc]

/-- The text before the first `=`, when the name before it holds none. -/
lemma takeWhile_name {name value : List Char} (hname : '=' ∉ name) :
    (name ++ '=' :: value).takeWhile (· != '=') = name := by
  have hall : ∀ c ∈ name, (c != '=') = true := fun c hc => by
    simp only [bne_iff_ne, ne_eq]
    rintro rfl
    exact hname hc
  rw [List.takeWhile_append_of_pos hall, List.takeWhile_cons_of_neg (by simp), List.append_nil]

/-- A table whose long names are distinct and hold no `=`. -/
def LongNames (options : List CommandOption) : Prop :=
  (options.filterMap (·.large)).Nodup ∧ ∀ o ∈ options, ∀ l, o.large = some l → '=' ∉ l

/-- `--name=v` names exactly the option whose long name is `name`. -/
lemma longMatch_eq {option : CommandOption} {name : List Char} (value : List Char)
    (hlarge : ∀ l, option.large = some l → '=' ∉ l) (hname : '=' ∉ name) :
    longMatch (name ++ '=' :: value) option =
      if option.large = some name then some (some value) else none := by
  unfold longMatch
  cases hl : option.large with
  | none => simp
  | some large =>
    have hnl := hlarge large hl
    by_cases heq : large = name
    · subst heq
      simp [strSkipStr_eq_some_iff.2 rfl]
    · simp only [Option.some.injEq, heq, if_false]
      -- what follows `large` would have to begin with `=`, and the names agree up to it
      rcases hs : strSkipStr (name ++ '=' :: value) large with _ | _ | ⟨c, rest⟩
      · rfl
      · have := strSkipStr_eq_some_iff.1 hs
        rw [List.append_nil] at this
        exact absurd (this ▸ List.mem_append_right name List.mem_cons_self) hnl
      · by_cases hc : c = '='
        · subst hc
          have := congrArg (List.takeWhile (· != '=')) (strSkipStr_eq_some_iff.1 hs)
          rw [takeWhile_name hname, takeWhile_name hnl] at this
          exact absurd this.symm heq
        · split
          · rename_i h
            cases h
          · rename_i h
            cases h
            exact absurd rfl hc
          · rfl

/-- The first option that `--name=v` names is the one of that name. -/
lemma findOption_longMatch {options : List CommandOption} (hnames : LongNames options)
    {j : Nat} {option : CommandOption} (hj : options[j]? = some option) {name : List Char}
    (hlarge : option.large = some name) (value : List Char) :
    findOption (fun o => (longMatch (name ++ '=' :: value) o).isSome) options = some (j, option) := by
  have hname : '=' ∉ name := hnames.2 option (List.mem_of_getElem? hj) name hlarge
  induction options generalizing j with
  | nil => cases hj
  | cons o options ih =>
    have hrest : LongNames options :=
      ⟨hnames.1.sublist ((List.sublist_cons_self o options).filterMap _),
        fun o' ho' => hnames.2 o' (List.mem_cons_of_mem _ ho')⟩
    have hmatch := longMatch_eq value (hnames.2 o List.mem_cons_self) hname
    cases j with
    | zero =>
      obtain rfl : o = option := by simpa using hj
      simp [findOption, hmatch, hlarge]
    | succ k =>
      have hk : options[k]? = some option := by simpa using hj
      -- an option before it of the same name would repeat the name
      have hne : o.large ≠ some name := by
        intro ho
        have hnd := hnames.1
        rw [List.filterMap_cons, ho] at hnd
        exact (List.nodup_cons.1 hnd).1
          (List.mem_filterMap.2 ⟨option, List.mem_of_getElem? hk, hlarge⟩)
      simp [findOption, hmatch, hne, ih hrest hk]

/-- An option that takes the text `v` as its value: a string, whose callback (if any) accepts
it, or a callback that accepts it. -/
def TakesText (option : CommandOption) (v : List Char) : Prop :=
  ((option.type = .string ∨ option.type = .stringDup) ∧ ∀ cb, option.cb = some cb → cb v = true) ∨
    (option.type = .callback ∧ ∃ cb, option.cb = some cb ∧ cb v = true)

lemma commandGetOptionData_text {option : CommandOption} {v : List Char} (h : TakesText option v)
    (argv : List (List Char)) :
    commandGetOptionData option (some v) argv = .ok (.text v, argv) := by
  unfold commandGetOptionData
  rcases h with ⟨hty, hcb⟩ | ⟨hty, cb, hcb, hv⟩
  · -- a string, whose callback if any accepts the text
    cases hc : option.cb with
    | none => rcases hty with hty | hty <;> simp [hty, readOptionArg, bind, Except.bind]
    | some cb =>
      rcases hty with hty | hty <;> simp [hty, hcb cb hc, readOptionArg, bind, Except.bind]
  · simp [hty, hcb, hv, readOptionArg, bind, Except.bind]

/-- `--name=v` gives `v` to the option of that name, and reads no argument. -/
lemma commandParseLongArg_value {options : List CommandOption} (hnames : LongNames options)
    {j : Nat} {option : CommandOption} (hj : options[j]? = some option) {name v : List Char}
    (hlarge : option.large = some name) (htext : TakesText option v) (argv : List (List Char)) :
    commandParseLongArg options (name ++ '=' :: v) argv = .ok ([(j, .text v)], argv) := by
  have hname : '=' ∉ name := hnames.2 option (List.mem_of_getElem? hj) name hlarge
  have hhelp : name ++ '=' :: v ≠ "help".toList := by
    intro h
    have : '=' ∈ "help".toList := h ▸ List.mem_append_right name List.mem_cons_self
    exact absurd this (by decide)
  have hmatch := longMatch_eq v (hnames.2 option (List.mem_of_getElem? hj)) hname
  simp only [commandParseLongArg, hhelp, if_false, findOption_longMatch hnames hj hlarge v,
    hmatch, hlarge, if_true, Option.join_some, commandGetOptionData_text htext argv]
  rfl

section Round

variable {options : List CommandOption} {arg : List Char} {rest : List (List Char)}

/-- A round at an argument that is not an option ends the loop and hands it back. -/
lemma commandParseArgsStep_of_not_option (log : OptionLog) (h : isOptionArg arg = false) :
    commandParseArgsStep options ⟨arg :: rest, log⟩ = .inl (.ok ⟨log, arg :: rest⟩) := by
  unfold commandParseArgsStep
  dsimp only
  split
  · rename_i c more
    simp [isOptionArg] at h
  · rfl

/-- A round at `--` and a long option goes on past what the long option consumed. -/
lemma commandParseArgsStep_long (log : OptionLog) {more : List Char} {log' : OptionLog}
    {argv : List (List Char)} (hmore : more ≠ []) (hlong : commandParseLongArg options more (('-' :: '-' :: more) :: rest) =
      .ok (log', argv)) :
    commandParseArgsStep options ⟨('-' :: '-' :: more) :: rest, log⟩ = .inr ⟨argv.tail, log ++ log'⟩ := by
  simp [commandParseArgsStep, hmore, hlong]

end Round

/-- The arguments `--name=v` for requests of an option's index, its long name and a value. -/
def longArgs (reqs : List (Nat × List Char × List Char)) : List (List Char) :=
  reqs.map fun r => '-' :: '-' :: (r.2.1 ++ '=' :: r.2.2)

/-- The loop over a row of `--name=v` and then the arguments left: each value goes to its
option, in order. The induction is on the row, one round for each request. -/
lemma run_longArgs {options : List CommandOption} (hnames : LongNames options)
    {reqs : List (Nat × List Char × List Char)}
    (hreqs : ∀ r ∈ reqs, ∃ o, options[r.1]? = some o ∧ o.large = some r.2.1 ∧ TakesText o r.2.2)
    {args : List (List Char)} (hargs : args = [] ∨ ∃ a rest, args = a :: rest ∧ isOptionArg a = false)
    (log : OptionLog) :
    Loop.run (commandParseArgsStep options) (·.argv.length) ⟨longArgs reqs ++ args, log⟩ =
      some (.ok ⟨log ++ reqs.map fun r => (r.1, .text r.2.2), args⟩) := by
  have hd := commandParseArgsStep_decreases options
  induction reqs generalizing log with
  | nil =>
    simp only [longArgs, List.map_nil, List.nil_append, List.append_nil]
    rcases hargs with rfl | ⟨a, rest, rfl, ha⟩
    · exact Loop.run_of_inl hd rfl
    · exact Loop.run_of_inl hd (commandParseArgsStep_of_not_option log ha)
  | cons r reqs ih =>
    obtain ⟨o, hj, hlarge, htext⟩ := hreqs r List.mem_cons_self
    have hround := commandParseArgsStep_long log (List.append_ne_nil_of_right_ne_nil _
      (List.cons_ne_nil _ _)) (commandParseLongArg_value hnames hj hlarge htext
        (('-' :: '-' :: (r.2.1 ++ '=' :: r.2.2)) :: (longArgs reqs ++ args)))
    have hcons : longArgs (r :: reqs) ++ args =
        ('-' :: '-' :: (r.2.1 ++ '=' :: r.2.2)) :: (longArgs reqs ++ args) := rfl
    rw [hcons, Loop.run_of_inr hd hround]
    rw [List.tail_cons, ih (fun r hr => hreqs r (List.mem_cons_of_mem _ hr)), List.append_assoc]
    rfl

/-- A row of `--name=v` followed by arguments that begin with one that is not an option gives
each value to the option of that name, in order, and hands the arguments back. -/
theorem commandParseArgs_long_values {options : List CommandOption} (hnames : LongNames options)
    {reqs : List (Nat × List Char × List Char)}
    (hreqs : ∀ r ∈ reqs, ∃ o, options[r.1]? = some o ∧ o.large = some r.2.1 ∧ TakesText o r.2.2)
    {args : List (List Char)} (hargs : args = [] ∨ ∃ a rest, args = a :: rest ∧ isOptionArg a = false) :
    commandParseArgs options (longArgs reqs ++ args) =
      .ok ⟨reqs.map fun r => (r.1, .text r.2.2), args⟩ := by
  have hrun := run_longArgs hnames hreqs hargs []
  rw [run_eq_commandParseArgs, List.nil_append] at hrun
  exact Option.some.inj hrun

/-- With `-u` taking the user, `-uroot busybox` gives the user `busybox` and fails on the letter
`r`; where `r`, `o` and `t` are flags it sets them and hands back what follows `busybox`. Only
`-u=root` gives the user `root`. -/
theorem commandParseArgs_cluster_value :
    commandParseArgs [⟨.stringDup, some "user".toList, some 'u', none⟩,
        ⟨.bool, some "tty".toList, some 't', none⟩,
        ⟨.bool, some "interactive".toList, some 'i', none⟩]
      (commandInit ["isula".toList, "run".toList, "-uroot".toList, "busybox".toList]) =
      .error (.exit einvalidargs) ∧
    commandParseArgs [⟨.stringDup, some "user".toList, some 'u', none⟩,
        ⟨.bool, some "rm".toList, some 'r', none⟩, ⟨.bool, some "oom".toList, some 'o', none⟩,
        ⟨.bool, some "tty".toList, some 't', none⟩]
      (commandInit ["isula".toList, "run".toList, "-uroot".toList, "busybox".toList, "sh".toList]) =
      .ok ⟨[(0, .text "busybox".toList), (1, .flag true), (2, .flag true), (2, .flag true),
        (3, .flag true)], ["sh".toList]⟩ ∧
    commandParseArgs [⟨.stringDup, some "user".toList, some 'u', none⟩]
      (commandInit ["isula".toList, "run".toList, "-u=root".toList, "busybox".toList]) =
      .ok ⟨[(0, .text "root".toList)], ["busybox".toList]⟩ := by
  decide

end Commander

end Isulad
