import Isulad.Framework.Printf
import Mathlib.Data.List.Infix

/-!
# The daemon's error message (`libisulad.c`) and the texts recorded in it

`isulad_set_error_message(format, ...)` clears the daemon's message `g_isulad_errmsg`, formats
its arguments with `vsnprintf` into a buffer of `BUFSIZ` characters and records the result,
or nothing when it does not fit. Its first argument is a `printf` format.

Two callers pass text they did not write as that format, with no further argument.
`show_shim_runtime_errlog` collects the first three lines of the shim's `shim-log.json` and of
the runtime's `log.json` that contain `error` (`get_err_message`) into a buffer, and passes the
buffer; and each handler of a plugin's reply passes the plugin's `err_message`. A `%` in the
runtime's log (which repeats names taken from the image, such as an entry point) or in a
plugin's reply is then a conversion: `%n%n%s` reads three arguments that were never passed and
stores through two of them (`showShimRuntimeErrlog_formats_log_text`). Text without `%` is
recorded as it is (`showShimRuntimeErrlog_of_no_percent`).
-/

namespace Isulad

namespace ErrorMessage

/-- `BUFSIZ` of the C library. -/
def bufsiz : Nat := 8192

/-- `SHIM_LOG_SIZE`. -/
def shimLogSize : Nat := (bufsiz - 100) / 2

/-- What `g_isulad_errmsg` holds after a call. -/
inductive Recorded
  /-- `NULL`: the text did not fit. -/
  | none
  | text (t : List Char)
  /-- Text made from arguments the call never passed. -/
  | fromArguments
  deriving DecidableEq, Repr

/-- What `isulad_set_error_message(format)` with no further argument does: what it records,
the variadic arguments `vsnprintf` reads, and the stores `%n` makes. -/
structure SetErrorEffect where
  recorded : Recorded
  argsRead : Nat
  nWrites : Nat
  deriving DecidableEq, Repr

/-- `isulad_set_error_message(format)`. -/
def isuladSetErrorMessage (format : List Char) : SetErrorEffect :=
  { recorded :=
      match Printf.render format with
      | some t => if bufsiz ≤ t.length then .none else .text t
      | none => .fromArguments
    argsRead := Printf.argsRead format
    nWrites := Printf.nWrites format }

/-! ## The runtime's logs -/

/-- `strings_contains_word(str, substr)`: `strcasestr`. -/
def stringsContainsWord (str substr : List Char) : Bool :=
  decide (substr.map Char.toLower <:+: str.map Char.toLower)

/-- `get_err_message(buf, buf_size, workdir, file)` over the lines of the file (none when it
cannot be opened): its first three lines that contain `error`, cut to the buffer. -/
def getErrMessage (bufSize : Nat) (lines : List (List Char)) : List Char :=
  (((lines.filter fun l => stringsContainsWord l "error".toList).take 3).flatten).take (bufSize - 1)

/-- The buffer `show_shim_runtime_errlog` builds from the two logs. -/
def shimRuntimeErrlogBuf (shimLog runtimeLog : List (List Char)) : List Char :=
  ("shim-log error: ".toList ++ getErrMessage shimLogSize shimLog ++ "\nruntime-log error: ".toList ++
    getErrMessage shimLogSize runtimeLog ++ ['\n']).take (bufsiz - 1)

/-- `show_shim_runtime_errlog(workdir)`: the buffer passed as the format. -/
def showShimRuntimeErrlog (shimLog runtimeLog : List (List Char)) : SetErrorEffect :=
  isuladSetErrorMessage (shimRuntimeErrlogBuf shimLog runtimeLog)

/-! ## Plugins' replies -/

/-- `check_err(err, msg)`: the reply reports an error. -/
def checkErr (err : Int) (msg : List Char) : Bool := err ≠ 0 || msg ≠ []

/-- The error path the handlers of a plugin's reply share: the reply's `err_message` becomes
the format. -/
def recordPluginError (errCode : Int) (errMessage : List Char) : Option SetErrorEffect :=
  if checkErr errCode errMessage then some (isuladSetErrorMessage errMessage) else none

/-- `unpack_init_response`. -/
def unpackInitResponse (errCode : Int) (errMessage : List Char) : Option SetErrorEffect :=
  recordPluginError errCode errMessage

/-- `unpack_event_pre_create_response`. -/
def unpackEventPreCreateResponse (errCode : Int) (errMessage : List Char) :
    Option SetErrorEffect :=
  recordPluginError errCode errMessage

/-- `unpack_event_pre_start_response`. -/
def unpackEventPreStartResponse (errCode : Int) (errMessage : List Char) :
    Option SetErrorEffect :=
  recordPluginError errCode errMessage

/-- `unpack_event_post_stop_response`. -/
def unpackEventPostStopResponse (errCode : Int) (errMessage : List Char) :
    Option SetErrorEffect :=
  recordPluginError errCode errMessage

/-- `unpack_event_post_remove_response`. -/
def unpackEventPostRemoveResponse (errCode : Int) (errMessage : List Char) :
    Option SetErrorEffect :=
  recordPluginError errCode errMessage

/-! ## What is recorded -/

lemma not_mem_getErrMessage {lines : List (List Char)} (h : ∀ l ∈ lines, '%' ∉ l) (n : Nat) :
    '%' ∉ getErrMessage n lines := by
  intro hm
  have hflat := List.mem_of_mem_take hm
  obtain ⟨l, hl, hc⟩ := List.mem_flatten.1 hflat
  exact h l (List.mem_of_mem_filter (List.mem_of_mem_take hl)) hc

/-- Logs without `%` are recorded as the text, with the fixed wording around them. -/
theorem showShimRuntimeErrlog_of_no_percent {shimLog runtimeLog : List (List Char)}
    (hshim : ∀ l ∈ shimLog, '%' ∉ l) (hruntime : ∀ l ∈ runtimeLog, '%' ∉ l) :
    showShimRuntimeErrlog shimLog runtimeLog =
      ⟨.text (shimRuntimeErrlogBuf shimLog runtimeLog), 0, 0⟩ := by
  have hbuf : '%' ∉ shimRuntimeErrlogBuf shimLog runtimeLog := by
    intro hm
    have hs := not_mem_getErrMessage hshim shimLogSize
    have hr := not_mem_getErrMessage hruntime shimLogSize
    simp only [shimRuntimeErrlogBuf] at hm
    have := List.mem_of_mem_take hm
    simp only [List.mem_append] at this
    rcases this with (((h1 | h2) | h3) | h4) | h5
    · exact absurd h1 (by decide)
    · exact hs h2
    · exact absurd h3 (by decide)
    · exact hr h4
    · exact absurd h5 (by decide)
  have hlen : (shimRuntimeErrlogBuf shimLog runtimeLog).length < bufsiz := by
    simp only [shimRuntimeErrlogBuf, List.length_take]
    have : 0 < bufsiz := by decide
    omega
  obtain ⟨hrender, hargs, hwrites⟩ := Printf.render_of_no_percent hbuf
  simp [showShimRuntimeErrlog, isuladSetErrorMessage, hrender, hargs, hwrites,
    Nat.not_le.2 hlen]

/-- A runtime log line that repeats an entry point named `%n%n%s`. -/
def craftedRuntimeLog : List (List Char) :=
  ["level=error msg=exec: %n%n%s: executable file not found in $PATH\n".toList]

/-- That log makes the daemon read three arguments it never passed and store through two;
so does a plugin whose reply's message is `%n%n%s`. -/
theorem showShimRuntimeErrlog_formats_log_text :
    showShimRuntimeErrlog [] craftedRuntimeLog = ⟨.fromArguments, 3, 2⟩ ∧
    unpackInitResponse 1 "%n%n%s".toList = some ⟨.fromArguments, 3, 2⟩ := by
  decide

end ErrorMessage

end Isulad
