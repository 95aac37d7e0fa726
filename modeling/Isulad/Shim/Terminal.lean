import Isulad.Framework.Simulation
import Mathlib.Data.List.Basic

/-!
# The shim's line cache for json-file logs (`terminal.c`)

`task_io_copy` reads up to `DEFAULT_IO_COPY_BUF` bytes at a time from the container's output
and hands each read to `shim_write_container_log_file`, which keeps a static cache of
`BUF_CACHE_SIZE` bytes and writes out one log record per complete line:

1. as much of the read as fits is copied after the cache; `buf_left` bytes do not fit;
2. every line of the cache, up to and with its `\n`, goes to `shim_logger_write`;
3. a full cache without a `\n` goes out whole;
4. the rest after the last line moves to the front, and the `buf_left` bytes are copied after
   it.

Step 4 copies `buf_left` bytes without checking that they fit. When the cache held no `\n`
before the call they always do (`shimWriteContainerLogFile_inBounds`): the line found in the
new bytes frees more room than the bytes that did not fit. But the bytes copied in step 4 may
hold a `\n` themselves, and on the next call the scan stops at that early line, frees only a
few bytes and the copy runs past the end of the cache
(`shimWriteContainerLogFile_writes_past_cache`).

The cache and its fill level are static, and the threads copying the container's stdout and
stderr both call the function, each naming its own stream, with no lock. Calls that start with
room in the cache lose and repeat no byte: the records hold the bytes read, in call order
(`run_logStep_conserves`). But which stream they came from is lost: a record is labelled with
the stream of the call that completed its line, so stdout's `ab` followed by stderr's `c\n`
is logged as one stderr record `abc\n` (`shimLog_mislabels_stream`).
-/

namespace Isulad

namespace Shim

/-- A byte of the container's output. -/
abbrev Byte := UInt8

/-- `'\n'`. -/
def newline : Byte := 10

/-- `BUF_CACHE_SIZE`. -/
def bufCacheSize : Nat := 16 * 1024

/-- What one call does: the payloads handed to `shim_logger_write`, in order, the cache
`cache[0 .. size)` after it, and one past the highest offset the two copies into the cache
write to (the compaction only moves bytes inside `cache[0 .. size)`). -/
structure ShimWrite where
  payloads : List (List Byte)
  cache : List Byte
  writeEnd : Nat
  deriving DecidableEq, Repr

/-- The first step: the cache with as much of the read as fits (`upto`), `buf_readed` and
`buf_left`. Nothing is copied, and `buf_left` stays `0`, when the cache is already full. -/
def shimFill (cacheSize : Nat) (cache b : List Byte) : List Byte × Nat × Nat :=
  let upto := min (cache.length + b.length) cacheSize
  if upto > cache.length then
    (cache ++ b.take (upto - cache.length), upto - cache.length,
      b.length - (upto - cache.length))
  else (cache, 0, 0)

/-- The scan loop over the cache: each line from `begin` through its `\n`, and the bytes after
the last one (`cache + begin`). `line` is the part of the current line already passed. -/
def shimScan (line : List Byte) : List Byte → List (List Byte) × List Byte
  | [] => ([], line)
  | c :: rest =>
    if c = newline then
      ((line ++ [c]) :: (shimScan [] rest).1, (shimScan [] rest).2)
    else shimScan (line ++ [c]) rest

/-- The scan, the write-out of a full cache without a newline, and the compaction: the
payloads and what stays in the cache. -/
def shimLines (cacheSize : Nat) (cache : List Byte) : List (List Byte) × List Byte :=
  let scan := shimScan [] cache
  let begin := cache.length - scan.2.length
  if begin = 0 ∧ cache.length = cacheSize then (scan.1 ++ [scan.2], [])
  else (scan.1, if begin > 0 then scan.2 else cache)

/-- `shim_write_container_log_file(terminal, type, buf, read_count)` on the cache; `none` is
the final call with `buf == NULL`, which writes out what is left and returns before the
compaction. -/
def shimWriteContainerLogFile (cacheSize : Nat) (cache : List Byte) :
    Option (List Byte) → ShimWrite
  | none =>
    if cache.length = 0 then ⟨[], cache, 0⟩
    else
      let scan := shimScan [] cache
      if cache.length - scan.2.length < cache.length then ⟨scan.1 ++ [scan.2], [], 0⟩
      else ⟨scan.1, cache, 0⟩
  | some b =>
    let filled := if b.length > 0 then shimFill cacheSize cache b else (cache, 0, 0)
    let fillEnd := if filled.2.1 > 0 then cache.length + filled.2.1 else 0
    if filled.1.length = 0 then ⟨[], filled.1, fillEnd⟩
    else
      let lines := shimLines cacheSize filled.1
      if filled.2.2 > 0 then
        ⟨lines.1, lines.2 ++ b.drop filled.2.1, max fillEnd (lines.2.length + filled.2.2)⟩
      else ⟨lines.1, lines.2, fillEnd⟩

/-! ## The scan -/

attribute [local simp] shimScan in
lemma shimScan_of_nl_free {l : List Byte} (h : newline ∉ l) (line : List Byte) :
    shimScan line l = ([], line ++ l) := by
  induction l generalizing line with
  | nil => simp [shimScan]
  | cons c rest ih =>
    have hc : c ≠ newline := fun hc => h (hc ▸ List.mem_cons_self)
    rw [shimScan, if_neg hc, ih fun hx => h (List.mem_cons_of_mem _ hx)]
    simp

lemma shimScan_append_newline {l : List Byte} (h : newline ∉ l) (line r : List Byte) :
    shimScan line (l ++ newline :: r) =
      ((line ++ l ++ [newline]) :: (shimScan [] r).1, (shimScan [] r).2) := by
  induction l generalizing line with
  | nil => simp [shimScan]
  | cons c rest ih =>
    have hc : c ≠ newline := fun hc => h (hc ▸ List.mem_cons_self)
    rw [List.cons_append, shimScan, if_neg hc, ih fun hx => h (List.mem_cons_of_mem _ hx)]
    simp

/-- What follows the last line is the whole input, when it has no newline, or else a part of
it shorter than the input. -/
lemma shimScan_tail (line l : List Byte) :
    (newline ∉ l ∧ (shimScan line l).2 = line ++ l) ∨
      (newline ∈ l ∧ (shimScan line l).2.length < l.length) := by
  induction l generalizing line with
  | nil => simp [shimScan]
  | cons c rest ih =>
    by_cases hc : c = newline
    · -- the line ends here; the rest of the scan starts afresh
      refine .inr ⟨hc ▸ List.mem_cons_self, ?_⟩
      rw [shimScan, if_pos hc]
      rcases ih [] with ⟨-, h⟩ | ⟨-, h⟩
      · simp [h]
      · simp only [List.length_cons]
        omega
    · rw [shimScan, if_neg hc]
      rcases ih (line ++ [c]) with ⟨hnl, h⟩ | ⟨hnl, h⟩
      · exact .inl ⟨by simp [Ne.symm hc, hnl], by simp [h]⟩
      · refine .inr ⟨List.mem_cons_of_mem _ hnl, ?_⟩
        simp only [List.length_cons]
        omega

/-- Bytes without a newline only lengthen the current line. -/
lemma shimScan_append_of_nl_free {l : List Byte} (h : newline ∉ l) (line r : List Byte) :
    shimScan line (l ++ r) = shimScan (line ++ l) r := by
  induction l generalizing line with
  | nil => simp
  | cons c rest ih =>
    have hc : c ≠ newline := fun hc => h (hc ▸ List.mem_cons_self)
    rw [List.cons_append, shimScan, if_neg hc, ih fun hx => h (List.mem_cons_of_mem _ hx)]
    simp

attribute [local simp] shimLines in
/-- What stays after the lines of a cache without a newline before the bytes `new`: nothing,
when the cache is full and `new` has no newline, else fewer bytes than `new`. -/
lemma shimLines_rest_length {cacheSize : Nat} {old new : List Byte} (hold : newline ∉ old)
    (hfull : (old ++ new).length = cacheSize) :
    (shimLines cacheSize (old ++ new)).2.length = 0 ∨
      (shimLines cacheSize (old ++ new)).2.length < new.length := by
  have hscan := shimScan_append_of_nl_free hold [] new
  rw [List.nil_append] at hscan
  simp only [shimLines, hscan]
  rcases shimScan_tail old new with ⟨-, htail⟩ | ⟨-, htail⟩
  · -- no newline at all: the full cache goes out whole
    left
    simp [htail, hfull]
  · -- the last line ends in `new`; what follows it is shorter than `new`
    right
    have hpos : (old ++ new).length - (shimScan old new).2.length > 0 := by
      rw [List.length_append]
      omega
    rw [if_neg (by omega), if_pos hpos]
    exact htail

/-! ## Bounds -/

attribute [local simp] shimFill shimWriteContainerLogFile in
/-- A call on a cache without a newline writes inside the cache: the bytes that did not fit
are at most what the line found in the new bytes frees. -/
theorem shimWriteContainerLogFile_inBounds {cacheSize : Nat} {cache b : List Byte}
    (hnl : newline ∉ cache) (hb : b.length ≤ cacheSize) :
    (shimWriteContainerLogFile cacheSize cache (some b)).writeEnd ≤ cacheSize := by
  by_cases hfit : b.length > 0 ∧ min (cache.length + b.length) cacheSize > cache.length
  · -- some bytes are copied in, `k` of them
    obtain ⟨hb0, hup⟩ := hfit
    set k := min (cache.length + b.length) cacheSize - cache.length with hk
    have hfill : shimFill cacheSize cache b = (cache ++ b.take k, k, b.length - k) := by
      simp only [shimFill, if_pos hup, hk]
    have hlen : (cache ++ b.take k).length = cache.length + k := by
      rw [List.length_append, List.length_take]
      omega
    have hk0 : k > 0 := by omega
    have hne : (cache ++ b.take k).length ≠ 0 := by omega
    simp only [shimWriteContainerLogFile, if_pos hb0, hfill, if_pos hk0, if_neg hne]
    by_cases hleft : b.length - k > 0
    · -- some bytes did not fit: the cache was filled to the end
      simp only [if_pos hleft]
      have hfull : (cache ++ b.take k).length = cacheSize := by
        rw [hlen]
        omega
      have hrest := shimLines_rest_length hnl hfull
      rw [List.length_take] at hrest
      exact Nat.max_le.2 ⟨by omega, by omega⟩
    · simp only [if_neg hleft]
      omega
  · -- nothing is copied in, so nothing is left over either
    have hnone : (if b.length > 0 then shimFill cacheSize cache b else (cache, 0, 0)) =
        (cache, 0, 0) := by
      by_cases hb0 : b.length > 0
      · simp only [if_pos hb0, shimFill]
        exact if_neg fun h => hfit ⟨hb0, h⟩
      · exact if_neg hb0
    simp only [shimWriteContainerLogFile, hnone, gt_iff_lt, Nat.lt_irrefl, if_false]
    split <;> exact Nat.zero_le _

/-! ## Calls that go past the cache -/

/-- A read that fits, into a cache with no newline and leaving room, is only appended. -/
lemma shimWriteContainerLogFile_of_fits {cacheSize : Nat} {cache b : List Byte}
    (hnl : newline ∉ cache ++ b) (hb : b ≠ []) (hfit : cache.length + b.length < cacheSize) :
    (shimWriteContainerLogFile cacheSize cache (some b)).cache = cache ++ b := by
  have hb0 : b.length > 0 := List.length_pos_of_ne_nil hb
  have hmin : min (cache.length + b.length) cacheSize = cache.length + b.length := by omega
  have hfill : shimFill cacheSize cache b = (cache ++ b, b.length, 0) := by
    simp only [shimFill, hmin, if_pos (show cache.length + b.length > cache.length by omega),
      Nat.add_sub_cancel_left, List.take_length, Nat.sub_self]
  have hlines : shimLines cacheSize (cache ++ b) = ([], cache ++ b) := by
    simp only [shimLines, shimScan_of_nl_free hnl, List.nil_append, Nat.sub_self,
      List.length_append]
    rw [if_neg (by omega), if_neg (Nat.lt_irrefl 0)]
  simp only [shimWriteContainerLogFile, if_pos hb0, hfill, List.length_append,
    if_neg (show ¬cache.length + b.length = 0 by omega), hlines, Nat.lt_irrefl, if_false]

/-- A read that overfills the cache, whose filled cache has its last newline after `pre`: the
line through it goes out, and the bytes after it and those that did not fit stay. -/
lemma shimWriteContainerLogFile_of_overfill {cacheSize : Nat} {cache b pre post : List Byte}
    (hsize : cache.length < cacheSize) (hover : cacheSize < cache.length + b.length)
    (hsplit : cache ++ b.take (cacheSize - cache.length) = pre ++ newline :: post)
    (hpre : newline ∉ pre) (hpost : newline ∉ post) :
    shimWriteContainerLogFile cacheSize cache (some b) =
      ⟨[pre ++ [newline]], post ++ b.drop (cacheSize - cache.length),
        max cacheSize (post.length + (cache.length + b.length - cacheSize))⟩ := by
  have hmin : min (cache.length + b.length) cacheSize = cacheSize := by omega
  have hfill : shimFill cacheSize cache b =
      (pre ++ newline :: post, cacheSize - cache.length,
        cache.length + b.length - cacheSize) := by
    simp only [shimFill, hmin, if_pos hsize, hsplit]
    congr 2
    omega
  have hlen : (pre ++ newline :: post).length = cacheSize := by
    rw [← hsplit, List.length_append, List.length_take]
    omega
  have hlines : shimLines cacheSize (pre ++ newline :: post) = ([pre ++ [newline]], post) := by
    have hpl : post.length < cacheSize := by
      rw [← hlen, List.length_append, List.length_cons]
      omega
    simp only [shimLines, shimScan_append_newline hpre, shimScan_of_nl_free hpost,
      List.nil_append, hlen]
    rw [if_neg (by omega), if_pos (by omega)]
  have hb0 : b.length > 0 := by omega
  simp only [shimWriteContainerLogFile, if_pos hb0, hfill, hlen,
    if_neg (show ¬cacheSize = 0 by omega), hlines,
    if_pos (show cacheSize - cache.length > 0 by omega),
    if_pos (show cache.length + b.length - cacheSize > 0 by omega)]
  rw [Nat.add_sub_cancel' (Nat.le_of_lt hsize)]

lemma newline_not_mem_replicate (n : Nat) : newline ∉ List.replicate n (97 : Byte) := by
  simp [newline, List.mem_replicate]

/-! ## Conservation -/

/-- The scan splits its input into the lines and the rest. -/
lemma shimScan_flatten (line l : List Byte) :
    (shimScan line l).1.flatten ++ (shimScan line l).2 = line ++ l := by
  induction l generalizing line with
  | nil => simp [shimScan]
  | cons c rest ih =>
    by_cases hc : c = newline
    · rw [shimScan, if_pos hc, List.flatten_cons, List.append_assoc, ih []]
      simp [hc]
    · rw [shimScan, if_neg hc, ih (line ++ [c])]
      simp

/-- The payloads of a cache and what stays of it are the cache. -/
lemma shimLines_flatten (cacheSize : Nat) (cache : List Byte) :
    (shimLines cacheSize cache).1.flatten ++ (shimLines cacheSize cache).2 = cache := by
  have hscan := shimScan_flatten [] cache
  rw [List.nil_append] at hscan
  dsimp only [shimLines]
  split
  · simpa using hscan
  · split
    · exact hscan
    · -- no line was found, so the scan's rest is the whole cache
      rename_i hbegin
      have hlen := congrArg List.length hscan
      rw [List.length_append] at hlen
      have hnil : (shimScan [] cache).1.flatten = [] := List.eq_nil_of_length_eq_zero (by omega)
      simp [hnil]

/-- A call that starts with room in the cache keeps every byte: the payloads it writes and the
cache it leaves are the cache it found and the read. -/
theorem shimWriteContainerLogFile_conserves {cacheSize : Nat} {cache : List Byte}
    (hroom : cache.length < cacheSize) (b : List Byte) :
    (shimWriteContainerLogFile cacheSize cache (some b)).payloads.flatten ++
      (shimWriteContainerLogFile cacheSize cache (some b)).cache = cache ++ b := by
  by_cases hb0 : b.length > 0
  · -- `k` bytes of the read are copied in, the rest after the compaction
    set k := min (cache.length + b.length) cacheSize - cache.length with hk
    have hup : min (cache.length + b.length) cacheSize > cache.length := by omega
    have hfill : shimFill cacheSize cache b = (cache ++ b.take k, k, b.length - k) := by
      simp only [shimFill, if_pos hup, hk]
    have hne : (cache ++ b.take k).length ≠ 0 := by
      rw [List.length_append, List.length_take]
      omega
    have hlines := shimLines_flatten cacheSize (cache ++ b.take k)
    simp only [shimWriteContainerLogFile, if_pos hb0, hfill, if_neg hne]
    split
    · rw [← List.append_assoc, hlines, List.append_assoc, List.take_append_drop]
    · rename_i hleft
      rw [hlines, List.take_of_length_le (by omega)]
  · have hnil : b = [] := List.eq_nil_of_length_eq_zero (by omega)
    subst hnil
    simp only [shimWriteContainerLogFile, List.length_nil, Nat.lt_irrefl, gt_iff_lt, if_false,
      List.append_nil]
    split
    · rename_i hc
      simp [List.eq_nil_of_length_eq_zero hc]
    · exact shimLines_flatten cacheSize cache

/-! ## Two threads, one cache -/

/-- The streams of the io-copy threads that log. -/
inductive Stream
  | stdout
  | stderr
  deriving DecidableEq, Repr

/-- The `type` a thread passes: `ioc->id == stdid_out ? "stdout" : "stderr"`. -/
def Stream.type : Stream → List Char
  | .stdout => "stdout".toList
  | .stderr => "stderr".toList

/-- A record of the json-file log: `msg->stream` and `msg->log`. -/
structure LogRecord where
  stream : List Char
  log : List Byte
  deriving DecidableEq, Repr

/-- The static cache and the records written so far. -/
structure LogState where
  cache : List Byte
  records : List LogRecord
  deriving DecidableEq, Repr

/-- One call of `shim_write_container_log_file` by the thread of `stream` with what it read
(`task_io_copy` never makes the final call with `NULL`). -/
structure LogCall where
  stream : Stream
  read : List Byte
  deriving DecidableEq, Repr

/-- A call, whole: its payloads become records of its own stream. -/
def logStep (s : LogState) (c : LogCall) : LogState × Unit :=
  let w := shimWriteContainerLogFile bufCacheSize s.cache (some c.read)
  ({ cache := w.cache, records := s.records ++ w.payloads.map (⟨c.stream.type, ·⟩) }, ())

/-- The bytes of the records. -/
def LogState.logged (s : LogState) : List Byte := (s.records.map LogRecord.log).flatten

/-- A call that starts with room in the cache. -/
def HasRoom (s : LogState) (_ : LogCall) : Prop := s.cache.length < bufCacheSize

lemma logged_logStep_of_room {s : LogState} {c : LogCall} (h : HasRoom s c) :
    (logStep s c).1.logged ++ (logStep s c).1.cache = s.logged ++ s.cache ++ c.read := by
  have hflat : ((shimWriteContainerLogFile bufCacheSize s.cache (some c.read)).payloads.map
      (fun p => (⟨c.stream.type, p⟩ : LogRecord).log)).flatten =
      (shimWriteContainerLogFile bufCacheSize s.cache (some c.read)).payloads.flatten := by
    simp
  simp only [logStep, LogState.logged, List.map_append, List.map_map, Function.comp_def,
    List.flatten_append, hflat, List.append_assoc]
  rw [shimWriteContainerLogFile_conserves h c.read]

/-- Over any interleaving of the two threads' calls, each starting with room in the cache, the
records and the cache hold exactly the bytes read, in the order of the calls. -/
theorem run_logStep_conserves (s : LogState) {calls : List LogCall}
    (hroom : Simulation.Admits HasRoom logStep s calls) :
    (Simulation.run logStep s calls).1.logged ++ (Simulation.run logStep s calls).1.cache =
      s.logged ++ s.cache ++ (calls.map LogCall.read).flatten := by
  -- induction on the calls, the state moving with them
  induction calls generalizing s with
  | nil => simp
  | cons c cs ih =>
    rw [Simulation.run_cons, ih _ hroom.2, logged_logStep_of_room hroom.1]
    simp

/-- stdout's thread reads `ab`, then stderr's reads `c\n`: the log has one record, labelled
stderr, that holds stdout's bytes. -/
theorem shimLog_mislabels_stream :
    (Simulation.run logStep ⟨[], []⟩
        [⟨.stdout, [97, 98]⟩, ⟨.stderr, [99, newline]⟩]).1.records =
      [⟨"stderr".toList, [97, 98, 99, newline]⟩] := by
  decide

/-- Three reads into a cache of any size from `201` bytes: `100` bytes without a newline; a
full read with a newline first and another in its last `100` bytes; a full read. The second
call leaves the newline of its last `100` bytes in the cache, so the third finds its line
early, frees only `N - 100` bytes, and copies the `N - 1` bytes that did not fit up to offset
`N + 99`. -/
theorem shimWriteContainerLogFile_overflow (N : Nat) (hN : 201 ≤ N) :
    (shimWriteContainerLogFile N
        (shimWriteContainerLogFile N
            (shimWriteContainerLogFile N [] (some (List.replicate 100 97))).cache
            (some (newline :: List.replicate (N - 101) 97 ++ newline :: List.replicate 99 97))
          ).cache
        (some (List.replicate N 97))).writeEnd = N + 99 := by
  have hA := newline_not_mem_replicate
  -- the first read is only cached
  have h1 : (shimWriteContainerLogFile N [] (some (List.replicate 100 97))).cache =
      List.replicate 100 97 := by
    rw [shimWriteContainerLogFile_of_fits (by simpa using hA 100) (by simp) (by simp; omega),
      List.nil_append]
  -- the second keeps the bytes after its first newline and the `100` that did not fit
  have h2 : (shimWriteContainerLogFile N (List.replicate 100 97)
      (some (newline :: List.replicate (N - 101) 97 ++ newline :: List.replicate 99 97))).cache =
      List.replicate (N - 101) 97 ++ newline :: List.replicate 99 97 := by
    have hk : N - (List.replicate 100 (97 : Byte)).length = (N - 101) + 1 := by simp; omega
    rw [@shimWriteContainerLogFile_of_overfill _ _ _ (List.replicate 100 97)
        (List.replicate (N - 101) 97) (by simp; omega) (by simp; omega) ?_
        (hA 100) (hA (N - 101))]
    · rw [hk, List.drop_left' (by simp)]
    · rw [hk, List.take_left' (by simp)]
  -- the third finds the newline the second left, and copies `N - 1` bytes after `100`
  have hc : (List.replicate (N - 101) (97 : Byte) ++ newline :: List.replicate 99 97).length =
      N - 1 := by simp; omega
  rw [h1, h2, @shimWriteContainerLogFile_of_overfill _ _ _ (List.replicate (N - 101) 97)
      (List.replicate 99 97 ++ [97]) (by omega) (by rw [hc]; simp; omega) ?_
      (hA (N - 101)) (by simpa using hA 99)]
  · simp only [hc, List.length_append, List.length_replicate, List.length_singleton]
    omega
  · rw [hc, show N - (N - 1) = 1 by omega, List.take_replicate, Nat.min_eq_left (by omega)]
    simp

/-- With the shim's `BUF_CACHE_SIZE` and reads of `DEFAULT_IO_COPY_BUF` bytes, both 16 KiB: the
third call writes up to offset `16483` of the 16384-byte static cache. -/
theorem shimWriteContainerLogFile_writes_past_cache :
    (shimWriteContainerLogFile bufCacheSize
        (shimWriteContainerLogFile bufCacheSize
            (shimWriteContainerLogFile bufCacheSize [] (some (List.replicate 100 97))).cache
            (some (newline :: List.replicate 16283 97 ++ newline :: List.replicate 99 97))).cache
        (some (List.replicate 16384 97))).writeEnd = 16483 :=
  shimWriteContainerLogFile_overflow bufCacheSize (by decide)

end Shim

end Isulad
