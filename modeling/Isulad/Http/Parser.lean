import Isulad.Framework.CString
import Isulad.Cutils.UtilsString

/-!
# The callbacks of `parse_http` (`parser.c`)

`parse_http(buf, len, m, type)` runs `http_parser_execute` with the callbacks of `g_settings`
over a message `m` that `rest_common.c` has `calloc`ed. `http_parser` is not part of this
repository: it is an oracle that hands the callbacks the pieces of the message in order, a
header name or value or the body possibly cut into several pieces. The model takes that order
as a list of events and runs the callbacks over it (`execute`), stopping at the first that
returns `-1`.

Every piece is appended with `strlncat`, which reads its source only up to the first `NUL`
(`strnlen`) and measures what the buffer holds the same way. The buffers therefore always hold
a string and zeros after it (`CString.padded`), and `strlncat_padded` says what one call does to
such a buffer.

* The body is grown by `parser_body_cb` into a fresh buffer of `body_size + len + 1` bytes. Its
  string is the chunks' strings one after the other, and `body_size` their whole length
  (`execute_bodyHolds`): without `NUL` bytes in the chunks `body[0..body_size)` is their
  concatenation (`parseHttp_body_of_no_nul`), but a `NUL` in a chunk cuts that chunk short,
  and the next chunk is written where the string ends, not at `body_size`.
* `parser_cb_header_field` counts the headers as the protocol delimits them (`Delivery`), and
  `parse_http` succeeds on a well-formed message with at most `MAX_HEADERS` headers
  (`parseHttp_ok`). Nothing bounds the count: the first piece of a fourteenth header is
  written to `headers[13]`, past the array (`parseHttp_many_headers`).
-/

namespace Isulad

namespace Http

open CString

/-- `MAX_HEADERS` and `MAX_ELEMENT_SIZE` of `parser.h`. -/
def maxHeaders : Nat := 13
def maxElementSize : Nat := 2048

/-- `strlncat(dststr, size, srcstr, nsize)`: the string of the first `nsize` bytes of `srcstr`
appended to the string in `dststr`, cut to fit `size` bytes with a `NUL`, and the length the
result would have had. -/
def strlncat (dststr : List UInt8) (size : Nat) (srcstr : List UInt8) (nsize : Nat) :
    List UInt8 × Nat :=
  let ssize := strnlen srcstr nsize
  let dsize := strnlen dststr size
  if dsize < size then
    let rsize := size - dsize
    let ncpy := if ssize < rsize then ssize else rsize - 1
    (memcpy (memcpy dststr dsize (srcstr.take ncpy)) (dsize + ncpy) [0], ssize + dsize)
  else (dststr, ssize + dsize)

/-- `last_header_element` of `struct parsed_http_message`. -/
inductive HeaderElement
  | none
  | field
  | value
  deriving DecidableEq, Repr

/-- The part of `struct parsed_http_message` the data callbacks write: the buffers of the
status and the URL, the body (`NULL` until the first chunk) and its size, and the headers,
each a name buffer and a value buffer. -/
structure ParsedHttpMessage where
  responseStatus : List UInt8
  requestUrl : List UInt8
  body : Option (List UInt8)
  bodySize : Nat
  numHeaders : Int
  lastHeaderElement : HeaderElement
  headers : List (List UInt8 × List UInt8)
  deriving DecidableEq, Repr

/-- How `parse_http` can end other than with the message filled in. -/
inductive Fault
  /-- A callback returned `-1`: `http_parser_execute` stops, and `parse_http` returns `-1`. -/
  | callbackFailed
  /-- `headers[i]` written with `i` outside `[0, MAX_HEADERS)`: a write outside the array. -/
  | headerOutOfBounds (i : Int)
  deriving DecidableEq, Repr

/-- `strlncat(m->headers[i][part], sizeof(m->headers[i][part]), buf, len)`, `part` `0` for the
name and `1` for the value. -/
def strlncatHeader (headers : List (List UInt8 × List UInt8)) (i : Int) (part : Fin 2)
    (buf : List UInt8) : Except Fault (List (List UInt8 × List UInt8)) :=
  if 0 ≤ i ∧ i < maxHeaders then
    .ok (headers.modify i.toNat fun slot =>
      if part = 0 then ((strlncat slot.1 maxElementSize buf buf.length).1, slot.2)
      else (slot.1, (strlncat slot.2 maxElementSize buf buf.length).1))
  else .error (.headerOutOfBounds i)

/-- `parser_response_status_cb`. -/
def parserResponseStatusCb (m : ParsedHttpMessage) (buf : List UInt8) : ParsedHttpMessage :=
  { m with responseStatus := (strlncat m.responseStatus maxElementSize buf buf.length).1 }

/-- `parser_cb_request_url`. -/
def parserCbRequestUrl (m : ParsedHttpMessage) (buf : List UInt8) : ParsedHttpMessage :=
  { m with requestUrl := (strlncat m.requestUrl maxElementSize buf buf.length).1 }

/-- `parser_cb_header_field`: a name piece after anything but a name piece begins a header. -/
def parserCbHeaderField (m : ParsedHttpMessage) (buf : List UInt8) :
    Except Fault ParsedHttpMessage :=
  let numHeaders := if m.lastHeaderElement ≠ .field then m.numHeaders + 1 else m.numHeaders
  match strlncatHeader m.headers (numHeaders - 1) 0 buf with
  | .ok headers => .ok { m with numHeaders, headers, lastHeaderElement := .field }
  | .error e => .error e

/-- `parser_cb_header_value`. -/
def parserCbHeaderValue (m : ParsedHttpMessage) (buf : List UInt8) :
    Except Fault ParsedHttpMessage :=
  match strlncatHeader m.headers (m.numHeaders - 1) 1 buf with
  | .ok headers => .ok { m with headers, lastHeaderElement := .value }
  | .error e => .error e

/-- `parser_body_cb`: a buffer of `body_size + len + 1` zeros, the old `body_size` bytes copied
into it, and the chunk appended with `strlncat`. -/
def parserBodyCb (m : ParsedHttpMessage) (buf : List UInt8) : Except Fault ParsedHttpMessage :=
  let len := buf.length
  if m.bodySize > (Cutils.sizeMax - len) - 1 then .error .callbackFailed
  else
    let newsize := m.bodySize + len + 1
    let body : List UInt8 :=
      match m.body with
      | some old => if m.bodySize > 0 then memcpy (calloc newsize) 0 (old.take m.bodySize)
                    else calloc newsize
      | none => calloc newsize
    .ok { m with body := some (strlncat body newsize buf len).1, bodySize := m.bodySize + len }

/-- The data callbacks `http_parser` makes, each with the piece it hands over. -/
inductive Event
  | status (buf : List UInt8)
  | url (buf : List UInt8)
  | headerField (buf : List UInt8)
  | headerValue (buf : List UInt8)
  | body (buf : List UInt8)
  deriving DecidableEq, Repr

/-- The callback of `g_settings` for each event. -/
def callback (m : ParsedHttpMessage) : Event → Except Fault ParsedHttpMessage
  | .status buf => .ok (parserResponseStatusCb m buf)
  | .url buf => .ok (parserCbRequestUrl m buf)
  | .headerField buf => parserCbHeaderField m buf
  | .headerValue buf => parserCbHeaderValue m buf
  | .body buf => parserBodyCb m buf

/-- `http_parser_execute` with `g_settings`: the callbacks in order, up to the first that
fails. -/
def execute (m : ParsedHttpMessage) : List Event → Except Fault ParsedHttpMessage
  | [] => .ok m
  | e :: es =>
    match callback m e with
    | .ok m' => execute m' es
    | .error f => .error f

/-- The message `rest_common.c` passes in: `calloc`ed, so every buffer is zero. -/
def initMessage : ParsedHttpMessage where
  responseStatus := calloc maxElementSize
  requestUrl := calloc maxElementSize
  body := none
  bodySize := 0
  numHeaders := 0
  lastHeaderElement := .none
  headers := List.replicate maxHeaders (calloc maxElementSize, calloc maxElementSize)

/-- `parse_http` over the events of the message. -/
def parseHttp (events : List Event) : Except Fault ParsedHttpMessage :=
  execute initMessage events

/-! ## What the protocol delivers -/

/-- What the events so far deliver, in the protocol's terms: the body chunks, the number of
headers begun (a name piece after anything but a name piece begins one), and the kind of the
last header piece. -/
structure Delivery where
  chunks : List (List UInt8)
  headers : Nat
  last : HeaderElement
  deriving DecidableEq, Repr

/-- Nothing delivered yet. -/
def Delivery.init : Delivery := ⟨[], 0, .none⟩

/-- One more event. -/
def Delivery.step (d : Delivery) : Event → Delivery
  | .headerField _ => { d with headers := if d.last = .field then d.headers else d.headers + 1,
                               last := .field }
  | .headerValue _ => { d with last := .value }
  | .body buf => { d with chunks := d.chunks ++ [buf] }
  | _ => d

/-- The protocol's order: a value piece comes after a name piece. -/
def Delivery.Admits (d : Delivery) : Event → Prop
  | .headerValue _ => d.last ≠ .none
  | _ => True

/-- The events of a message, all in the protocol's order. -/
def Delivery.Conforms (d : Delivery) : List Event → Prop
  | [] => True
  | e :: es => d.Admits e ∧ (d.step e).Conforms es

instance Delivery.decAdmits (d : Delivery) : (e : Event) → Decidable (d.Admits e)
  | .headerValue _ => inferInstanceAs (Decidable (d.last ≠ .none))
  | .status _ | .url _ | .headerField _ | .body _ => inferInstanceAs (Decidable True)

instance Delivery.decConforms : (d : Delivery) → (es : List Event) → Decidable (d.Conforms es)
  | _, [] => inferInstanceAs (Decidable True)
  | d, e :: es =>
    have := Delivery.decConforms (d.step e) es
    inferInstanceAs (Decidable (d.Admits e ∧ (d.step e).Conforms es))

/-- What the events deliver from `d`. -/
def Delivery.run (d : Delivery) (es : List Event) : Delivery := es.foldl Delivery.step d

@[simp] lemma Delivery.run_nil (d : Delivery) : d.run [] = d := rfl

@[simp] lemma Delivery.run_cons (d : Delivery) (e : Event) (es : List Event) :
    d.run (e :: es) = (d.step e).run es := rfl

/-- A header is under way whenever a header piece has come. -/
def Delivery.Sane (d : Delivery) : Prop := d.last ≠ .none → 1 ≤ d.headers

attribute [local simp] Delivery.step in
lemma Delivery.sane_step {d : Delivery} (hd : d.Sane) {e : Event} (he : d.Admits e) :
    (d.step e).Sane := by
  cases e with
  | headerField buf =>
    intro _
    by_cases hl : d.last = .field
    · simpa [Delivery.step, hl] using hd (by simp [hl])
    · simp [Delivery.step, hl]
  | headerValue buf => intro _; exact hd he
  | status buf | url buf | body buf => exact hd

/-- Headers are only ever begun. -/
lemma Delivery.headers_le_step (d : Delivery) (e : Event) : d.headers ≤ (d.step e).headers := by
  cases e with
  | headerField buf => simp only [Delivery.step]; split_ifs <;> omega
  | _ => exact le_refl _

lemma Delivery.headers_le_run (d : Delivery) (es : List Event) : d.headers ≤ (d.run es).headers := by
  induction es generalizing d with
  | nil => exact le_refl _
  | cons e es ih => exact (d.headers_le_step e).trans (ih _)

/-- The body chunk an event hands over, if it is one. -/
def Event.bodyChunks : Event → List (List UInt8)
  | .body buf => [buf]
  | _ => []

attribute [local simp] Event.bodyChunks in
lemma Delivery.chunks_step (d : Delivery) (e : Event) :
    (d.step e).chunks = d.chunks ++ e.bodyChunks := by
  cases e <;> simp [Delivery.step, Event.bodyChunks]

lemma Delivery.chunks_run (d : Delivery) (es : List Event) :
    (d.run es).chunks = d.chunks ++ es.flatMap Event.bodyChunks := by
  induction es generalizing d with
  | nil => simp
  | cons e es ih => simp [ih, Delivery.chunks_step]

/-- The whole length of the body chunks. -/
def Delivery.bodyLength (d : Delivery) : Nat := (d.chunks.map List.length).sum

attribute [local simp] Delivery.bodyLength in
lemma Delivery.bodyLength_le_run (d : Delivery) (es : List Event) :
    d.bodyLength ≤ (d.run es).bodyLength := by
  simp [Delivery.bodyLength, Delivery.chunks_run]

/-! ## `strlncat` on a buffer that holds a string -/

lemma strnlen_eq_length_cstr (src : List UInt8) (nsize : Nat) :
    strnlen src nsize = (cstr (src.take nsize)).length := rfl

/-- `strlncat` on a buffer holding `v` appends the string of the source, cut so that the
buffer keeps its last `NUL`. -/
theorem strlncat_padded {v : List UInt8} (hv0 : (0 : UInt8) ∉ v) {size : Nat}
    (hv : v.length < size) (src : List UInt8) (nsize : Nat) :
    strlncat (padded v size) size src nsize =
      (padded (v ++ (cstr (src.take nsize)).take (size - 1 - v.length)) size,
        (cstr (src.take nsize)).length + v.length) := by
  have hdsize : strnlen (padded v size) size = v.length := strnlen_padded hv0 hv.le
  set w := cstr (src.take nsize) with hw
  have hwlen : w.length ≤ nsize := (length_cstr_le _).trans (List.length_take_le _ _)
  -- the bytes copied: the first `ncpy` of the source, which lie inside its string
  have hcopy : ∀ ncpy, ncpy ≤ w.length → src.take ncpy = w.take ncpy := by
    intro ncpy hn
    rw [← take_eq_take_cstr hn, List.take_take, Nat.min_eq_left (hn.trans hwlen)]
  -- the copy and the `NUL` after it are one write, right after the string
  have hfit : ∀ ncpy, ncpy ≤ w.length → ncpy ≤ size - 1 - v.length →
      memcpy (memcpy (padded v size) v.length (w.take ncpy)) (v.length + ncpy) [0] =
        padded (v ++ w.take ncpy) size := by
    intro ncpy hn hs
    have hlen : (w.take ncpy).length = ncpy := by rw [List.length_take]; omega
    have hwrite := @memcpy_memcpy UInt8 (padded v size) (w.take ncpy) [0] v.length
      (by rw [length_padded hv.le, hlen]; omega)
    rw [hlen] at hwrite
    rw [hwrite, memcpy_padded (by omega)]
  simp only [strlncat, hdsize, if_pos hv, strnlen_eq_length_cstr, ← hw]
  split_ifs with hs
  · have hall : w.take (size - 1 - v.length) = w := List.take_of_length_le (by omega)
    rw [hcopy _ le_rfl, hfit _ le_rfl (by omega), hall, List.take_length]
  · rw [hcopy _ (by omega), hfit _ (by omega) (by omega),
      show size - v.length - 1 = size - 1 - v.length by omega]

/-! ## The body -/

/-- The string the body buffer holds: the strings of the chunks, one after the other. -/
def bodyString (chunks : List (List UInt8)) : List UInt8 := chunks.flatMap cstr

attribute [local simp] bodyString in
lemma zero_not_mem_bodyString (chunks : List (List UInt8)) : (0 : UInt8) ∉ bodyString chunks := by
  simp only [bodyString, List.mem_flatMap, not_exists, not_and]
  exact fun c _ => zero_not_mem_cstr c

lemma length_bodyString_le (chunks : List (List UInt8)) :
    (bodyString chunks).length ≤ (chunks.map List.length).sum := by
  induction chunks with
  | nil => simp [bodyString]
  | cons c cs ih =>
    simp only [bodyString, List.flatMap_cons, List.length_append, List.map_cons,
      List.sum_cons] at ih ⊢
    have := length_cstr_le c
    omega

@[simp] lemma bodyString_append (cs : List (List UInt8)) (c : List UInt8) :
    bodyString (cs ++ [c]) = bodyString cs ++ cstr c := by
  simp [bodyString]

/-- The body of `m` after the chunks `cs`: `body_size` is their whole length, and the buffer,
`NULL` before the first chunk, holds `bodyString cs` in `body_size + 1` bytes. -/
def BodyHolds (m : ParsedHttpMessage) (cs : List (List UInt8)) : Prop :=
  m.bodySize = (cs.map List.length).sum ∧
    (m.body = none ∧ cs = [] ∨ m.body = some (padded (bodyString cs) (m.bodySize + 1)))

/-- Before the copy, `parser_body_cb`'s fresh buffer already holds the body's string. -/
lemma body_buffer_padded {m : ParsedHttpMessage} {cs : List (List UInt8)} (hm : BodyHolds m cs)
    (newsize : Nat) (hn : m.bodySize < newsize) :
    (match m.body with
      | some old => if m.bodySize > 0 then memcpy (calloc newsize) 0 (old.take m.bodySize)
                    else calloc newsize
      | none => calloc newsize) = padded (bodyString cs) newsize := by
  obtain ⟨hsize, hbody⟩ := hm
  have hle : (bodyString cs).length ≤ m.bodySize := hsize ▸ length_bodyString_le cs
  rcases hbody with ⟨hnone, rfl⟩ | hsome
  · simp [hnone, bodyString]
  · rw [hsome]
    dsimp only
    by_cases hpos : m.bodySize > 0
    · rw [if_pos hpos, take_padded hle (by omega), memcpy_calloc_padded hle hn.le]
    · have hnil : bodyString cs = [] := List.eq_nil_of_length_eq_zero (by omega)
      rw [if_neg hpos, hnil, padded_nil]

attribute [local simp] parserBodyCb in
/-- A chunk that passes the size check is appended: its string after the body's, its length
added to `body_size`. -/
theorem parserBodyCb_eq {m : ParsedHttpMessage} {cs : List (List UInt8)} (hm : BodyHolds m cs)
    {buf : List UInt8} (hfit : m.bodySize ≤ Cutils.sizeMax - buf.length - 1) :
    parserBodyCb m buf =
      .ok { m with body := some (padded (bodyString (cs ++ [buf])) (m.bodySize + buf.length + 1)),
                   bodySize := m.bodySize + buf.length } := by
  have hle : (bodyString cs).length ≤ m.bodySize := hm.1 ▸ length_bodyString_le cs
  have hcstr : (cstr buf).length ≤ buf.length := length_cstr_le buf
  simp only [parserBodyCb]
  rw [if_neg (by omega), body_buffer_padded hm _ (by omega),
    strlncat_padded (zero_not_mem_bodyString cs) (by omega), List.take_of_length_le le_rfl,
    List.take_of_length_le (by omega), bodyString_append]

lemma bodyHolds_append {m : ParsedHttpMessage} {cs : List (List UInt8)} (hm : BodyHolds m cs)
    (buf : List UInt8) :
    BodyHolds { m with body := some (padded (bodyString (cs ++ [buf])) (m.bodySize + buf.length + 1)),
                       bodySize := m.bodySize + buf.length } (cs ++ [buf]) := by
  refine ⟨?_, .inr rfl⟩
  simp [hm.1]

/-! ## The headers -/

attribute [local simp] strlncatHeader in
lemma strlncatHeader_of_lt (headers : List (List UInt8 × List UInt8)) {i : Int} (h0 : 0 ≤ i)
    (hi : i < maxHeaders) (part : Fin 2) (buf : List UInt8) :
    ∃ headers', strlncatHeader headers i part buf = .ok headers' := by
  simp only [strlncatHeader, if_pos (And.intro h0 hi)]
  exact ⟨_, rfl⟩

lemma strlncatHeader_of_le {headers : List (List UInt8 × List UInt8)} {i : Int}
    (hi : maxHeaders ≤ i) (part : Fin 2) (buf : List UInt8) :
    strlncatHeader headers i part buf = .error (.headerOutOfBounds i) := by
  simp only [strlncatHeader]
  rw [if_neg (by omega)]

attribute [local simp] parserCbHeaderField in
/-- `parser_cb_header_field` once its write is in bounds. -/
lemma parserCbHeaderField_eq {m : ParsedHttpMessage} {buf : List UInt8}
    {headers' : List (List UInt8 × List UInt8)}
    (hh : strlncatHeader m.headers
      ((if m.lastHeaderElement ≠ .field then m.numHeaders + 1 else m.numHeaders) - 1) 0 buf =
        .ok headers') :
    parserCbHeaderField m buf =
      .ok { m with numHeaders := if m.lastHeaderElement ≠ .field then m.numHeaders + 1
                                 else m.numHeaders,
                   headers := headers', lastHeaderElement := .field } := by
  simp only [parserCbHeaderField, hh]

attribute [local simp] parserCbHeaderValue in
/-- `parser_cb_header_value` once its write is in bounds. -/
lemma parserCbHeaderValue_eq {m : ParsedHttpMessage} {buf : List UInt8}
    {headers' : List (List UInt8 × List UInt8)}
    (hh : strlncatHeader m.headers (m.numHeaders - 1) 1 buf = .ok headers') :
    parserCbHeaderValue m buf = .ok { m with headers := headers', lastHeaderElement := .value } := by
  simp only [parserCbHeaderValue, hh]

/-! ## Runs -/

/-- The state of the message after the events so far: what they delivered, read off the
fields `parse_http` keeps. -/
def Tracks (m : ParsedHttpMessage) (d : Delivery) : Prop :=
  BodyHolds m d.chunks ∧ m.numHeaders = d.headers ∧ m.lastHeaderElement = d.last

lemma tracks_init : Tracks initMessage Delivery.init := ⟨⟨rfl, .inl ⟨rfl, rfl⟩⟩, rfl, rfl⟩

/-- What an event the protocol admits does to a tracked message: it fails only for a body chunk
past `SIZE_MAX` or the first piece of a fourteenth header, and otherwise keeps the message in
step with what was delivered. -/
theorem callback_tracks {m : ParsedHttpMessage} {d : Delivery} (hm : Tracks m d) (hd : d.Sane)
    {e : Event} (he : d.Admits e) (hfit : (d.step e).bodyLength < Cutils.sizeMax)
    (hcount : (d.step e).headers ≤ maxHeaders) :
    ∃ m', callback m e = .ok m' ∧ Tracks m' (d.step e) := by
  obtain ⟨hbody, hnum, hlast⟩ := hm
  cases e with
  | status buf => exact ⟨_, rfl, hbody, hnum, hlast⟩
  | url buf => exact ⟨_, rfl, hbody, hnum, hlast⟩
  | body buf =>
    have hlen : m.bodySize ≤ Cutils.sizeMax - buf.length - 1 := by
      have : m.bodySize + buf.length < Cutils.sizeMax := by
        simpa [Delivery.step, Delivery.bodyLength, hbody.1] using hfit
      omega
    exact ⟨_, parserBodyCb_eq hbody hlen, bodyHolds_append hbody buf, hnum, hlast⟩
  | headerField buf =>
    simp only [Delivery.step] at hcount
    -- the index written is the count of headers begun, less one
    have hidx : 0 ≤ (if m.lastHeaderElement ≠ .field then m.numHeaders + 1 else m.numHeaders) - 1 ∧
        (if m.lastHeaderElement ≠ .field then m.numHeaders + 1 else m.numHeaders) - 1 <
          maxHeaders := by
      by_cases hl : d.last = .field
      · have := hd (by simp [hl])
        simp only [hlast, hl, ne_eq, not_true_eq_false, if_false, if_true, hnum,
          maxHeaders] at hcount ⊢
        omega
      · simp only [hlast, hl, ne_eq, not_false_eq_true, if_true, hnum, if_false,
          maxHeaders] at hcount ⊢
        omega
    obtain ⟨headers', hh⟩ := strlncatHeader_of_lt m.headers hidx.1 hidx.2 0 buf
    refine ⟨_, parserCbHeaderField_eq hh, hbody, ?_, rfl⟩
    by_cases hl : d.last = .field <;> simp [Delivery.step, hlast, hl, hnum]
  | headerValue buf =>
    have hpos := hd he
    have hle : d.headers ≤ maxHeaders := hcount
    obtain ⟨headers', hh⟩ := strlncatHeader_of_lt m.headers (i := m.numHeaders - 1)
      (by omega) (by simp only [maxHeaders] at hle ⊢; omega) 1 buf
    exact ⟨_, parserCbHeaderValue_eq hh, hbody, hnum, rfl⟩

attribute [local simp] execute in
/-- A well-formed message with at most `MAX_HEADERS` headers and a body below `SIZE_MAX` runs
to its end, and the message then holds what was delivered. -/
theorem execute_tracks {m : ParsedHttpMessage} {d : Delivery} (hm : Tracks m d) (hd : d.Sane)
    {es : List Event} (hconf : d.Conforms es) (hfit : (d.run es).bodyLength < Cutils.sizeMax)
    (hcount : (d.run es).headers ≤ maxHeaders) :
    ∃ m', execute m es = .ok m' ∧ Tracks m' (d.run es) := by
  induction es generalizing m d with
  | nil => exact ⟨m, rfl, hm⟩
  | cons e es ih =>
    have hfit1 : (d.step e).bodyLength < Cutils.sizeMax :=
      lt_of_le_of_lt ((d.step e).bodyLength_le_run es) hfit
    have hcount1 : (d.step e).headers ≤ maxHeaders :=
      ((d.step e).headers_le_run es).trans hcount
    obtain ⟨m', hcb, hm'⟩ := callback_tracks hm hd hconf.1 hfit1 hcount1
    obtain ⟨m'', hrun, hm''⟩ := ih hm' (Delivery.sane_step hd hconf.1) hconf.2 hfit hcount
    exact ⟨m'', by simp only [execute, hcb, hrun], hm''⟩

attribute [local simp] callback in
/-- The first piece of a header past the `MAX_HEADERS`-th is written outside `headers`,
after every event before it has run. -/
theorem execute_many_headers {m : ParsedHttpMessage} {d : Delivery} (hm : Tracks m d)
    (hd : d.Sane) {es : List Event} (hconf : d.Conforms es)
    (hfit : (d.run es).bodyLength < Cutils.sizeMax) (hle : d.headers ≤ maxHeaders)
    (hmany : maxHeaders < (d.run es).headers) :
    execute m es = .error (.headerOutOfBounds maxHeaders) := by
  induction es generalizing m d with
  | nil => simp at hmany; omega
  | cons e es ih =>
    by_cases hstep : (d.step e).headers ≤ maxHeaders
    · have hfit1 : (d.step e).bodyLength < Cutils.sizeMax :=
        lt_of_le_of_lt ((d.step e).bodyLength_le_run es) hfit
      obtain ⟨m', hcb, hm'⟩ := callback_tracks hm hd hconf.1 hfit1 hstep
      rw [execute, hcb]
      exact ih hm' (Delivery.sane_step hd hconf.1) hconf.2 hfit hstep hmany
    · -- the event begins the fourteenth header: a name piece after a value, at index 13
      cases e with
      | headerField buf =>
        have hl : d.last ≠ .field := fun hl => hstep (by simpa [Delivery.step, hl] using hle)
        have h13 : d.headers = maxHeaders := by
          simp only [Delivery.step, hl, if_false] at hstep
          omega
        have hidx : (if m.lastHeaderElement ≠ .field then m.numHeaders + 1 else m.numHeaders) - 1 =
            (maxHeaders : Int) := by
          simp [hm.2.2, hl, hm.2.1, h13]
        simp only [execute, callback, parserCbHeaderField, hidx,
          strlncatHeader_of_le (le_refl _)]
      | _ => exact absurd hle (by simpa [Delivery.step] using hstep)

/-- What a callback that returns does to the body: a body chunk is appended, anything else
leaves it. -/
lemma callback_bodyHolds {m m' : ParsedHttpMessage} {cs : List (List UInt8)} (hm : BodyHolds m cs)
    {e : Event} (he : callback m e = .ok m') : BodyHolds m' (cs ++ e.bodyChunks) := by
  cases e with
  | status buf | url buf =>
    cases he
    simp only [Event.bodyChunks, List.append_nil]
    exact ⟨hm.1, hm.2⟩
  | headerField buf =>
    simp only [callback, parserCbHeaderField] at he
    split at he <;> cases he
    simp only [Event.bodyChunks, List.append_nil]
    exact ⟨hm.1, hm.2⟩
  | headerValue buf =>
    simp only [callback, parserCbHeaderValue] at he
    split at he <;> cases he
    simp only [Event.bodyChunks, List.append_nil]
    exact ⟨hm.1, hm.2⟩
  | body buf =>
    by_cases hfit : m.bodySize ≤ Cutils.sizeMax - buf.length - 1
    · rw [callback, parserBodyCb_eq hm hfit] at he
      cases he
      exact bodyHolds_append hm buf
    · simp only [callback, parserBodyCb] at he
      rw [if_pos (by omega)] at he
      cases he

/-- `body_size` and the body buffer after any run of the callbacks that returns: the chunks'
strings one after the other, whatever `NUL` bytes the chunks hold. -/
theorem execute_bodyHolds {m m' : ParsedHttpMessage} {cs : List (List UInt8)} (hm : BodyHolds m cs)
    {es : List Event} (hrun : execute m es = .ok m') :
    BodyHolds m' (cs ++ es.flatMap Event.bodyChunks) := by
  induction es generalizing m cs with
  | nil =>
    simp only [execute, Except.ok.injEq] at hrun
    subst hrun
    simpa using hm
  | cons e es ih =>
    simp only [execute] at hrun
    split at hrun
    · rename_i m₁ he
      simpa using ih (callback_bodyHolds hm he) hrun
    · cases hrun

/-- The first `body_size` bytes of a body that holds the chunks `cs`: their strings, then
zeros. -/
lemma take_body_of_bodyHolds {m : ParsedHttpMessage} {cs : List (List UInt8)} (hm : BodyHolds m cs) :
    (m.body.getD []).take m.bodySize =
      bodyString cs ++ List.replicate (m.bodySize - (bodyString cs).length) 0 := by
  have hle : (bodyString cs).length ≤ m.bodySize := hm.1 ▸ length_bodyString_le cs
  rcases hm.2 with ⟨hnone, rfl⟩ | hsome
  · simp [hnone, bodyString, hm.1]
  · rw [hsome, Option.getD_some, take_padded hle (by omega), padded]

/-! ## `parse_http` -/

/-- Every run of `parse_http` that returns leaves in `body` the chunks' strings and in
`body_size` their whole length. -/
theorem parseHttp_bodyHolds {es : List Event} {m : ParsedHttpMessage} (h : parseHttp es = .ok m) :
    BodyHolds m (es.flatMap Event.bodyChunks) := by
  simpa [Delivery.init] using execute_bodyHolds tracks_init.1 h

/-- Without `NUL` bytes in the chunks, `body[0..body_size)` is the body as delivered. -/
theorem parseHttp_body_of_no_nul {es : List Event} {m : ParsedHttpMessage}
    (h : parseHttp es = .ok m) (hnul : ∀ c ∈ es.flatMap Event.bodyChunks, (0 : UInt8) ∉ c) :
    (m.body.getD []).take m.bodySize = (es.flatMap Event.bodyChunks).flatten := by
  have hm := parseHttp_bodyHolds h
  have hstr : bodyString (es.flatMap Event.bodyChunks) = (es.flatMap Event.bodyChunks).flatten := by
    rw [bodyString, List.flatten_eq_flatMap]
    exact List.flatMap_congr fun c hc => cstr_of_not_mem (hnul c hc)
  rw [take_body_of_bodyHolds hm, hstr, hm.1, List.length_flatten, Nat.sub_self, List.replicate_zero,
    List.append_nil]

/-- A message in the protocol's order, with at most `MAX_HEADERS` headers and a body below
`SIZE_MAX`, is parsed to its end, and the message holds what was delivered. -/
theorem parseHttp_ok {es : List Event} (hconf : Delivery.init.Conforms es)
    (hfit : (Delivery.init.run es).bodyLength < Cutils.sizeMax)
    (hcount : (Delivery.init.run es).headers ≤ maxHeaders) :
    ∃ m, parseHttp es = .ok m ∧ Tracks m (Delivery.init.run es) :=
  execute_tracks tracks_init (fun h => absurd rfl h) hconf hfit hcount

/-- A message in the protocol's order with more than `MAX_HEADERS` headers has the first piece
of its fourteenth header written to `headers[13]`, past the array. -/
theorem parseHttp_many_headers {es : List Event} (hconf : Delivery.init.Conforms es)
    (hfit : (Delivery.init.run es).bodyLength < Cutils.sizeMax)
    (hmany : maxHeaders < (Delivery.init.run es).headers) :
    parseHttp es = .error (.headerOutOfBounds maxHeaders) :=
  execute_many_headers tracks_init (fun h => absurd rfl h) hconf hfit (Nat.zero_le _) hmany

/-- Fourteen headers `x: y`, each name and value in one piece. -/
def fourteenHeaders : List Event :=
  (List.replicate 14 [.headerField [120], .headerValue [121]]).flatten

/-- `parse_http` on a body `a\0b` in one chunk keeps `a\0\0`, and in the chunks `a\0` and `b`
gives `ab\0`; on fourteen headers it writes `headers[13]`. -/
theorem parseHttp_truncates_body_and_overruns_headers :
    (∃ m, parseHttp [.body [97, 0, 98]] = .ok m ∧ (m.body.getD []).take m.bodySize = [97, 0, 0]) ∧
    (∃ m, parseHttp [.body [97, 0], .body [98]] = .ok m ∧
      (m.body.getD []).take m.bodySize = [97, 98, 0]) ∧
    parseHttp fourteenHeaders = .error (.headerOutOfBounds 13) :=
  ⟨⟨_, rfl, by decide⟩, ⟨_, rfl, by decide⟩,
    parseHttp_many_headers (by decide) (by decide) (by decide)⟩

end Http

end Isulad
