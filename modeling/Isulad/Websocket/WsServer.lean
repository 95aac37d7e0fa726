import Isulad.Framework.Simulation
import Mathlib.Data.List.TakeWhile

/-!
# Streaming exec and attach over the websocket server (`ws_server.cc`)

Each session has one output buffer. `WsWriteToClient(wsi, data, len)`, which the console copy
calls with each chunk it reads, clears the buffer, writes the channel byte `STDOUTCHANNEL` and
the chunk after it, and asks for the session to become writable; the server thread's
`Wswrite` then sends the channel byte and `strlen` bytes after it, and clears the buffer.
`Receive` takes a frame from the client and writes all of it but its first byte into the
container's stdin pipe when that byte is `STDINCHANNEL`.

A session is a state machine over these three events. Output without a `NUL` byte goes out
chunk by chunk, each behind its channel byte (`run_chunks_of_no_nul`), and every non-empty
frame for stdin reaches the pipe (`run_frames_of_nonempty`). But `strlen` stops at the first
`NUL`: a chunk `h\0i` is sent as `h`, and a chunk that begins with `NUL` is not sent at all;
and an empty frame makes `Receive` read its channel byte from outside the frame and ask
`write` for `len - 1 = SIZE_MAX` bytes (`wsServer_cuts_output_at_nul`).
-/

namespace Isulad

namespace WsServer

open Simulation

/-- `STDINCHANNEL` and `STDOUTCHANNEL` of `enum WebsocketChannel`. -/
def stdinChannel : UInt8 := 0
def stdoutChannel : UInt8 := 1

/-- A session: the bytes of its buffer from `LWS_PRE` on, up to the zeros that fill the rest
(empty once cleared), the messages `lws_write` sent, what `Receive` wrote into the stdin pipe,
and whether it has read outside a frame. -/
structure Session where
  buf : List UInt8
  sent : List (List UInt8)
  pipe : List UInt8
  readOutside : Bool
  deriving DecidableEq, Repr

def init : Session := ⟨[], [], [], false⟩

/-- What may happen to a session. -/
inductive Event
  /-- `WsWriteToClient` with a chunk of output. -/
  | writeToClient (data : List UInt8)
  /-- `LWS_CALLBACK_SERVER_WRITEABLE`: `Wswrite`. -/
  | writable
  /-- `LWS_CALLBACK_RECEIVE` with a frame: `Receive`. -/
  | receive (frame : List UInt8)

/-- `WsWriteToClient`: `memset` the buffer, the channel byte, then the chunk. -/
def wsWriteToClient (s : Session) (data : List UInt8) : Session :=
  { s with buf := stdoutChannel :: data }

/-- `Wswrite`: the channel byte and the `strlen` bytes after it, then `memset`. -/
def wswrite (s : Session) : Session :=
  let body := (s.buf.drop 1).takeWhile (· ≠ 0)
  if body = [] then s
  else { s with buf := [], sent := s.sent ++ [s.buf.take 1 ++ body] }

/-- `Receive(wsi, user, in, len)`: an empty frame has no first byte, and `len - 1` wraps. -/
def receive (s : Session) (frame : List UInt8) : Session :=
  match frame with
  | [] => { s with readOutside := true }
  | c :: rest => if c = stdinChannel then { s with pipe := s.pipe ++ rest } else s

def step (s : Session) : Event → Session × Unit
  | .writeToClient data => (wsWriteToClient s data, ())
  | .writable => (wswrite s, ())
  | .receive frame => (receive s frame, ())

/-! ## Output and input that arrive whole -/

/-- The events of the console copying `chunks`, each sent before the next is read. -/
def chunkEvents (chunks : List (List UInt8)) : List Event :=
  chunks.flatMap fun d => [.writeToClient d, .writable]

lemma run_append (s : Session) (is js : List Event) :
    (run step s (is ++ js)).1 = (run step (run step s is).1 js).1 := by
  induction is generalizing s with
  | nil => rfl
  | cons i is ih => exact ih _

lemma wswrite_wsWriteToClient {s : Session} {d : List UInt8} (hne : d ≠ []) (hnul : 0 ∉ d) :
    wswrite (wsWriteToClient s d) =
      { s with buf := [], sent := s.sent ++ [stdoutChannel :: d] } := by
  have hbody : d.takeWhile (· ≠ 0) = d := by
    rw [List.takeWhile_eq_self_iff]
    intro x hx
    have hx0 : x ≠ 0 := fun h => hnul (h ▸ hx)
    simpa using hx0
  simp only [wswrite, wsWriteToClient, List.drop_succ_cons, List.drop_zero, hbody, hne,
    if_false, List.take_succ_cons, List.take_zero]
  rfl

/-- Chunks without `NUL` are sent one message each, in order, each behind its channel
byte. -/
theorem run_chunks_of_no_nul (s : Session) {chunks : List (List UInt8)}
    (hchunks : ∀ d ∈ chunks, d ≠ [] ∧ 0 ∉ d) :
    (run step s (chunkEvents chunks)).1.sent = s.sent ++ chunks.map (stdoutChannel :: ·) := by
  induction chunks generalizing s with
  | nil => simp [chunkEvents]
  | cons d ds ih =>
    obtain ⟨hne, hnul⟩ := hchunks d List.mem_cons_self
    have hrest := ih (s := { s with buf := [], sent := s.sent ++ [stdoutChannel :: d] })
      fun d' hd' => hchunks d' (List.mem_cons_of_mem _ hd')
    have hevents : chunkEvents (d :: ds) = [.writeToClient d, .writable] ++ chunkEvents ds := rfl
    rw [hevents, run_append]
    simp only [run, step, wswrite_wsWriteToClient hne hnul] at hrest ⊢
    rw [hrest]
    simp

/-- The events of the client sending `frames`. -/
def frameEvents (frames : List (List UInt8)) : List Event := frames.map .receive

/-- What the stdin pipe should receive from `frames`. -/
def stdinBytes (frames : List (List UInt8)) : List UInt8 :=
  (frames.filterMap fun f =>
    match f with
    | c :: rest => if c = stdinChannel then some rest else none
    | [] => none).flatten

attribute [local simp] stdinBytes in
lemma stdinBytes_cons (f : List UInt8) (fs : List (List UInt8)) :
    stdinBytes (f :: fs) = stdinBytes [f] ++ stdinBytes fs := by
  cases f with
  | nil => rfl
  | cons c rest => by_cases hc : c = stdinChannel <;> simp [stdinBytes, hc]

/-- One non-empty frame: the pipe gets what the frame holds for stdin, and nothing is read
outside it. -/
lemma receive_of_ne_nil (s : Session) {f : List UInt8} (hf : f ≠ []) :
    (receive s f).pipe = s.pipe ++ stdinBytes [f] ∧ (receive s f).readOutside = s.readOutside := by
  obtain ⟨c, rest, rfl⟩ := List.exists_cons_of_ne_nil hf
  by_cases hc : c = stdinChannel <;> simp [receive, stdinBytes, hc]

/-- Non-empty frames put exactly the stdin frames' bytes into the pipe, and nothing is read
outside a frame. -/
theorem run_frames_of_nonempty (s : Session) {frames : List (List UInt8)}
    (hframes : ∀ f ∈ frames, f ≠ []) :
    (run step s (frameEvents frames)).1.pipe = s.pipe ++ stdinBytes frames ∧
      (run step s (frameEvents frames)).1.readOutside = s.readOutside := by
  -- induction on the frames, one `Receive` each
  induction frames generalizing s with
  | nil => simp [frameEvents, stdinBytes]
  | cons f fs ih =>
    obtain ⟨hpipe, hout⟩ := receive_of_ne_nil s (hframes f List.mem_cons_self)
    obtain ⟨ihpipe, ihout⟩ :=
      ih (receive s f) fun f' hf' => hframes f' (List.mem_cons_of_mem _ hf')
    have hrun : (run step s (frameEvents (f :: fs))).1 =
        (run step (receive s f) (frameEvents fs)).1 := rfl
    rw [hrun, ihpipe, hpipe, ihout, hout, stdinBytes_cons f fs, List.append_assoc]
    exact ⟨rfl, rfl⟩

/-! ## What `strlen` and `len - 1` do -/

/-- A chunk `h\0i`, sent whole before anything else happens, goes out as `h`, and a chunk
`\0i` not at all; a chunk whose writable callback has not run when the next one is copied in
is lost; an empty frame is read outside. -/
theorem wsServer_cuts_output_at_nul :
    (run step init (chunkEvents [[104, 0, 105]])).1.sent = [[stdoutChannel, 104]] ∧
    (run step init (chunkEvents [[0, 105]])).1.sent = [] ∧
    (run step init [.writeToClient [104], .writeToClient [105], .writable]).1.sent =
      [[stdoutChannel, 105]] ∧
    (run step init (frameEvents [[]])).1.readOutside = true := by
  decide

end WsServer

end Isulad
