import Isulad.Framework.Simulation
import Mathlib

/-!
# The shared `libhttpclient` operations of the REST client (`rest_common.c`)

The plugin manager's requests go through `rest_send_requst`, then `get_response`. Both reach
`libhttpclient.so` through one process-wide struct, `g_hc_ops`: `init_http_client_opt` fills it
with `dlopen` and `dlsym` when its handle is `NULL`, and `free_httpclient_ops`, which every
`get_response` and every failed request ends with, passes the handle to `dlclose` and zeroes
the struct, until `g_ops_status` has counted `MAX_KEEP_OPS_CNT` successful loads. Nothing
locks the struct, and plugin requests run in several threads at once.

The model is a machine of threads, each at one point of the two functions, over the process:
a step is one thread's next access to `g_hc_ops` (its check, a call through one of its
pointers, `ops_init` or `free_httpclient_ops`), taken whole. A pointer of `g_hc_ops` is the
library instance it points into, and a step's output is the call it made.

* `g_hc_ops` is always either zeroed or wholly the one loaded instance
  (`consistent_reachable`), so a call never reaches an instance passed to `dlclose`
  (`call_target_loaded`).
* After the third load nothing is unloaded again: every later call, in every interleaving,
  goes into that instance (`kept_calls`).
* With one request at a time, every call goes through a set pointer, and a response is parsed
  by the instance that produced it (`oneAtATime_call_safe`).
* Two requests that overlap do neither: one thread's `get_response` zeroes the struct while
  another is between `init_http_client_opt` and its next call, and a request can be parsed by
  an instance loaded after the one that answered it (`restSendRequst_race`).
-/

namespace Isulad

namespace RestCommon

open Simulation

/-! ## The process and `g_hc_ops` -/

/-- `MAX_KEEP_OPS_CNT`. -/
def maxKeepOpsCnt : Nat := 3

/-- `struct httpclient_ops`: the handle and the six function pointers, each the instance of
`libhttpclient.so` it points into; `none` is `NULL`. -/
structure HttpclientOps where
  handle : Option Nat
  parseHttpOp : Option Nat
  httpRequestOp : Option Nat
  freeHttpGetOptionsOp : Option Nat
  bufferStrlenOp : Option Nat
  bufferAllocOp : Option Nat
  bufferFreeOp : Option Nat
  deriving DecidableEq, Repr

/-- The struct after `memset(ops, 0, sizeof(struct httpclient_ops))`. -/
def HttpclientOps.zero : HttpclientOps := ⟨none, none, none, none, none, none, none⟩

/-- The struct `ops_init` fills from instance `i`: the handle and every symbol `dlsym` finds
in it. -/
def HttpclientOps.of (i : Nat) : HttpclientOps :=
  ⟨some i, some i, some i, some i, some i, some i, some i⟩

/-- The process: `g_hc_ops`, `g_ops_status`, the loaded instance of the library with the count
of its handles, and the instance the next fresh `dlopen` maps. -/
structure Process where
  gHcOps : HttpclientOps
  gOpsStatus : Nat
  loaded : Option (Nat × Nat)
  nextInstance : Nat
  deriving DecidableEq, Repr

/-- `dlopen("libhttpclient.so", RTLD_LAZY)`: the loaded instance with one more handle, or a
fresh instance. -/
def dlopen (p : Process) : Nat × Process :=
  match p.loaded with
  | some (i, count) => (i, { p with loaded := some (i, count + 1) })
  | none => (p.nextInstance,
      { p with loaded := some (p.nextInstance, 1), nextInstance := p.nextInstance + 1 })

/-- `dlclose(handle)`: one handle fewer, and the instance unloaded with its last one. -/
def dlclose (handle : Nat) (p : Process) : Process :=
  match p.loaded with
  | some (i, count) =>
    if i = handle then { p with loaded := if count ≤ 1 then none else some (i, count - 1) }
    else p
  | none => p

/-- `free_httpclient_ops(&g_hc_ops)`. -/
def freeHttpclientOps (p : Process) : Process :=
  match p.gHcOps.handle with
  | none => p
  | some handle =>
    if p.gOpsStatus = maxKeepOpsCnt then p
    else { dlclose handle p with gHcOps := .zero }

/-- `ops_init(&g_hc_ops)`, with a library that has all six symbols: `dlopen` succeeds or not as
`dlopenSucceeds` says; a load counts in `g_ops_status`, up to `MAX_KEEP_OPS_CNT`. -/
def opsInit (p : Process) (dlopenSucceeds : Bool) : Process × Bool :=
  if dlopenSucceeds then
    let (i, p) := dlopen p
    ({ p with gHcOps := .of i, gOpsStatus := min (p.gOpsStatus + 1) maxKeepOpsCnt }, true)
  else ({ p with gHcOps := .zero }, false)

/-- `init_http_client_opt()`: whether it returns `0`. -/
def initHttpClientOpt (p : Process) (dlopenSucceeds : Bool) : Process × Bool :=
  let (p, loaded) := if p.gHcOps.handle = none then opsInit p dlopenSucceeds else (p, true)
  if !loaded then (p, false)
  else if p.gHcOps.httpRequestOp = none ∨ p.gHcOps.bufferAllocOp = none ∨
      p.gHcOps.freeHttpGetOptionsOp = none then (p, false)
  else (p, true)

/-! ## The threads -/

/-- Where a thread stands in a request: the next access to `g_hc_ops` it makes. -/
inductive Pc
  /-- No request: the next step enters `rest_send_requst` and `init_http_client_opt`. -/
  | idle
  /-- `set_http_get_options`: `g_hc_ops.buffer_alloc_op`. -/
  | setOptions
  /-- `g_hc_ops.http_request_op`. -/
  | request
  /-- `g_hc_ops.free_http_get_options_op`, the request having succeeded or not. -/
  | freeOptions (succeeded : Bool)
  /-- `get_response`: its check of `handle`, `parse_http_op` and `buffer_strlen_op`. -/
  | getResponse
  /-- `g_hc_ops.buffer_strlen_op`. -/
  | bufferStrlen
  /-- `g_hc_ops.parse_http_op`. -/
  | parseHttp
  /-- `free_httpclient_ops(&g_hc_ops)` at the end of either function. -/
  | release
  /-- The thread called through a `NULL` pointer. -/
  | crashed
  deriving DecidableEq, Repr

/-- A thread: where it stands, and the instance whose `http_request` filled its response. -/
structure Thread where
  pc : Pc
  producer : Option Nat
  deriving DecidableEq, Repr

/-- The functions of `g_hc_ops` a request calls. -/
inductive OpsFn
  | parseHttp | httpRequest | freeHttpGetOptions | bufferStrlen | bufferAlloc
  deriving DecidableEq, Repr

/-- A call through `g_hc_ops`: the function, the instance its pointer points into (`none`:
`NULL`), and the instance that produced the calling thread's response. -/
structure OpsCall where
  fn : OpsFn
  target : Option Nat
  producer : Option Nat
  deriving DecidableEq, Repr

/-- A safe call: through a set pointer, and, for `parse_http`, by the instance that produced the
response it parses. -/
def OpsCall.Safe (c : OpsCall) : Prop :=
  c.target.isSome ∧ (c.fn = .parseHttp → c.target = c.producer)

/-- A call through the pointer `ptr`: through `NULL` the thread crashes, otherwise it goes on
as `next` says of the instance called. -/
def callOp (t : Thread) (fn : OpsFn) (ptr : Option Nat) (next : Nat → Thread) :
    Thread × Option OpsCall :=
  match ptr with
  | none => ({ t with pc := .crashed }, some ⟨fn, none, t.producer⟩)
  | some i => (next i, some ⟨fn, some i, t.producer⟩)

/-- One step of a thread: the process and the thread after it and the call it made;
`succeeds` is what the step's outside world answers (`dlopen`, the buffer's allocation, the
HTTP exchange, `strstr` finding `HTTP/1.1`). -/
def threadStep (p : Process) (t : Thread) (succeeds : Bool) :
    Process × Thread × Option OpsCall :=
  match t.pc with
  | .idle =>
    -- `if (init_http_client_opt()) { free_httpclient_ops(&g_hc_ops); return -1; }`
    let (p, ok) := initHttpClientOpt p succeeds
    if ok then (p, { t with pc := .setOptions }, none)
    else (freeHttpclientOps p, t, none)
  | .setOptions =>
    let (t, c) := callOp t .bufferAlloc p.gHcOps.bufferAllocOp fun _ =>
      { t with pc := if succeeds then .request else .freeOptions false }
    (p, t, c)
  | .request =>
    let (t, c) := callOp t .httpRequest p.gHcOps.httpRequestOp fun i =>
      { pc := .freeOptions succeeds, producer := some i }
    (p, t, c)
  | .freeOptions succeeded =>
    -- a failed request ends with `free_httpclient_ops`; the plugin then skips `get_response`
    let (t, c) := callOp t .freeHttpGetOptions p.gHcOps.freeHttpGetOptionsOp fun _ =>
      { t with pc := if succeeded then .getResponse else .release }
    (p, t, c)
  | .getResponse =>
    -- the check returns `-1` before `out`, so without `free_httpclient_ops`
    if p.gHcOps.handle = none ∨ p.gHcOps.parseHttpOp = none ∨ p.gHcOps.bufferStrlenOp = none then
      (p, { t with pc := .idle }, none)
    else (p, { t with pc := if succeeds then .bufferStrlen else .release }, none)
  | .bufferStrlen =>
    let (t, c) := callOp t .bufferStrlen p.gHcOps.bufferStrlenOp fun _ => { t with pc := .parseHttp }
    (p, t, c)
  | .parseHttp =>
    -- whatever `parse_http_op` and `unpack_func` return, `get_response` goes to `out`
    let (t, c) := callOp t .parseHttp p.gHcOps.parseHttpOp fun _ => { t with pc := .release }
    (p, t, c)
  | .release => (freeHttpclientOps p, { t with pc := .idle }, none)
  | .crashed => (p, t, none)

/-- The process and its threads. -/
structure System where
  process : Process
  threads : List Thread
  deriving DecidableEq, Repr

/-- A step of the interleaving: a thread, and what its step's outside world answers. -/
structure Event where
  thread : Nat
  succeeds : Bool
  deriving DecidableEq, Repr

/-- The machine: the named thread takes its step; a thread that does not exist takes none. -/
def step (s : System) (e : Event) : System × Option OpsCall :=
  match s.threads[e.thread]? with
  | none => (s, none)
  | some t =>
    let (p, t, c) := threadStep s.process t e.succeeds
    (⟨p, s.threads.set e.thread t⟩, c)

/-- The daemon before any request: `g_hc_ops` and `g_ops_status` zero, the library not loaded,
and `n` idle threads. -/
def initial (n : Nat) : System :=
  ⟨⟨.zero, 0, none, 0⟩, List.replicate n ⟨.idle, none⟩⟩

/-! ## `g_hc_ops` holds the loaded instance or nothing -/

/-- `g_hc_ops` is zeroed with the library unloaded, or wholly the loaded instance, of which
it holds the only handle. -/
def Consistent (p : Process) : Prop :=
  (p.gHcOps = .zero ∧ p.loaded = none) ∨ ∃ i, p.gHcOps = .of i ∧ p.loaded = some (i, 1)

attribute [local simp] freeHttpclientOps HttpclientOps.zero HttpclientOps.of in
lemma freeHttpclientOps_consistent {p : Process} (h : Consistent p) :
    Consistent (freeHttpclientOps p) := by
  rcases h with ⟨hz, hl⟩ | ⟨i, hi, hl⟩
  · left
    simp [freeHttpclientOps, hz, hl, HttpclientOps.zero]
  · -- the last handle goes, and the instance with it, unless the loads are kept
    unfold freeHttpclientOps
    simp only [hi, HttpclientOps.of]
    split_ifs
    · exact .inr ⟨i, hi, hl⟩
    · left
      simp [dlclose, hl]

/-- `ops_init` runs on a zeroed struct, and loads a fresh instance or leaves it zeroed. -/
lemma opsInit_consistent {p : Process} (h : Consistent p) (hnone : p.gHcOps.handle = none)
    (dlopenSucceeds : Bool) : Consistent (opsInit p dlopenSucceeds).1 := by
  have hl : p.loaded = none := by
    rcases h with ⟨_, hl⟩ | ⟨i, hi, _⟩
    · exact hl
    · simp [hi, HttpclientOps.of] at hnone
  cases dlopenSucceeds
  · exact .inl ⟨rfl, by simp [opsInit, hl]⟩
  · exact .inr ⟨p.nextInstance, by simp [opsInit, dlopen, hl]⟩

lemma initHttpClientOpt_consistent {p : Process} (h : Consistent p) (dlopenSucceeds : Bool) :
    Consistent (initHttpClientOpt p dlopenSucceeds).1 := by
  unfold initHttpClientOpt
  by_cases hnone : p.gHcOps.handle = none
  · have hinit := opsInit_consistent h hnone dlopenSucceeds
    simp only [hnone, if_true]
    split_ifs <;> exact hinit
  · simp only [hnone, if_false]
    split_ifs <;> exact h

/-- Only `init_http_client_opt` and `free_httpclient_ops` change the process. -/
lemma threadStep_consistent {p : Process} (h : Consistent p) (t : Thread) (succeeds : Bool) :
    Consistent (threadStep p t succeeds).1 := by
  have hinit := initHttpClientOpt_consistent h succeeds
  unfold threadStep
  cases t.pc <;> simp only
  · split_ifs
    · exact hinit
    · exact freeHttpclientOps_consistent hinit
  all_goals first
    | exact h
    | exact freeHttpclientOps_consistent h
    | split_ifs <;> exact h

attribute [local simp] step in
lemma step_consistent {s : System} (h : Consistent s.process) (e : Event) :
    Consistent (step s e).1.process := by
  unfold step
  split
  · exact h
  · exact threadStep_consistent h _ e.succeeds

lemma consistent_initial (n : Nat) : Consistent (initial n).process := .inl ⟨rfl, rfl⟩

/-- In every interleaving of any number of requests, `g_hc_ops` is zeroed or wholly the loaded
instance. -/
theorem consistent_reachable {n : Nat} {s : System} (h : Reachable step (initial n) s) :
    Consistent s.process :=
  Reachable.invariant (P := fun s : System => Consistent s.process) (consistent_initial n)
    (fun _ e hs => step_consistent hs e) h

/-- Every pointer of a consistent struct is its handle. -/
lemma Consistent.ops_eq {p : Process} (h : Consistent p) :
    p.gHcOps = .zero ∨ ∃ i, p.gHcOps = .of i := by
  rcases h with ⟨hz, _⟩ | ⟨i, hi, _⟩
  · exact .inl hz
  · exact .inr ⟨i, hi⟩

attribute [local simp] threadStep callOp in
/-- A call through a struct that is zeroed or filled from one instance goes where its handle
points. -/
lemma threadStep_target {p : Process} (h : p.gHcOps = .zero ∨ ∃ i, p.gHcOps = .of i) (t : Thread)
    (succeeds : Bool) {c : OpsCall} (hc : (threadStep p t succeeds).2.2 = some c) :
    c.target = p.gHcOps.handle := by
  obtain ⟨pc, producer⟩ := t
  -- only a step through a pointer calls, and every pointer of the struct is its handle
  rcases h with hops | ⟨i, hops⟩ <;>
    cases pc <;> simp only [threadStep, callOp, hops, HttpclientOps.zero, HttpclientOps.of] at hc ⊢
  all_goals first
    | (cases hc; rfl)
    | cases hc
    | split_ifs at hc

/-- No call, in any interleaving, reaches an instance passed to `dlclose`: a call through a set
pointer goes into the loaded instance. -/
theorem call_target_loaded {n : Nat} {s : System} (hs : Reachable step (initial n) s)
    {e : Event} {c : OpsCall} {i : Nat} (hc : (step s e).2 = some c) (hi : c.target = some i) :
    s.process.loaded = some (i, 1) := by
  have h := consistent_reachable hs
  unfold step at hc
  split at hc
  · cases hc
  · rw [threadStep_target h.ops_eq _ _ hc] at hi
    rcases h with ⟨hz, _⟩ | ⟨j, hj, hl⟩
    · simp [hz, HttpclientOps.zero] at hi
    · simp only [hj, HttpclientOps.of, Option.some.injEq] at hi
      rw [hl, hi]

/-! ## After `MAX_KEEP_OPS_CNT` loads -/

/-- `g_ops_status` has reached `MAX_KEEP_OPS_CNT` with instance `i` in `g_hc_ops`. -/
def Kept (i : Nat) (p : Process) : Prop := p.gOpsStatus = maxKeepOpsCnt ∧ p.gHcOps = .of i

lemma freeHttpclientOps_kept {i : Nat} {p : Process} (h : Kept i p) : freeHttpclientOps p = p := by
  simp [freeHttpclientOps, h.1, h.2, HttpclientOps.of]

attribute [local simp] initHttpClientOpt in
lemma initHttpClientOpt_kept {i : Nat} {p : Process} (h : Kept i p) (dlopenSucceeds : Bool) :
    initHttpClientOpt p dlopenSucceeds = (p, true) := by
  simp [initHttpClientOpt, h.2, HttpclientOps.of]

/-- Once the loads are kept, no step changes the process. -/
lemma threadStep_kept {i : Nat} {p : Process} (h : Kept i p) (t : Thread) (succeeds : Bool) :
    (threadStep p t succeeds).1 = p := by
  obtain ⟨pc, producer⟩ := t
  cases pc <;> simp [threadStep, callOp, initHttpClientOpt_kept h, freeHttpclientOps_kept h, h.2,
    HttpclientOps.of]

lemma step_kept {i : Nat} {s : System} (h : Kept i s.process) (e : Event) :
    (step s e).1.process = s.process := by
  unfold step
  split
  · rfl
  · exact threadStep_kept h _ e.succeeds

/-- After the third load, every call, in every interleaving, goes into the kept instance. -/
theorem kept_calls {i : Nat} {s : System} (h : Kept i s.process) (es : List Event) :
    ∀ c ∈ (run step s es).2, ∀ call : OpsCall, c = some call → call.target = some i := by
  -- induction on the events: the process, and so the struct, stays as it is
  induction es generalizing s with
  | nil => simp
  | cons e es ih =>
    intro c hc call hcall
    rw [run_cons, List.mem_cons] at hc
    rcases hc with rfl | hc
    · -- the first event's call goes through the struct, which holds instance `i`
      unfold step at hcall
      split at hcall
      · cases hcall
      · rw [threadStep_target (.inr ⟨i, h.2⟩) _ _ hcall, h.2]
        rfl
    · exact ih (by rw [Kept, step_kept h]; exact h) c hc call hcall

/-! ## One request at a time -/

/-- No thread but the one stepping is in a request. -/
def OneAtATime (s : System) (e : Event) : Prop :=
  ∀ (j : Nat) (t : Thread), j ≠ e.thread → s.threads[j]? = some t → t.pc = .idle

/-- What a thread in a request counts on: the struct filled since it passed
`init_http_client_opt`, from the instance that answered its request. -/
def Owns (p : Process) (t : Thread) : Prop :=
  match t.pc with
  | .idle | .release => True
  | .setOptions | .request => ∃ i, p.gHcOps = .of i
  | .freeOptions succeeded => ∃ i, p.gHcOps = .of i ∧ (succeeded = true → t.producer = some i)
  | .getResponse | .bufferStrlen | .parseHttp => ∃ i, p.gHcOps = .of i ∧ t.producer = some i
  | .crashed => False

/-- The struct is consistent and every thread has what it counts on. -/
def Sequential (s : System) : Prop :=
  Consistent s.process ∧ ∀ (j : Nat) (t : Thread), s.threads[j]? = some t → Owns s.process t

attribute [local simp] Owns in
lemma owns_of_idle {p : Process} {t : Thread} (h : t.pc = .idle) : Owns p t := by
  simp [Owns, h]

lemma initHttpClientOpt_httpRequestOp {p : Process} {dlopenSucceeds : Bool}
    (hok : (initHttpClientOpt p dlopenSucceeds).2 = true) :
    (initHttpClientOpt p dlopenSucceeds).1.gHcOps.httpRequestOp ≠ none := by
  revert hok
  unfold initHttpClientOpt
  split
  split_ifs <;> simp_all

/-- `init_http_client_opt` returns `0` only with the struct filled. -/
lemma initHttpClientOpt_filled {p : Process} (h : Consistent p) {dlopenSucceeds : Bool}
    (hok : (initHttpClientOpt p dlopenSucceeds).2 = true) :
    ∃ i, (initHttpClientOpt p dlopenSucceeds).1.gHcOps = .of i := by
  rcases (initHttpClientOpt_consistent h dlopenSucceeds).ops_eq with hz | hi
  · -- a zeroed struct fails the check of `http_request_op`
    exact absurd (by rw [hz]; rfl) (initHttpClientOpt_httpRequestOp hok)
  · exact hi

/-- A thread that has what it counts on keeps it through its own step. -/
lemma threadStep_owns {p : Process} (hp : Consistent p) {t : Thread} (ht : Owns p t)
    (succeeds : Bool) : Owns (threadStep p t succeeds).1 (threadStep p t succeeds).2.1 := by
  obtain ⟨pc, producer⟩ := t
  cases pc with
  | idle =>
    unfold threadStep
    by_cases hok : (initHttpClientOpt p succeeds).2 = true
    · simpa [hok, Owns] using initHttpClientOpt_filled hp hok
    · simp [hok, Owns]
  | crashed => exact ht.elim
  | freeOptions succeeded =>
    obtain ⟨i, hi, hprod⟩ := ht
    cases succeeded <;> simp_all [threadStep, callOp, Owns, HttpclientOps.of]
  | release => simp [threadStep, Owns]
  | setOptions =>
    obtain ⟨i, hi⟩ := ht
    cases succeeds <;> simp [threadStep, callOp, Owns, hi, HttpclientOps.of]
  | request =>
    obtain ⟨i, hi⟩ := ht
    simp [threadStep, callOp, Owns, hi, HttpclientOps.of]
  | getResponse =>
    obtain ⟨i, hi, hprod⟩ := ht
    cases succeeds <;> simp [threadStep, Owns, hi, hprod, HttpclientOps.of]
  | bufferStrlen =>
    obtain ⟨i, hi, hprod⟩ := ht
    simp [threadStep, callOp, Owns, hi, hprod, HttpclientOps.of]
  | parseHttp =>
    obtain ⟨i, hi, -⟩ := ht
    simp [threadStep, callOp, Owns, hi, HttpclientOps.of]

/-- The call of a thread that has what it counts on is safe. -/
lemma threadStep_safe {p : Process} {t : Thread} (ht : Owns p t) {succeeds : Bool} {c : OpsCall}
    (hc : (threadStep p t succeeds).2.2 = some c) : c.Safe := by
  obtain ⟨pc, producer⟩ := t
  -- the steps that call are those whose thread counts on a filled struct
  cases pc with
  | idle => simp [threadStep] at hc; split_ifs at hc
  | release | crashed => simp [threadStep] at hc
  | getResponse => simp [threadStep] at hc; split_ifs at hc
  | setOptions | request =>
    obtain ⟨i, hi⟩ := ht
    simp [threadStep, callOp, hi, HttpclientOps.of] at hc
    subst hc
    simp [OpsCall.Safe]
  | freeOptions succeeded | bufferStrlen =>
    obtain ⟨i, hi, -⟩ := ht
    simp [threadStep, callOp, hi, HttpclientOps.of] at hc
    subst hc
    simp [OpsCall.Safe]
  | parseHttp =>
    obtain ⟨i, hi, hprod⟩ := ht
    simp [threadStep, callOp, hi, HttpclientOps.of] at hc
    subst hc
    simp only [OpsCall.Safe, Option.isSome_some, forall_const, true_and]
    exact hprod.symm

lemma sequential_initial (n : Nat) : Sequential (initial n) := by
  refine ⟨consistent_initial n, fun j t ht => owns_of_idle ?_⟩
  simp only [initial, List.getElem?_replicate] at ht
  split_ifs at ht
  cases ht
  rfl

/-- A step of the one thread in a request keeps every thread's footing. -/
lemma step_sequential {s : System} (h : Sequential s) {e : Event} (hone : OneAtATime s e) :
    Sequential (step s e).1 := by
  unfold step
  split
  · exact h
  · rename_i t ht
    refine ⟨threadStep_consistent h.1 t e.succeeds, fun j u hu => ?_⟩
    rw [List.getElem?_set] at hu
    split_ifs at hu with hj
    · -- the thread that stepped
      cases hu
      exact threadStep_owns h.1 (h.2 _ _ ht) e.succeeds
    · -- every other thread is idle
      exact owns_of_idle (hone j u (Ne.symm hj) hu)

/-- With one request at a time, every call goes through a set pointer, and a response is parsed
by the instance that produced it. -/
theorem oneAtATime_call_safe {n : Nat} {s : System}
    (hs : ReachableUnder OneAtATime step (initial n) s) (e : Event) {c : OpsCall}
    (hc : (step s e).2 = some c) : c.Safe := by
  have h : Sequential s :=
    ReachableUnder.invariant (P := Sequential) (sequential_initial n)
      (fun _ _ hs' hg => step_sequential hs' hg) hs
  unfold step at hc
  split at hc
  · cases hc
  · rename_i t ht
    exact threadStep_safe (h.2 _ _ ht) hc

/-! ## Overlapping requests -/

/-- Two overlapping requests break both halves: one thread's `get_response` zeroes `g_hc_ops`
while the other, past `init_http_client_opt`, is about to call `buffer_alloc_op`, now `NULL`;
and a response the first instance answered is parsed by a second instance, loaded after the
first was unloaded. -/
theorem restSendRequst_race :
    (∃ (es : List Event) (c : OpsCall), some c ∈ (run step (initial 2) es).2 ∧
      c.target = none) ∧
    (∃ (es : List Event) (c : OpsCall), some c ∈ (run step (initial 2) es).2 ∧
      c.fn = .parseHttp ∧ c.target ≠ c.producer) := by
  refine ⟨⟨[⟨0, true⟩, ⟨1, true⟩, ⟨0, true⟩, ⟨0, true⟩, ⟨0, true⟩, ⟨0, true⟩, ⟨0, true⟩,
      ⟨0, true⟩, ⟨0, true⟩, ⟨1, true⟩], ⟨.bufferAlloc, none, none⟩, by decide, rfl⟩,
    ⟨[⟨0, true⟩, ⟨1, true⟩, ⟨1, true⟩, ⟨1, true⟩, ⟨1, true⟩, ⟨0, true⟩, ⟨0, true⟩, ⟨0, true⟩,
      ⟨0, true⟩, ⟨0, true⟩, ⟨0, true⟩, ⟨0, true⟩, ⟨0, true⟩, ⟨1, true⟩, ⟨1, true⟩, ⟨1, true⟩],
      ⟨.parseHttp, some 1, some 0⟩, by decide, rfl, by decide⟩⟩

end RestCommon

end Isulad
