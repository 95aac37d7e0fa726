import Isulad.Framework.BoundedFifo

/-!
# The events replay buffer (`collector.c`)

Every event the daemon emits is appended to `g_events_buffer`, a list of at most
`EVENTSLIMIT` events kept for `isula events` to replay between `--since` and `--until`. Below the limit
`events_append` copies the event into a new node; at the limit it unlinks the oldest node and
copies the new event over it with `event_copy`.

`event_copy` overwrites the timestamp, type, pid and exit status, but `id` and `opt` only when
the new event's are not `NULL` and the annotations only when it has some. Into a fresh
(`calloc`ed) node that is an exact copy (`eventCopy_calloc`), and so is a copy of an event that
has all three (`eventCopy_of_complete`): as long as every event that evicts another has them
the buffer is the bounded FIFO of the events appended (`eventsAppendAll_eq_pushAll`). An event
without annotations that evicts one with annotations keeps the evicted ones
(`eventsAppendAll_keeps_evicted_annotations`).

`do_subscribe` replays, in buffer order, the events in the `since`/`until` window whose id,
read as the pattern `^id$`, matches the subscriber's name (`doSubscribe_sublist`,
`doSubscribe_window`).
-/

namespace Isulad

namespace Collector

/-! ## Events -/

/-- `types_timestamp_t`. -/
structure TypesTimestamp where
  hasSeconds : Bool
  seconds : Int
  hasNanos : Bool
  nanos : Int
  deriving DecidableEq, Repr

/-- `types_timestamp_cmp_nanos`. -/
def typesTimestampCmpNanos (t1 t2 : TypesTimestamp) : Int :=
  if t1.hasNanos && t2.hasNanos then
    if t1.nanos > t2.nanos then 1 else if t1.nanos < t2.nanos then -1 else 0
  else if t1.hasNanos then 1
  else if t2.hasNanos then -1
  else 0

/-- `types_timestamp_cmp` on two timestamps. -/
def typesTimestampCmp (t1 t2 : TypesTimestamp) : Int :=
  if t1.hasSeconds && t2.hasSeconds then
    if t1.seconds > t2.seconds then 1
    else if t1.seconds < t2.seconds then -1
    else typesTimestampCmpNanos t1 t2
  else if t1.hasSeconds then 1
  else if t2.hasSeconds then -1
  else 0

/-- `struct isulad_events_format`; the annotations array with its `annotations_len`. -/
structure IsuladEventsFormat where
  timestamp : TypesTimestamp
  id : Option String
  opt : Option String
  annotations : List String
  hasType : Bool
  type : Int
  hasPid : Bool
  pid : Int
  hasExitStatus : Bool
  exitStatus : Int
  deriving DecidableEq, Repr

/-- The event `util_common_calloc_s` returns: every field zero or `NULL`. -/
def IsuladEventsFormat.calloc : IsuladEventsFormat :=
  ⟨⟨false, 0, false, 0⟩, none, none, [], false, 0, false, 0, false, 0⟩

/-- `event_copy(src, dest)`. -/
def eventCopy (src dest : IsuladEventsFormat) : IsuladEventsFormat :=
  { timestamp := src.timestamp
    id := if src.id ≠ none then src.id else dest.id
    opt := if src.opt ≠ none then src.opt else dest.opt
    annotations := if src.annotations.length ≠ 0 then src.annotations else dest.annotations
    hasType := src.hasType
    type := src.type
    hasPid := src.hasPid
    pid := src.pid
    hasExitStatus := src.hasExitStatus
    exitStatus := src.exitStatus }

/-- An event `event_copy` copies exactly over any node. -/
def IsuladEventsFormat.Complete (e : IsuladEventsFormat) : Prop :=
  e.id ≠ none ∧ e.opt ≠ none ∧ e.annotations ≠ []

instance (e : IsuladEventsFormat) : Decidable e.Complete :=
  inferInstanceAs (Decidable (_ ∧ _ ∧ _))

attribute [local simp] eventCopy in
@[simp] theorem eventCopy_calloc (e : IsuladEventsFormat) :
    eventCopy e IsuladEventsFormat.calloc = e := by
  obtain ⟨ts, id, opt, ann, ht, t, hp, p, he, es⟩ := e
  cases id <;> cases opt <;> cases ann <;> simp [eventCopy, IsuladEventsFormat.calloc]

theorem eventCopy_of_complete {e : IsuladEventsFormat} (h : e.Complete)
    (dest : IsuladEventsFormat) : eventCopy e dest = e := by
  obtain ⟨hid, hopt, hann⟩ := h
  simp [eventCopy, hid, hopt, hann]

/-! ## The buffer -/

/-- `EVENTSLIMIT`. -/
def eventsLimit : Nat := 64

/-- `g_events_buffer`: its list and its `size` counter. -/
structure EventsBuffer where
  eventList : List IsuladEventsFormat
  size : Nat
  deriving DecidableEq, Repr

/-- The buffer at start-up. -/
def EventsBuffer.init : EventsBuffer := ⟨[], 0⟩

/-- `events_append`. At the limit the first node is unlinked, `event_copy` writes the new event
over its old contents, and the node goes back at the tail. -/
def eventsAppend (b : EventsBuffer) (event : IsuladEventsFormat) : EventsBuffer :=
  if b.size < eventsLimit then
    ⟨b.eventList ++ [eventCopy event IsuladEventsFormat.calloc], b.size + 1⟩
  else
    match b.eventList with
    | [] => b
    | first :: rest => ⟨rest ++ [eventCopy event first], b.size⟩

/-- The buffer after the events of a run, in order. -/
def eventsAppendAll (events : List IsuladEventsFormat) : EventsBuffer :=
  events.foldl eventsAppend EventsBuffer.init

lemma eventsAppendAll_append_singleton (events : List IsuladEventsFormat)
    (e : IsuladEventsFormat) :
    eventsAppendAll (events ++ [e]) = eventsAppend (eventsAppendAll events) e := by
  simp [eventsAppendAll, List.foldl_append]

/-- The buffer's invariant: `size` counts the list, which holds at most `EVENTSLIMIT`
events. -/
def EventsBuffer.Wf (b : EventsBuffer) : Prop :=
  b.size = b.eventList.length ∧ b.size ≤ eventsLimit

attribute [local simp] eventsAppend in
lemma eventsAppend_wf {b : EventsBuffer} (hb : b.Wf) (e : IsuladEventsFormat) :
    (eventsAppend b e).Wf := by
  obtain ⟨hsize, hle⟩ := hb
  unfold eventsAppend
  split
  · rename_i hlt
    refine ⟨by simp [hsize], ?_⟩
    show b.size + 1 ≤ eventsLimit
    omega
  · split
    · exact ⟨hsize, hle⟩
    · rename_i first rest hl
      simp only [hl, List.length_cons] at hsize
      exact ⟨by simp [hsize], hle⟩

attribute [local simp] eventsLimit in
/-- One step of the buffer is one push of the bounded FIFO, unless a node is recycled for an
event `event_copy` does not copy whole. -/
lemma eventsAppend_eventList {b : EventsBuffer} (hb : b.Wf) {e : IsuladEventsFormat}
    (he : b.size < eventsLimit ∨ e.Complete) :
    (eventsAppend b e).eventList = BoundedFifo.push eventsLimit b.eventList e := by
  obtain ⟨hsize, -⟩ := hb
  unfold eventsAppend BoundedFifo.push
  by_cases hlt : b.size < eventsLimit
  · rw [if_pos hlt, if_pos (hsize ▸ hlt), eventCopy_calloc]
  · have hc : e.Complete := he.resolve_left hlt
    rw [if_neg hlt, if_neg (hsize ▸ hlt)]
    cases hl : b.eventList with
    | nil =>
      rw [hl] at hsize
      simp [eventsLimit] at hlt hsize
      omega
    | cons first rest => simp [eventCopy_of_complete hc]

theorem eventsAppendAll_wf (events : List IsuladEventsFormat) : (eventsAppendAll events).Wf := by
  induction events using List.reverseRecOn with
  | nil => exact ⟨rfl, Nat.zero_le _⟩
  | append_singleton events e ih =>
    rw [eventsAppendAll_append_singleton]
    exact eventsAppend_wf ih e

lemma size_eventsAppendAll (events : List IsuladEventsFormat) :
    (eventsAppendAll events).size = min events.length eventsLimit := by
  induction events using List.reverseRecOn with
  | nil => rfl
  | append_singleton events e ih =>
    have hwf := eventsAppendAll_wf events
    rw [eventsAppendAll_append_singleton, List.length_append, List.length_singleton]
    unfold eventsAppend
    split
    · rename_i hlt
      rw [ih] at hlt ⊢
      simp only [eventsLimit] at hlt ⊢
      omega
    · rename_i hge
      rw [ih] at hge
      split
      · rename_i hl
        have h0 := hwf.1
        rw [hl, ih] at h0
        simp only [eventsLimit, List.length_nil] at h0 hge
        omega
      · rw [ih]
        simp only [eventsLimit] at hge ⊢
        omega

/-- As long as every event appended to a full buffer is copied whole, the buffer holds the last
`EVENTSLIMIT` events appended, in order, and `size` their number. -/
theorem eventsAppendAll_eq_pushAll {events : List IsuladEventsFormat}
    (h : ∀ e ∈ events.drop eventsLimit, e.Complete) :
    (eventsAppendAll events).eventList = events.drop (events.length - eventsLimit) := by
  rw [← BoundedFifo.pushAll_nil (by decide)]
  -- induction from the end, the hypothesis covering the last event once the buffer is full
  induction events using List.reverseRecOn with
  | nil => rfl
  | append_singleton events e ih =>
    have hrest : ∀ x ∈ events.drop eventsLimit, x.Complete := fun x hx =>
      h x (((List.sublist_append_left events [e]).drop eventsLimit).subset hx)
    rw [eventsAppendAll_append_singleton, BoundedFifo.pushAll_append_singleton, ← ih hrest]
    refine eventsAppend_eventList (eventsAppendAll_wf events) ?_
    rw [size_eventsAppendAll]
    by_cases hlen : events.length < eventsLimit
    · exact .inl (by omega)
    · refine .inr (h e ?_)
      rw [List.drop_append_of_le_length (by omega)]
      exact List.mem_append_right _ (List.mem_singleton_self e)

/-- Sixty-four copies of an event fill the buffer exactly; a sixty-fifth event is written over
the first node, the others staying in place. -/
theorem eventsAppendAll_replicate_append (c e : IsuladEventsFormat) :
    (eventsAppendAll (List.replicate eventsLimit c ++ [e])).eventList =
      List.replicate (eventsLimit - 1) c ++ [eventCopy e c] := by
  have hlist : (eventsAppendAll (List.replicate eventsLimit c)).eventList =
      List.replicate eventsLimit c := by
    rw [eventsAppendAll_eq_pushAll (by simp), List.length_replicate, Nat.sub_self, List.drop_zero]
  have hsize : (eventsAppendAll (List.replicate eventsLimit c)).size = eventsLimit := by
    rw [size_eventsAppendAll, List.length_replicate, Nat.min_self]
  rw [eventsAppendAll_append_singleton, eventsAppend, hsize, if_neg (Nat.lt_irrefl _), hlist]
  rfl

/-- Sixty-four container events with annotations, then an image event with none: the image
event that the buffer now holds carries the annotations of the container event it evicted. -/
theorem eventsAppendAll_keeps_evicted_annotations :
    (eventsAppendAll
        (List.replicate 64
            ⟨⟨true, 1, false, 0⟩, some "c1", some "start", ["image=busybox", "name=c1"],
              true, 0, true, 42, false, 0⟩ ++
          [⟨⟨true, 2, false, 0⟩, some "busybox", some "pull", [], true, 1, false, 0, false, 0⟩])
      ).eventList.getLast? =
      some ⟨⟨true, 2, false, 0⟩, some "busybox", some "pull", ["image=busybox", "name=c1"],
        true, 1, false, 0, false, 0⟩ := by
  rw [show 64 = eventsLimit from rfl, eventsAppendAll_replicate_append]
  simp only [List.getLast?_append, List.getLast?_singleton, Option.some_or]
  decide

/-! ## Replaying -/

/-- `check_since_time`: `-1` for an event before a `since` that is set. -/
def checkSinceTime (since : Option TypesTimestamp) (event : IsuladEventsFormat) : Int :=
  match since with
  | some s =>
    if (s.hasSeconds || s.hasNanos) && typesTimestampCmp event.timestamp s < 0 then -1 else 0
  | none => 0

/-- `check_util_time`: `-1` for an event after an `until` that is set. -/
def checkUtilTime (untilTime : Option TypesTimestamp) (event : IsuladEventsFormat) : Int :=
  match untilTime with
  | some u =>
    if (u.hasSeconds || u.hasNanos) && typesTimestampCmp event.timestamp u > 0 then -1 else 0
  | none => 0

/-- `do_subscribe` over the buffer's list, with a stream whose writes succeed. `getIdreg id` is
the matcher of the pattern `^id$` that `get_idreg` compiles, `none` where that fails (a `NULL`
id, or `regcomp` rejecting the pattern); without one the name is not checked. An event past
`until` ends the replay. -/
def doSubscribe (getIdreg : String → Option (String → Bool)) (name : Option String)
    (since untilTime : Option TypesTimestamp) : List IsuladEventsFormat → List IsuladEventsFormat
  | [] => []
  | e :: rest =>
    if checkSinceTime since e ≠ 0 then doSubscribe getIdreg name since untilTime rest
    else if checkUtilTime untilTime e ≠ 0 then []
    else
      match e.id.bind getIdreg, name with
      | some preg, some n =>
        if preg n then e :: doSubscribe getIdreg name since untilTime rest
        else doSubscribe getIdreg name since untilTime rest
      | _, _ => e :: doSubscribe getIdreg name since untilTime rest

/-- `events_subscribe` on the buffer. -/
def eventsSubscribe (getIdreg : String → Option (String → Bool)) (name : Option String)
    (since untilTime : Option TypesTimestamp) (b : EventsBuffer) :
    Except String (List IsuladEventsFormat) :=
  match since, untilTime with
  | none, none => .ok []
  | some s, some u =>
    if (s.hasSeconds || s.hasNanos) && (u.hasSeconds || u.hasNanos) && typesTimestampCmp s u > 0
    then .error "'since' time cannot be after 'untilTime' time"
    else .ok (doSubscribe getIdreg name since untilTime b.eventList)
  | _, _ => .ok (doSubscribe getIdreg name since untilTime b.eventList)

section Subscribe

variable (getIdreg : String → Option (String → Bool)) (name : Option String)
  (since untilTime : Option TypesTimestamp)

attribute [local simp] doSubscribe in
/-- The replay is the buffer's events, in buffer order, with some left out. -/
theorem doSubscribe_sublist (events : List IsuladEventsFormat) :
    (doSubscribe getIdreg name since untilTime events).Sublist events := by
  induction events with
  | nil => exact List.Sublist.slnil
  | cons e rest ih =>
    unfold doSubscribe
    split
    · exact ih.cons e
    · split
      · exact List.nil_sublist _
      · split
        · split
          · exact ih.cons_cons e
          · exact ih.cons e
        · exact ih.cons_cons e

/-- Every replayed event lies in the `since`/`until` window. -/
theorem doSubscribe_window {events : List IsuladEventsFormat} {e : IsuladEventsFormat}
    (he : e ∈ doSubscribe getIdreg name since untilTime events) :
    checkSinceTime since e = 0 ∧ checkUtilTime untilTime e = 0 := by
  induction events with
  | nil => simp [doSubscribe] at he
  | cons x rest ih =>
    unfold doSubscribe at he
    split at he
    · exact ih he
    · rename_i hsince
      split at he
      · simp at he
      · rename_i huntil
        -- the events written are `x`, in the window, and those of the rest
        have hx : e = x → checkSinceTime since e = 0 ∧ checkUtilTime untilTime e = 0 := by
          rintro rfl
          exact ⟨not_not.1 hsince, not_not.1 huntil⟩
        split at he
        · split at he
          · rcases List.mem_cons.1 he with rfl | he
            · exact hx rfl
            · exact ih he
          · exact ih he
        · rcases List.mem_cons.1 he with rfl | he
          · exact hx rfl
          · exact ih he

end Subscribe

end Collector

end Isulad
