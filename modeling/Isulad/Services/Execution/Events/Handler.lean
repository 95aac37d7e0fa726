import Isulad.Services.Execution.Events.Collector
import Isulad.Framework.Simulation
import Mathlib.Data.List.Basic
import Mathlib.Data.List.ReduceOption

/-!
# The per-container events handler (`events_handler.c`)

Each container has an `events_handler_t`: a list of events (`events_list`) and a flag
`has_handler` that says whether a thread serves the list. `events_handler_post_events`
appends an event and, when the flag is clear, starts an `events_handler_thread` and sets the
flag, all in one critical section under the handler's lock; when `pthread_create` fails the
event stays queued and the flag stays clear. The thread looks its container up
(`containers_store_get`) and then calls `handle_one` until it fails: under the lock,
`handle_one` clears the flag and fails on an empty list, and otherwise takes the first event;
it then runs `container_state_changed` on it outside the handler's lock. That function acts on
`STOPPED` events only, and only while the container runs with the event's pid: it asks the
restart manager, and sets the container restarting or stopped; a stopped container with
`auto_remove` is then cleaned up (`cleanup_container`).

The model is one handler with its container. Threads are kept in creation order, and any of
them may take the next step, in any interleaving with the posts, with starts of the container
by a user or by the restart manager, and with its removal from the store. A step's output is
the event `container_state_changed` ran on in it, if any: the events processed are the outputs
of a run, and the events posted are read off its inputs (`postedBy`).

Over every run, all threads but the newest have exited and a live newest thread has the flag
set, so at most one thread serves the list (`live_unique`), and the events processed, the one
in process and the list are together exactly the events the run's inputs posted (`Inv.run`):
each is taken once, in posting order. A live thread brings every event posted so far to an end
in three of its steps per event, whatever else happens meanwhile, as long as its container is
found when it looks it up (`posted_prefix_processed`); and while thread creation succeeds and
that lookup does, a pending event always has a live thread (`Served.pending_live`). A step
that processes an event changes the container's state only for a `STOPPED` event whose pid is
the running container's (`step_output_guard`).
-/

namespace Isulad

namespace EventsHandler

open Collector Simulation

/-! ## The container -/

/-- `EVENTS_TYPE_STOPPED1` (`container_def.h`). -/
def eventsTypeStopped1 : Int := 1

/-- The fields of `container_config_v2_state` that the handler and the starts it races with
read and write. -/
structure ContainerState where
  running : Bool
  starting : Bool
  restarting : Bool
  paused : Bool
  removalInprogress : Bool
  exitCode : Int
  pid : Int
  deriving DecidableEq, Repr

/-- `state_set_stopped`. -/
def stateSetStopped (s : ContainerState) (exitCode : Int) : ContainerState :=
  { s with
    running := false
    starting := false
    restarting := false
    paused := false
    exitCode := exitCode
    pid := 0 }

/-- `state_set_restarting`: the container still counts as running, with no process. -/
def stateSetRestarting (s : ContainerState) (exitCode : Int) : ContainerState :=
  { s with
    running := true
    starting := false
    restarting := true
    paused := false
    pid := 0
    exitCode := exitCode }

/-- `state_set_running` with the new process's pid. -/
def stateSetRunning (s : ContainerState) (pid : Int) (initial : Bool) : ContainerState :=
  { s with
    running := true
    starting := false
    restarting := false
    paused := if initial then false else s.paused
    exitCode := 0
    pid := pid }

/-- `state_set_removal_in_progress`: set the flag, and say whether it was set already. -/
def stateSetRemovalInProgress (s : ContainerState) : ContainerState × Bool :=
  ({ s with removalInprogress := true }, s.removalInprogress)

/-- `state_reset_removal_in_progress`. -/
def stateResetRemovalInProgress (s : ContainerState) : ContainerState :=
  { s with removalInprogress := false }

/-- What the handler reads and writes of a `container_t`: its state,
`common_config->restart_count`, and `hostconfig->auto_remove` (false without a host
config). -/
structure Container where
  state : ContainerState
  restartCount : Nat
  autoRemove : Bool
  deriving DecidableEq, Repr

/-- `container_state_changed(cont, events)`, where `shouldRestart` is the answer of
`restart_manager_should_restart`: the new container, and whether `cleanup_container` is to
follow. The error `set_container_to_removal` reports on a flag already set is only logged. -/
def containerStateChanged (cont : Container) (events : IsuladEventsFormat)
    (shouldRestart : Bool) : Container × Bool :=
  if events.type ≠ eventsTypeStopped1 then (cont, false)
  else if !cont.state.running then (cont, false)
  else if cont.state.pid ≠ events.pid then (cont, false)
  else if shouldRestart then
    ({ cont with
        restartCount := cont.restartCount + 1
        state := stateSetRestarting cont.state events.exitStatus }, false)
  else
    let state := stateSetStopped cont.state events.exitStatus
    if cont.autoRemove then ({ cont with state := (stateSetRemovalInProgress state).1 }, true)
    else ({ cont with state := state }, false)

/-- The pid guard: `container_state_changed` leaves the state alone unless the event is a
`STOPPED` event of the running container's own process. -/
theorem containerStateChanged_guard {cont : Container} {events : IsuladEventsFormat}
    {shouldRestart : Bool} (h : (containerStateChanged cont events shouldRestart).1.state ≠ cont.state) :
    events.type = eventsTypeStopped1 ∧ cont.state.running = true ∧ cont.state.pid = events.pid := by
  unfold containerStateChanged at h
  by_cases ht : events.type = eventsTypeStopped1
  · by_cases hr : cont.state.running = true
    · by_cases hp : cont.state.pid = events.pid
      · exact ⟨ht, hr, hp⟩
      · simp [ht, hr, hp] at h
    · simp [ht, hr] at h
  · simp [ht] at h

/-! ## The handler and its threads -/

/-- Where an `events_handler_thread` is. -/
inductive Thread where
  /-- Created, about to look its container up. -/
  | starting
  /-- In the loop, about to call `handle_one`. -/
  | looping
  /-- Has taken `e` off the list and runs `container_state_changed` on it. -/
  | processing (e : IsuladEventsFormat)
  /-- Runs `cleanup_container` on its auto-removed container. -/
  | cleaning
  /-- Has returned. -/
  | exited
  deriving DecidableEq, Repr

/-- The event a thread has taken off the list and not yet processed. -/
def Thread.event : Thread → Option IsuladEventsFormat
  | .processing e => some e
  | _ => none

/-- One handler with its container. -/
structure System where
  container : Container
  /-- Whether `containers_store_get` finds the container. -/
  inStore : Bool
  eventsList : List IsuladEventsFormat
  hasHandler : Bool
  threads : List Thread
  deriving DecidableEq, Repr

/-- A new handler (`events_handler_init`) of a container in the store. -/
def init (cont : Container) : System := ⟨cont, true, [], false, []⟩

/-- `events_handler_post_events(handler, event)`, one critical section: append the event and,
when no thread serves the list, start one; `spawnOk` is whether `pthread_create` succeeds. -/
def eventsHandlerPostEvents (s : System) (event : IsuladEventsFormat) (spawnOk : Bool) : System :=
  let s := { s with eventsList := s.eventsList ++ [event] }
  if s.hasHandler then s
  else if spawnOk then { s with threads := s.threads ++ [.starting], hasHandler := true }
  else s

/-- The critical section of `handle_one`: on an empty list clear `has_handler` and leave the
loop, else take the first event. -/
def handleOne (s : System) : System × Thread :=
  match s.eventsList with
  | [] => ({ s with hasHandler := false }, .exited)
  | e :: rest => ({ s with eventsList := rest }, .processing e)

/-- One step of an `events_handler_thread` at `t`. `answer` is the environment's part in it:
whether `restart_manager_should_restart` asks for a restart, or whether `cleanup_container`
succeeds (it takes the container out of the store, or resets its removal flag). -/
def threadStep (s : System) (answer : Bool) : Thread → System × Thread
  | .starting => (s, if s.inStore then .looping else .exited)
  | .looping => handleOne s
  | .processing e =>
    let r := containerStateChanged s.container e answer
    ({ s with container := r.1 }, if r.2 then .cleaning else .looping)
  | .cleaning =>
    if answer then ({ s with inStore := false }, .looping)
    else
      ({ s with
          container := { s.container with
            state := stateResetRemovalInProgress s.container.state } }, .looping)
  | .exited => (s, .exited)

/-- What may happen next: a post, a step of the `k`-th thread created, a start of the
container with a new process (by a user or the restart manager), or its removal. -/
inductive Event where
  | post (event : IsuladEventsFormat) (spawnOk : Bool)
  | run (k : Nat) (answer : Bool)
  | started (pid : Int)
  | removed
  deriving DecidableEq, Repr

/-- The handler's machine. Its output is the event a thread ran `container_state_changed` on
in the step, if any. -/
def step (s : System) : Event → System × Option IsuladEventsFormat
  | .post event spawnOk => (eventsHandlerPostEvents s event spawnOk, none)
  | .run k answer =>
    match s.threads[k]? with
    | none => (s, none)
    | some t =>
      let r := threadStep s answer t
      ({ r.1 with threads := s.threads.set k r.2 }, t.event)
  | .started pid =>
    ({ s with
        container := { s.container with
          state := stateSetRunning s.container.state pid true } }, none)
  | .removed => ({ s with inStore := false }, none)

/-- The event an input posts. -/
def Event.posted : Event → Option IsuladEventsFormat
  | .post event _ => some event
  | _ => none

/-- The events the inputs post, in order. -/
def postedBy (is : List Event) : List IsuladEventsFormat := is.filterMap Event.posted

/-! ## What a step does -/

/-- Whether a thread may still touch the list. -/
def Thread.live : Thread → Bool
  | .exited => false
  | _ => true

/-- The events taken off the list and not yet processed. -/
def System.inFlight (s : System) : List IsuladEventsFormat := s.threads.filterMap Thread.event

/-- Whether the `k`-th thread created is live. -/
def System.isLive (s : System) (k : Nat) : Bool := (s.threads[k]?).any Thread.live

lemma System.isLive_iff {s : System} {k : Nat} :
    s.isLive k = true ↔ ∃ t, s.threads[k]? = some t ∧ t.live = true := by
  unfold System.isLive
  cases s.threads[k]? <;> simp

attribute [local simp] Thread.live in
lemma Thread.eq_exited_of_not_live {t : Thread} (h : t.live = false) : t = .exited := by
  cases t <;> simp_all [Thread.live]

section Threads

variable {l : List Thread} {k : Nat} {t : Thread}

/-- Of a list whose threads but the newest have exited, a live thread is the newest. -/
lemma index_of_live (hold : ∀ u ∈ l.dropLast, u = .exited) (hk : l[k]? = some t)
    (ht : t.live = true) : k + 1 = l.length := by
  obtain ⟨hlt, rfl⟩ := List.getElem?_eq_some_iff.1 hk
  by_contra hne
  have hlt' : k < l.dropLast.length := by simp; omega
  have hmem : l[k] ∈ l.dropLast := List.getElem_dropLast hlt' ▸ List.getElem_mem hlt'
  rw [hold _ hmem] at ht
  exact absurd ht (by simp [Thread.live])

lemma getLast?_of_index (hk : l[k]? = some t) (hlen : k + 1 = l.length) :
    l.getLast? = some t := by
  rw [List.getLast?_eq_getElem?, ← hk]
  congr 1
  omega

lemma set_of_index (hlen : k + 1 = l.length) (x : Thread) : l.set k x = l.dropLast ++ [x] := by
  obtain ⟨a, ha⟩ : ∃ a, a ∈ l.getLast? := by
    cases hl : l.getLast? with
    | none =>
      rw [List.getLast?_eq_none_iff] at hl
      subst hl
      simp at hlen
    | some a => exact ⟨a, rfl⟩
  have hdrop : l.dropLast.length = k := by simp; omega
  rw [← List.dropLast_append_getLast? a ha]
  simp [hdrop]

/-- Exited threads hold no event. -/
lemma filterMap_event_of_exited (hold : ∀ u ∈ l, u = .exited) : l.filterMap Thread.event = [] :=
  List.filterMap_eq_nil_iff.2 fun u hu => by rw [hold u hu]; rfl

/-- Only the newest of such a list can hold an event. -/
lemma filterMap_event_of_older (hold : ∀ u ∈ l.dropLast, u = .exited) :
    l.filterMap Thread.event = (l.getLast?.bind Thread.event).toList := by
  cases hl : l.getLast? with
  | none =>
    rw [List.getLast?_eq_none_iff] at hl
    simp [hl]
  | some a =>
    rw [← List.dropLast_append_getLast? a hl, List.filterMap_append,
      filterMap_event_of_exited hold]
    cases a <;> rfl

end Threads

section Step

variable {s : System} {k : Nat} {t : Thread}

attribute [local simp] handleOne in
@[simp] lemma handleOne_threads (s : System) : (handleOne s).1.threads = s.threads := by
  unfold handleOne
  split <;> rfl

attribute [local simp] threadStep in
@[simp] lemma threadStep_threads (s : System) (answer : Bool) (t : Thread) :
    (threadStep s answer t).1.threads = s.threads := by
  cases t with
  | looping => exact handleOne_threads s
  | cleaning =>
    simp only [threadStep]
    split <;> rfl
  | _ => rfl

attribute [local simp] step in
lemma step_run_of_getElem? (hk : s.threads[k]? = some t) (answer : Bool) :
    step s (.run k answer) =
      ({ (threadStep s answer t).1 with threads := s.threads.set k (threadStep s answer t).2 },
        t.event) := by
  simp only [step, hk]

attribute [local simp] System.isLive in
/-- A step of an exited thread, or of one never created, changes nothing and processes
nothing. -/
lemma step_run_of_not_live (hk : s.isLive k = false) (answer : Bool) :
    step s (.run k answer) = (s, none) := by
  cases hks : s.threads[k]? with
  | none => simp only [step, hks]
  | some t =>
    rw [System.isLive, hks] at hk
    have ht : t = .exited := Thread.eq_exited_of_not_live (by simpa using hk)
    subst ht
    obtain ⟨hlt, heq⟩ := List.getElem?_eq_some_iff.1 hks
    rw [step_run_of_getElem? hks]
    simp only [threadStep, Thread.event]
    rw [← heq, List.set_getElem_self]

/-- A step of a live thread, where the older threads have exited: the newest thread moves. -/
lemma step_run_of_live (hold : ∀ u ∈ s.threads.dropLast, u = .exited)
    (hk : s.threads[k]? = some t) (ht : t.live = true) (answer : Bool) :
    s.threads.getLast? = some t ∧ step s (.run k answer) =
      ({ (threadStep s answer t).1 with
          threads := s.threads.dropLast ++ [(threadStep s answer t).2] }, t.event) := by
  have hlen := index_of_live hold hk ht
  refine ⟨getLast?_of_index hk hlen, ?_⟩
  rw [step_run_of_getElem? hk, set_of_index hlen]

@[simp] lemma postedBy_nil : postedBy [] = [] := rfl

@[simp] lemma postedBy_append (is js : List Event) :
    postedBy (is ++ js) = postedBy is ++ postedBy js :=
  List.filterMap_append

@[simp] lemma postedBy_singleton (i : Event) : postedBy [i] = i.posted.toList := by
  cases h : i.posted <;> simp [postedBy, h]

end Step

/-! ## One thread at a time, each event once and in order -/

/-- The invariant of a state reached by inputs that posted `posted` and steps that processed
`processed`: the threads but the newest have exited, a live newest thread has the flag set,
and the events processed, those in process and the list are the events posted. -/
structure Inv (s : System) (posted processed : List IsuladEventsFormat) : Prop where
  older : ∀ t ∈ s.threads.dropLast, t = .exited
  handler : ∀ t ∈ s.threads.getLast?, t.live = true → s.hasHandler = true
  conserve : processed ++ s.inFlight ++ s.eventsList = posted

section Inv

variable {s : System} {t : Thread} {P Q : List IsuladEventsFormat}

attribute [local simp] init System.inFlight in
lemma inv_init (cont : Container) : Inv (init cont) [] [] where
  older := by simp [init]
  handler := by simp [init]
  conserve := by simp [init, System.inFlight]

/-- The invariant of a state whose newest thread is `t`. -/
lemma inv_of_newest {older : List Thread} (hth : s.threads = older ++ [t])
    (hold : ∀ u ∈ older, u = .exited) (hh : t.live = true → s.hasHandler = true)
    (hc : Q ++ t.event.toList ++ s.eventsList = P) : Inv s P Q where
  older := by rwa [hth, List.dropLast_concat]
  handler := by
    intro u hu
    rw [hth, List.getLast?_concat, Option.mem_some_iff] at hu
    exact hu ▸ hh
  conserve := by
    have hold' : ∀ u ∈ s.threads.dropLast, u = .exited := by rwa [hth, List.dropLast_concat]
    rw [System.inFlight, filterMap_event_of_older hold', hth, List.getLast?_concat]
    exact hc

/-- The events processed, the newest thread's and the list are the events posted. -/
lemma Inv.conserve_newest (h : Inv s P Q) (hl : s.threads.getLast? = some t) :
    Q ++ t.event.toList ++ s.eventsList = P := by
  have hc := h.conserve
  rwa [System.inFlight, filterMap_event_of_older h.older, hl, Option.bind_some] at hc

/-- With the list empty, an event posted and not processed is the one the newest thread
holds. -/
lemma Inv.exists_event_of_pending (h : Inv s P Q) (hq : s.eventsList = [])
    (hp : Q.length < P.length) : ∃ t e, s.threads.getLast? = some t ∧ t.event = some e := by
  have hc := h.conserve
  rw [System.inFlight, filterMap_event_of_older h.older, hq, List.append_nil] at hc
  cases hl : s.threads.getLast? with
  | none =>
    simp only [hl, Option.bind_none, Option.toList_none, List.append_nil] at hc
    exact absurd (hc ▸ hp) (Nat.lt_irrefl _)
  | some t =>
    cases he : t.event with
    | none =>
      simp only [hl, Option.bind_some, he, Option.toList_none, List.append_nil] at hc
      exact absurd (hc ▸ hp) (Nat.lt_irrefl _)
    | some e => exact ⟨t, e, rfl, he⟩

/-- The events processed are a prefix of the events posted. -/
lemma Inv.processed_isPrefix_posted (h : Inv s P Q) : Q <+: P :=
  ⟨_, by rw [← h.conserve, List.append_assoc]⟩

/-- With the flag clear, every thread has exited. -/
lemma Inv.all_exited (h : Inv s P Q) (hh : s.hasHandler = false) :
    ∀ u ∈ s.threads, u = .exited := by
  intro u hu
  cases hl : s.threads.getLast? with
  | none =>
    rw [List.getLast?_eq_none_iff] at hl
    simp [hl] at hu
  | some a =>
    rw [← List.dropLast_append_getLast? a hl, List.mem_append, List.mem_singleton] at hu
    rcases hu with hu | rfl
    · exact h.older u hu
    · cases hlive : u.live
      · exact Thread.eq_exited_of_not_live hlive
      · have := h.handler u hl hlive
        rw [hh] at this
        cases this

attribute [local simp] Thread.event in
lemma inv_post (h : Inv s P Q) (event : IsuladEventsFormat) (spawnOk : Bool) :
    Inv (eventsHandlerPostEvents s event spawnOk) (P ++ [event]) Q := by
  have hc : Q ++ s.inFlight ++ (s.eventsList ++ [event]) = P ++ [event] := by
    rw [← h.conserve]
    simp only [List.append_assoc]
  unfold eventsHandlerPostEvents
  cases hh : s.hasHandler with
  | true => exact ⟨h.older, fun _ _ _ => rfl, hc⟩
  | false =>
    have hold := h.all_exited hh
    cases spawnOk with
    | false =>
      refine ⟨h.older, fun u hu hu' => ?_, hc⟩
      rw [hold u (List.mem_of_getLast? hu)] at hu'
      cases hu'
    | true =>
      refine inv_of_newest rfl hold (fun _ => rfl) ?_
      have hnil : s.inFlight = [] := filterMap_event_of_exited hold
      simpa [hnil, Thread.event] using hc

/-- A live newest thread's step keeps the invariant, with the event it processes, if any,
added to those processed. -/
lemma inv_threadStep (h : Inv s P Q) (hl : s.threads.getLast? = some t) (ht : t.live = true)
    (answer : Bool) :
    Inv { (threadStep s answer t).1 with
      threads := s.threads.dropLast ++ [(threadStep s answer t).2] } P (Q ++ t.event.toList) := by
  have hh := h.handler t hl ht
  have hc := h.conserve_newest hl
  cases t with
  | starting =>
    refine inv_of_newest rfl h.older (fun _ => hh) ?_
    by_cases hs : s.inStore = true <;> simpa [threadStep, hs, Thread.event] using hc
  | looping =>
    cases hq : s.eventsList with
    | nil =>
      refine inv_of_newest rfl h.older (fun hx => ?_) ?_
      · simp [threadStep, handleOne, hq, Thread.live] at hx
      · simpa [threadStep, handleOne, hq, Thread.event] using hc
    | cons e rest =>
      refine inv_of_newest rfl h.older (fun _ => ?_) ?_
      · simpa [threadStep, handleOne, hq] using hh
      · simpa [threadStep, handleOne, hq, Thread.event] using hc
  | processing e =>
    -- the event leaves the thread and joins those processed
    refine inv_of_newest rfl h.older (fun _ => hh) ?_
    by_cases hr : (containerStateChanged s.container e answer).2 = true <;>
      simpa [threadStep, hr, Thread.event] using hc
  | cleaning =>
    cases answer
    · refine inv_of_newest rfl h.older (fun _ => hh) ?_
      simpa [threadStep, Thread.event] using hc
    · refine inv_of_newest rfl h.older (fun _ => hh) ?_
      simpa [threadStep, Thread.event] using hc
  | exited => simp [Thread.live] at ht

lemma inv_run (h : Inv s P Q) (k : Nat) (answer : Bool) :
    Inv (step s (.run k answer)).1 P (Q ++ (step s (.run k answer)).2.toList) := by
  cases hlive : s.isLive k with
  | false =>
    rw [step_run_of_not_live hlive]
    simpa using h
  | true =>
    obtain ⟨t, hk, ht⟩ := System.isLive_iff.1 hlive
    obtain ⟨hl, hstep⟩ := step_run_of_live h.older hk ht answer
    rw [hstep]
    exact inv_threadStep h hl ht answer

attribute [local simp] Event.posted in
/-- Every step keeps the invariant, with its input's event added to those posted and its output
to those processed. -/
theorem step_inv (h : Inv s P Q) (i : Event) :
    Inv (step s i).1 (P ++ i.posted.toList) (Q ++ (step s i).2.toList) := by
  cases i with
  | post event spawnOk => simpa [step, Event.posted] using inv_post h event spawnOk
  | run k answer => simpa [Event.posted] using inv_run h k answer
  | started pid =>
    simp only [step, Event.posted, Option.toList_none, List.append_nil]
    exact ⟨h.older, h.handler, h.conserve⟩
  | removed =>
    simp only [step, Event.posted, Option.toList_none, List.append_nil]
    exact ⟨h.older, h.handler, h.conserve⟩

/-- Every run keeps the invariant, with the events its inputs post added to those posted and the
events it processes to those processed. -/
theorem Inv.run (h : Inv s P Q) (is : List Event) :
    Inv (run step s is).1 (P ++ postedBy is) (Q ++ (run step s is).2.reduceOption) := by
  have hrun : Inv (Simulation.run step s is).1 (P ++ postedBy ([] ++ is))
      (Q ++ ([] ++ (Simulation.run step s is).2).reduceOption) :=
    run_history (P := fun s I O => Inv s (P ++ postedBy I) (Q ++ O.reduceOption))
      (fun s I O i hI => by
        simpa [List.reduceOption_append, List.reduceOption_singleton] using step_inv hI i)
      (by simpa using h) is
  simpa using hrun

lemma inv_run_init (cont : Container) (is : List Event) :
    Inv (run step (init cont) is).1 (postedBy is) (run step (init cont) is).2.reduceOption := by
  simpa using (inv_init cont).run is

/-- At most one thread is live. -/
theorem live_unique (h : Inv s P Q) {i j : Nat} (hi : s.isLive i = true)
    (hj : s.isLive j = true) : i = j := by
  obtain ⟨ti, hki, hti⟩ := System.isLive_iff.1 hi
  obtain ⟨tj, hkj, htj⟩ := System.isLive_iff.1 hj
  have := index_of_live h.older hki hti
  have := index_of_live h.older hkj htj
  omega

end Inv

/-! ## Every event is processed -/

/-- A new thread finds its container in the store when it looks it up. -/
def Finds (s : System) : Event → Prop
  | .run k _ => s.threads[k]? = some .starting → s.inStore = true
  | _ => True

instance (s : System) : (i : Event) → Decidable (Finds s i)
  | .run k _ => inferInstanceAs (Decidable (s.threads[k]? = some .starting → s.inStore = true))
  | .post _ _ => inferInstanceAs (Decidable True)
  | .started _ => inferInstanceAs (Decidable True)
  | .removed => inferInstanceAs (Decidable True)

/-- Thread creation succeeds, and a new thread finds its container. -/
def Admissible (s : System) : Event → Prop
  | .post _ spawnOk => spawnOk = true
  | i => Finds s i

instance (s : System) : (i : Event) → Decidable (Admissible s i)
  | .post _ spawnOk => inferInstanceAs (Decidable (spawnOk = true))
  | .run k answer => inferInstanceAs (Decidable (Finds s (.run k answer)))
  | .started pid => inferInstanceAs (Decidable (Finds s (.started pid)))
  | .removed => inferInstanceAs (Decidable (Finds s .removed))

/-- How far a thread is through the event it works on. -/
def Thread.credit : Thread → Nat
  | .looping => 1
  | .processing _ => 2
  | _ => 0

/-- How far the newest thread is through the event it works on. -/
def System.credit (s : System) : Nat := (s.threads.getLast?.map Thread.credit).getD 0

/-- Whether the event is a step of a live thread. -/
def System.productive (s : System) : Event → Bool
  | .run k _ => s.isLive k
  | _ => false

/-- The steps of live threads in the run from `s` on `is`. -/
def productiveSteps : System → List Event → Nat
  | _, [] => 0
  | s, i :: is => (s.productive i).toNat + productiveSteps (step s i).1 is

section Progress

variable {s : System} {t : Thread} {P Q : List IsuladEventsFormat}

lemma Thread.live_of_event {e : IsuladEventsFormat} (h : t.event = some e) : t.live = true := by
  cases t <;> simp_all [Thread.event, Thread.live]

lemma isLive_of_getLast? (hl : s.threads.getLast? = some t) (ht : t.live = true) :
    s.isLive (s.threads.length - 1) = true := by
  rw [System.isLive, ← List.getLast?_eq_getElem?, hl]
  exact ht

attribute [local simp] Thread.credit in
lemma System.credit_le (s : System) : s.credit ≤ 2 := by
  have hc : ∀ t : Thread, t.credit ≤ 2 := fun t => by cases t <;> simp [Thread.credit]
  unfold System.credit
  cases s.threads.getLast? with
  | none => simp
  | some t => simpa using hc t

/-- A live thread's step, where the flag is set and a new thread finds its container, leaves
it live with the flag set, or exited with the flag clear and the list empty. -/
lemma threadStep_live_or_done (hh : s.hasHandler = true) (hf : t = .starting → s.inStore = true)
    (ht : t.live = true) (answer : Bool) :
    ((threadStep s answer t).2.live = true ∧ (threadStep s answer t).1.hasHandler = true) ∨
      ((threadStep s answer t).1.hasHandler = false ∧
        (threadStep s answer t).1.eventsList = []) := by
  cases t with
  | starting => simp [threadStep, hf rfl, Thread.live, hh]
  | looping =>
    cases hq : s.eventsList with
    | nil => simp [threadStep, handleOne, hq]
    | cons e rest => simp [threadStep, handleOne, hq, Thread.live, hh]
  | processing e =>
    by_cases hr : (containerStateChanged s.container e answer).2 = true <;>
      simp [threadStep, hr, Thread.live, hh]
  | cleaning => cases answer <;> simp [threadStep, Thread.live, hh]
  | exited => simp [Thread.live] at ht

/-- A live thread's step with work left moves it on: starting finds the container, looping
takes an event, processing finishes it (three credits for the event processed), cleaning
returns to the loop. -/
lemma threadStep_credit (hf : t = .starting → s.inStore = true)
    (hq : t = .looping → s.eventsList ≠ []) (ht : t.live = true) (answer : Bool) :
    t.credit + 1 ≤ 3 * t.event.toList.length + (threadStep s answer t).2.credit := by
  cases t with
  | starting => simp [threadStep, hf rfl, Thread.credit, Thread.event]
  | looping =>
    obtain ⟨e, rest, hq'⟩ := List.exists_cons_of_ne_nil (hq rfl)
    simp [threadStep, handleOne, hq', Thread.credit, Thread.event]
  | processing e =>
    by_cases hr : (containerStateChanged s.container e answer).2 = true <;>
      simp [threadStep, hr, Thread.credit, Thread.event]
  | cleaning => cases answer <;> simp [threadStep, Thread.credit, Thread.event]
  | exited => simp [Thread.live] at ht

attribute [local simp] System.credit in
lemma credit_post (h : Inv s P Q) (event : IsuladEventsFormat) (spawnOk : Bool) :
    (eventsHandlerPostEvents s event spawnOk).credit = s.credit := by
  unfold eventsHandlerPostEvents
  cases hh : s.hasHandler with
  | true => simp [System.credit]
  | false =>
    cases spawnOk with
    | false => simp [System.credit]
    | true =>
      -- the new thread starts from nothing, and so had the old ones, all exited
      have hold : (s.threads.getLast?.map Thread.credit).getD 0 = 0 := by
        cases hl : s.threads.getLast? with
        | none => rfl
        | some a => simp [h.all_exited hh a (List.mem_of_getLast? hl), Thread.credit]
      simp [System.credit, hold, Thread.credit]

/-- While events are pending, no step lowers three credits per event processed plus the newest
thread's credit, and a live thread's step raises it. -/
lemma credit_step (h : Inv s P Q) {i : Event} (hf : Finds s i) (hp : Q.length < P.length) :
    3 * Q.length + s.credit + (s.productive i).toNat ≤
      3 * (Q ++ (step s i).2.toList).length + (step s i).1.credit := by
  cases i with
  | post event spawnOk => simp [System.productive, step, credit_post h event spawnOk]
  | run k answer =>
    cases hlive : s.isLive k with
    | false => simp [System.productive, hlive, step_run_of_not_live hlive]
    | true =>
      obtain ⟨t, hk, ht⟩ := System.isLive_iff.1 hlive
      obtain ⟨hl, hstep⟩ := step_run_of_live h.older hk ht answer
      -- a looping thread has an event to take: none is in process, and not all are processed
      have hq : t = .looping → s.eventsList ≠ [] := by
        rintro rfl hnil
        obtain ⟨t', e, hl', he⟩ := h.exists_event_of_pending hnil hp
        rw [hl, Option.some_inj] at hl'
        subst hl'
        simp [Thread.event] at he
      have hcredit := threadStep_credit (fun hts => hf (hts ▸ hk)) hq ht answer
      simp only [System.productive, hlive, Bool.toNat_true, hstep, System.credit, hl,
        List.getLast?_concat, Option.map_some, Option.getD_some, List.length_append]
      omega
  | started pid => simp [System.productive, step, System.credit]
  | removed => simp [System.productive, step, System.credit]

/-- Along a run in which new threads find their container, three credits per event processed,
the newest thread's credit and the live threads' steps together bound the events processed
from below. -/
lemma processed_length_run {p : Nat} (is : List Event) : ∀ (s : System) (P Q : List _),
    Inv s P Q → Admits Finds step s is → p ≤ P.length →
    3 * p ≤ 3 * Q.length + s.credit + productiveSteps s is →
    p ≤ (Q ++ (run step s is).2.reduceOption).length := by
  induction is with
  | nil =>
    intro s P Q _ _ _ hs
    have := s.credit_le
    simp only [productiveSteps, Nat.add_zero] at hs
    simp only [run_nil, List.reduceOption_nil, List.append_nil]
    omega
  | cons i is ih =>
    intro s P Q h ha hpost hs
    -- the step's output joins those processed, and the rest of the run goes on from there
    have hout : (Q ++ (run step s (i :: is)).2.reduceOption) =
        (Q ++ (step s i).2.toList) ++ (run step (step s i).1 is).2.reduceOption := by
      rw [run_cons, ← List.singleton_append, List.reduceOption_append,
        List.reduceOption_singleton, List.append_assoc]
    rw [hout]
    by_cases hdone : p ≤ Q.length
    · simp only [List.length_append]
      omega
    · have hstep := credit_step h ha.1 (by omega)
      simp only [productiveSteps] at hs
      exact ih _ _ _ (step_inv h i) ha.2 (by simp only [List.length_append]; omega) (by omega)

/-- Three steps of live threads per pending event, along a run in which new threads find
their container, process every event posted by now, in posting order. -/
theorem posted_prefix_processed (h : Inv s P Q) {is : List Event} (ha : Admits Finds step s is)
    (hn : 3 * (P.length - Q.length) ≤ productiveSteps s is) :
    P <+: Q ++ (run step s is).2.reduceOption := by
  have hle := h.processed_isPrefix_posted.length_le
  have hlen := processed_length_run (p := P.length) is s P Q h ha (Nat.le_refl _) (by omega)
  have hpre := (h.run is).processed_isPrefix_posted
  exact List.prefix_of_prefix_length_le (List.prefix_append P _) hpre hlen

/-- While thread creation succeeds and new threads find their container, a queued event has
the flag set, and the flag a live newest thread. -/
structure Served (s : System) (posted processed : List IsuladEventsFormat) : Prop where
  inv : Inv s posted processed
  queued : s.eventsList ≠ [] → s.hasHandler = true
  served : s.hasHandler = true → ∃ t ∈ s.threads.getLast?, t.live = true

lemma served_init (cont : Container) : Served (init cont) [] [] where
  inv := inv_init cont
  queued := by simp [init]
  served := by simp [init]

lemma served_step (h : Served s P Q) {i : Event} (ha : Admissible s i) :
    Served (step s i).1 (P ++ i.posted.toList) (Q ++ (step s i).2.toList) := by
  cases i with
  | post event spawnOk =>
    obtain rfl : spawnOk = true := ha
    refine ⟨step_inv h.inv _, ?_, ?_⟩ <;> simp only [step, eventsHandlerPostEvents] <;>
      cases hh : s.hasHandler
    · simp
    · simp
    · simp [Thread.live]
    · simpa [hh] using h.served hh
  | run k answer =>
    cases hlive : s.isLive k with
    | false =>
      rw [step_run_of_not_live hlive]
      simpa [Event.posted] using h
    | true =>
      obtain ⟨t, hk, ht⟩ := System.isLive_iff.1 hlive
      obtain ⟨hl, hstep⟩ := step_run_of_live h.inv.older hk ht answer
      have hfinds : t = .starting → s.inStore = true := fun hts => ha (hts ▸ hk)
      have hmoves := threadStep_live_or_done (h.inv.handler t hl ht) hfinds ht answer
      refine ⟨step_inv h.inv _, ?_, ?_⟩ <;> rw [hstep]
      · rcases hmoves with ⟨_, hh'⟩ | ⟨_, hq'⟩
        · exact fun _ => hh'
        · exact fun hne => absurd hq' hne
      · rcases hmoves with ⟨ht', _⟩ | ⟨hh', _⟩
        · exact fun _ => ⟨_, List.getLast?_concat, ht'⟩
        · intro hh''
          simp only [hh'] at hh''
          cases hh''
  | started pid => exact ⟨step_inv h.inv _, h.queued, h.served⟩
  | removed => exact ⟨step_inv h.inv _, h.queued, h.served⟩

/-- Along every run that thread creation and the lookups admit, with the events its inputs
post and the events it processed. -/
theorem served_run_init (cont : Container) {is : List Event}
    (ha : Admits Admissible step (init cont) is) :
    Served (run step (init cont) is).1 (postedBy is) (run step (init cont) is).2.reduceOption := by
  have hrun : Served (run step (init cont) is).1 (postedBy ([] ++ is))
      ([] ++ (run step (init cont) is).2).reduceOption :=
    Admits.history (P := fun s I O => Served s (postedBy I) O.reduceOption)
      (fun s I O i hI hi => by
        simpa [List.reduceOption_append, List.reduceOption_singleton] using served_step hI hi)
      (served_init cont) ha
  simpa using hrun

/-- A pending event has a live thread to process it. -/
theorem Served.pending_live (h : Served s P Q) (hp : Q.length < P.length) :
    ∃ k, s.isLive k = true := by
  obtain ⟨t, hl, ht⟩ : ∃ t ∈ s.threads.getLast?, t.live = true := by
    cases hq : s.eventsList with
    | cons e rest => exact h.served (h.queued (by simp [hq]))
    | nil =>
      obtain ⟨t, e, hl, he⟩ := h.inv.exists_event_of_pending hq hp
      exact ⟨t, hl, Thread.live_of_event he⟩
  exact ⟨_, isLive_of_getLast? hl ht⟩

lemma Thread.eq_processing_of_event {e : IsuladEventsFormat} (h : t.event = some e) :
    t = .processing e := by
  cases t <;> simp_all [Thread.event]

/-- A step that processes an event changes the container's state only for a `STOPPED` event
of the running container's own process. -/
lemma step_output_guard {i : Event} {e : IsuladEventsFormat} (ho : (step s i).2 = some e)
    (h : (step s i).1.container.state ≠ s.container.state) :
    e.type = eventsTypeStopped1 ∧ s.container.state.running = true ∧
      s.container.state.pid = e.pid := by
  cases i with
  | run k answer =>
    cases hk : s.threads[k]? with
    | none => simp [step, hk] at ho
    | some t =>
      rw [step_run_of_getElem? hk] at ho h
      obtain rfl := Thread.eq_processing_of_event ho
      exact containerStateChanged_guard h
  | _ => simp [step] at ho

end Progress

theorem eventsHandler_serialised_fifo (cont : Container) :
    (∀ is s out, run step (init cont) is = (s, out) →
      (∀ i j, s.isLive i = true → s.isLive j = true → i = j) ∧
      out.reduceOption ++ s.inFlight ++ s.eventsList = postedBy is ∧
      ∀ js, Admits Finds step s js →
        3 * ((postedBy is).length - out.reduceOption.length) ≤ productiveSteps s js →
        postedBy is <+: (run step (init cont) (is ++ js)).2.reduceOption) ∧
    (∀ is s out, Admits Admissible step (init cont) is → run step (init cont) is = (s, out) →
      out.reduceOption.length < (postedBy is).length → ∃ k, s.isLive k = true) ∧
    ∀ s i e, (step s i).2 = some e → (step s i).1.container.state ≠ s.container.state →
      e.type = eventsTypeStopped1 ∧ s.container.state.running = true ∧
        s.container.state.pid = e.pid := by
  refine ⟨fun is s out hrun => ?_, fun is s out ha hrun => ?_,
    fun s i e ho h => step_output_guard ho h⟩
  · have h := inv_run_init cont is
    rw [hrun] at h
    refine ⟨fun _ _ => live_unique h, h.conserve, fun js ha hn => ?_⟩
    rw [run_append, hrun, List.reduceOption_append]
    exact posted_prefix_processed h ha hn
  · have h := served_run_init cont ha
    rw [hrun] at h
    exact h.pending_live

end EventsHandler

end Isulad
