import Isulad.Framework.Simulation
import Mathlib.Data.List.Basic
import Mathlib.Logic.Function.Iterate

/-!
# The health-check monitor of a container (`health_check.c`)

A container with a health check has one shared `monitor_status`, `MONITOR_IDLE`,
`MONITOR_INTERVAL` or `MONITOR_STOP`, under the health-check lock, and the
`health_check_monitor` threads that poll it. Stopping a monitor is only writing
`MONITOR_STOP` (`close_health_check_monitor`, from a pause or a stop); starting one is writing
`MONITOR_INTERVAL` and creating a new thread (`open_health_check_monitor` in
`update_health_monitor`, from a start or a resume). A monitor thread leaves its loop when it
reads `MONITOR_STOP`.

Three places of the monitor's loop write the status: its first `set_monitor_idle_status`,
the one after a probe, and the `set_monitor_interval_timeout_status` of `do_monitor_default`.
A monitor at none of them only reads the status. Once the status is `MONITOR_STOP` and every
monitor only reads it, the status stays so, and every monitor leaves its loop within three
steps of its own, in any interleaving (`draining_run`, `monitor_exits`).

Nothing stops an old monitor that rests in `do_monitor_default` when a pause and a resume come
back to back: the resume writes `MONITOR_INTERVAL` over the pause's `MONITOR_STOP` before the
old monitor reads it, and creates a second monitor. The two then probe side by side
(`updateHealthMonitor_two_monitors_probe`).
-/

namespace Isulad

namespace HealthCheck

open Simulation

/-- `health_check_monitor_status_t`. -/
inductive MonitorStatus
  | idle
  | interval
  | stop
  deriving DecidableEq, Repr

/-- Where a `health_check_monitor` thread stands. -/
inductive Monitor
  /-- Created; its `set_monitor_idle_status` is next. -/
  | starting
  /-- At the top of its loop: `get_health_check_monitor_state` is next. -/
  | loop
  /-- In `do_monitor_interval`, joining the thread that runs the probe. -/
  | probing
  /-- The probe has returned: `get_health_check_monitor_state` is next. -/
  | probed
  /-- The probe saw no `MONITOR_STOP`: `set_monitor_idle_status` is next. -/
  | idling
  /-- In `do_monitor_default`: `set_monitor_interval_timeout_status` when the probe interval
  has passed, then `usleep_nointerupt`. -/
  | resting
  /-- Out of its loop. -/
  | exited
  deriving DecidableEq, Repr

/-- The container's state that the health check reads, its `monitor_status` and its monitor
threads, in the order they were created. -/
structure Container where
  running : Bool
  paused : Bool
  monitorStatus : MonitorStatus
  monitors : List Monitor
  deriving DecidableEq, Repr

/-- A stopped container with a fresh `health_check_manager_new`. -/
def Container.initial : Container := ⟨false, false, .idle, []⟩

/-! ## The operations of the container -/

/-- `close_health_check_monitor`. -/
def closeHealthCheckMonitor (c : Container) : Container := { c with monitorStatus := .stop }

/-- `open_health_check_monitor`. -/
def openHealthCheckMonitor (c : Container) : Container := { c with monitorStatus := .interval }

/-- `update_health_monitor` for a container whose health check has a probe:
`want_running` is `running && !paused`. -/
def updateHealthMonitor (c : Container) : Container :=
  if c.running && !c.paused then
    { openHealthCheckMonitor c with monitors := c.monitors ++ [.starting] }
  else closeHealthCheckMonitor c

/-- `stop_health_checks`. -/
def stopHealthChecks (c : Container) : Container := closeHealthCheckMonitor c

/-- `init_health_monitor`: stop any monitor, in case the container is restarting, then update. -/
def initHealthMonitor (c : Container) : Container := updateHealthMonitor (stopHealthChecks c)

/-- One step of a monitor thread, under the health-check lock where it reads or writes the
status. `elapsed` says whether the probe interval has passed, in `do_monitor_default`. -/
def monitorStep (status : MonitorStatus) : Monitor → Bool → MonitorStatus × Monitor
  | .starting, _ => (.idle, .loop)
  | .loop, _ =>
    match status with
    | .stop => (status, .exited)
    | .interval => (status, .probing)
    | .idle => (status, .resting)
  | .probing, _ => (status, .probed)
  | .probed, _ =>
    -- `do_monitor_interval` returns without writing on `MONITOR_STOP`; the loop reads again
    match status with
    | .stop => (status, .loop)
    | _ => (status, .idling)
  | .idling, _ => (.idle, .loop)
  | .resting, elapsed => (if elapsed then .interval else status, .loop)
  | .exited, _ => (status, .exited)

/-! ## The machine -/

/-- What happens next. -/
inductive Event
  /-- The container starts, and `init_health_monitor` runs. -/
  | start
  /-- `pause_container`. -/
  | pause
  /-- `do_resume_container`. -/
  | resume
  /-- The container stops, and `stop_health_checks` runs. -/
  | exit
  /-- The `k`-th monitor thread takes a step. -/
  | monitor (k : Nat) (elapsed : Bool)

/-- The `k`-th monitor takes a step. -/
def monitorEvent (c : Container) (k : Nat) (elapsed : Bool) : Container :=
  match c.monitors[k]? with
  | none => c
  | some m =>
    let r := monitorStep c.monitorStatus m elapsed
    { c with monitorStatus := r.1, monitors := c.monitors.set k r.2 }

/-- One event; a pause or a resume that the container's state refuses changes nothing. -/
def step (c : Container) : Event → Container × Unit
  | .start =>
    (if c.running then c else initHealthMonitor { c with running := true, paused := false }, ())
  | .pause =>
    (if c.running && !c.paused then updateHealthMonitor { c with paused := true } else c, ())
  | .resume =>
    (if c.running && c.paused then updateHealthMonitor { c with paused := false } else c, ())
  | .exit => (stopHealthChecks { c with running := false, paused := false }, ())
  | .monitor k elapsed => (monitorEvent c k elapsed, ())

/-! ## Draining after a stop -/

/-- The places of the loop that write the status. -/
def Monitor.writes : Monitor → Bool
  | .starting | .idling | .resting => true
  | .loop | .probing | .probed | .exited => false

/-- What a monitor that does not write the status does on `MONITOR_STOP`. -/
def Monitor.drain : Monitor → Monitor
  | .loop => .exited
  | .probing => .probed
  | .probed => .loop
  | m => m

/-- The status is `MONITOR_STOP` and no monitor stands where it writes the status. -/
def Draining (c : Container) : Prop :=
  c.monitorStatus = .stop ∧ ∀ m ∈ c.monitors, m.writes = false

attribute [local simp] Monitor.writes Monitor.drain in
/-- On `MONITOR_STOP` a monitor that does not write only drains. -/
lemma monitorStep_stop {m : Monitor} (hm : m.writes = false) (elapsed : Bool) :
    monitorStep .stop m elapsed = (.stop, m.drain) := by
  cases m <;> simp_all [Monitor.writes, monitorStep, Monitor.drain]

lemma writes_drain {m : Monitor} (hm : m.writes = false) : m.drain.writes = false := by
  cases m <;> simp_all [Monitor.writes, Monitor.drain]

/-- Three drains take a monitor that does not write out of its loop, and it stays out. -/
lemma drain_iterate {m : Monitor} (hm : m.writes = false) {n : Nat} (hn : 3 ≤ n) :
    Monitor.drain^[n] m = .exited := by
  obtain ⟨n, rfl⟩ := Nat.exists_eq_add_of_le hn
  have hexit : ∀ j, Monitor.drain^[j] Monitor.exited = .exited := by
    intro j
    induction j with
    | zero => rfl
    | succ j ih => rw [Function.iterate_succ_apply, show Monitor.drain .exited = .exited from rfl, ih]
  rw [Nat.add_comm, Function.iterate_add_apply]
  cases m <;> simp_all [Monitor.writes, Monitor.drain]

/-- A monitor step of a draining container: the `k`-th monitor drains, the others stay. -/
lemma monitorEvent_of_draining {c : Container} (hc : Draining c) (k : Nat) (elapsed : Bool) :
    monitorEvent c k elapsed = { c with monitors := c.monitors.modify k Monitor.drain } := by
  unfold monitorEvent
  rw [List.modify_eq_set_getElem?]
  cases hk : c.monitors[k]? with
  | none => rfl
  | some m =>
    have hm : m.writes = false := hc.2 m (List.mem_of_getElem? hk)
    simp only [hc.1, monitorStep_stop hm]
    rfl

/-- The step lemma: a monitor step keeps a container draining. -/
theorem draining_monitorEvent {c : Container} (hc : Draining c) (k : Nat) (elapsed : Bool) :
    Draining (monitorEvent c k elapsed) := by
  rw [monitorEvent_of_draining hc, Draining, List.modify_eq_set_getElem?]
  refine ⟨hc.1, fun m hm => ?_⟩
  cases hk : c.monitors[k]? with
  | none =>
    rw [hk] at hm
    exact hc.2 m hm
  | some m₀ =>
    rw [hk] at hm
    rcases List.mem_or_eq_of_mem_set hm with hm | rfl
    · exact hc.2 m hm
    · exact writes_drain (hc.2 m₀ (List.mem_of_getElem? hk))

/-- The run lemma: after a stop that no monitor races, the status stays `MONITOR_STOP`
whatever the monitors do, in any interleaving. -/
theorem draining_run {c : Container} (hc : Draining c) (steps : List (Nat × Bool)) :
    Draining (run step c (steps.map fun p => .monitor p.1 p.2)).1 := by
  induction steps generalizing c with
  | nil => exact hc
  | cons p steps ih => exact ih (draining_monitorEvent hc p.1 p.2)

attribute [local simp] step in
/-- Over such a run, each monitor drains once per step of its own. -/
lemma run_monitors_of_draining {c : Container} (hc : Draining c) (steps : List (Nat × Bool))
    (k : Nat) :
    (run step c (steps.map fun p => .monitor p.1 p.2)).1.monitors[k]? =
      (c.monitors[k]?).map (Monitor.drain^[(steps.filter fun p => p.1 = k).length]) := by
  induction steps generalizing c with
  | nil => simp
  | cons p steps ih =>
    rw [List.map_cons, run_cons]
    simp only [step]
    rw [ih (draining_monitorEvent hc p.1 p.2), monitorEvent_of_draining hc]
    dsimp only
    by_cases hp : p.1 = k
    · rw [hp, List.getElem?_modify_eq, List.filter_cons_of_pos (by simpa using hp),
        List.length_cons, Function.iterate_succ]
      cases c.monitors[k]? <;> rfl
    · rw [List.getElem?_modify_ne _ _ hp, List.filter_cons_of_neg (by simpa using hp)]

/-- After a stop that no monitor races, every monitor leaves its loop once it has taken three
steps, however the steps of all monitors interleave. -/
theorem monitor_exits {c : Container} (hc : Draining c) (steps : List (Nat × Bool)) {k : Nat}
    {m : Monitor} (hk : c.monitors[k]? = some m) (hn : 3 ≤ (steps.filter fun p => p.1 = k).length) :
    (run step c (steps.map fun p => .monitor p.1 p.2)).1.monitors[k]? = some .exited := by
  rw [run_monitors_of_draining hc, hk, Option.map_some,
    drain_iterate (hc.2 m (List.mem_of_getElem? hk)) hn]

/-- A pause of a running container whose monitors are all where they only read starts a
drain. -/
theorem draining_pause {c : Container} (hrun : c.running = true) (hpaused : c.paused = false)
    (hm : ∀ m ∈ c.monitors, m.writes = false) : Draining (step c .pause).1 := by
  simp only [step, hrun, hpaused, Bool.not_false, Bool.and_self, if_true, updateHealthMonitor,
    Bool.not_true, Bool.and_false, Bool.false_eq_true, if_false, closeHealthCheckMonitor]
  exact ⟨rfl, hm⟩

/-! ## A pause and a resume back to back -/

/-- The container starts and its monitor comes to rest in `do_monitor_default`. A pause
writes `MONITOR_STOP`, the resume at once writes `MONITOR_INTERVAL` and creates a second
monitor. The first never reads `MONITOR_STOP`: it wakes, reads `MONITOR_INTERVAL` and probes,
and the second, once its interval has passed, probes too. -/
theorem updateHealthMonitor_two_monitors_probe :
    (run step Container.initial [.start, .monitor 0 false, .monitor 0 false, .pause, .resume,
      .monitor 0 false, .monitor 0 false, .monitor 1 false, .monitor 1 false, .monitor 1 true,
      .monitor 1 false]).1.monitors = [.probing, .probing] := by
  decide

end HealthCheck

end Isulad
