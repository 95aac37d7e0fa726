import Isulad.Services.Execution.Manager.HealthCheck
import Isulad.Framework.BoundedFifo
import Isulad.Cutils.Utils

/-!
# The health record and the probe results (`health_check.c`)

A container's health record, `defs_health`, holds a status, the streak of failed probes and a
log of the last `MAX_LOG_ENTRIES` probe results. `init_health_monitor` sets the status to
`starting` and the streak to 0, allocating the record if there is none; a record that is there
keeps its log. `handle_probe_result` then takes the probe results one by one. It drops a result
that arrives when the monitor is stopped. Otherwise it appends the result to the log
(`append_health_log`, which shifts out the oldest entry once the log is full), and on a success
sets the streak to 0 and the status to `healthy`. A failure goes to `handle_unhealthy_case`:
while the status is `starting`, a failure that began less than `start_period` after the
container started is not counted, and neither is one whose start time or the container's
cannot be read; any other failure bumps the streak, and the status becomes `unhealthy` once the
streak reaches the retries.

The abstract record `HealthHistory` keeps every result handled, the status, and how each result
since `init_health_monitor` counted; its streak is the number of counted failures since the last
success. Every call of `handle_probe_result` keeps the concrete record a view of it
(`probeStep_simulates`), so after `init_health_monitor` the status and the streak are the
abstract ones and the log holds the last five of the old log followed by the results handled
(`handleProbeResult_after_init`). The old log is not emptied, a result that reaches a stopped
monitor is not logged, and a failure whose times cannot be read is not counted
(`handleProbeResult_keeps_old_log`).

`to_unix_nanos_from_str` is a parameter here. The `stop_container` of `exit_on_unhealthy`, the
health events and `container_to_disk` leave the record as it is.
-/

namespace Isulad

namespace HealthCheck

open Simulation

/-! ## The health record -/

/-- The statuses `set_health_status` writes: `NO_HEALTH_CHECK`, `HEALTH_STARTING`, `HEALTHY`
and `UNHEALTHY`. -/
inductive HealthStatus
  | none
  | starting
  | healthy
  | unhealthy
  deriving DecidableEq, Repr

/-- `defs_health_log_element`, the result of one probe. -/
structure LogElement where
  start : String
  finish : String
  exitCode : Int
  output : Option String
  deriving DecidableEq, Repr

/-- `defs_health`. -/
structure DefsHealth where
  status : HealthStatus
  failingStreak : Int
  log : List LogElement
  deriving DecidableEq, Repr

/-- What the handling of a result reads of the container's `health_check` configuration. -/
structure HealthCheckConfig where
  retries : Int
  startPeriod : Int
  deriving DecidableEq, Repr

/-- `MAX_LOG_ENTRIES`. -/
def maxLogEntries : Nat := 5

/-- `DEFAULT_PROBE_RETRIES`. -/
def defaultProbeRetries : Int := 3

/-- `DEFAULT_START_PERIOD`. -/
def defaultStartPeriod : Int := 0 * Cutils.timeSecond

/-- `EXIT_STATUS_HEALTHY`. -/
def exitStatusHealthy : Int := 0

/-- `timeout_with_default`. -/
def timeoutWithDefault (configuredValue defaultValue : Int) : Int :=
  if configuredValue = 0 then defaultValue else configuredValue

/-! ## Handling a probe result -/

/-- `shift_and_store_log_result`, called on a full log: entries 1 to 4 move down one place and
the result is the fifth. -/
def shiftAndStoreLogResult (health : DefsHealth) (result : LogElement) : DefsHealth :=
  { health with log := (health.log.drop 1).take (maxLogEntries - 1) ++ [result] }

/-- `append_last_log_result`. -/
def appendLastLogResult (health : DefsHealth) (result : LogElement) : DefsHealth :=
  { health with log := health.log ++ [result] }

/-- `append_health_log`. -/
def appendHealthLog (health : DefsHealth) (result : LogElement) : DefsHealth :=
  if maxLogEntries ≤ health.log.length then shiftAndStoreLogResult health result
  else appendLastLogResult health result

/-- `handle_increment_streak`. -/
def handleIncrementStreak (health : DefsHealth) (retries : Int) : DefsHealth :=
  { health with
    failingStreak := health.failingStreak + 1
    status := if retries ≤ health.failingStreak + 1 then .unhealthy else health.status }

section Handling

-- `to_unix_nanos_from_str`, `none` where it fails, the container's `health_check`
-- configuration and its `started_at`
variable (toUnixNanos : String → Option Int) (config : HealthCheckConfig) (startedAt : String)

/-- `handle_unhealthy_case`: the record and the return code. -/
def handleUnhealthyCase (health : DefsHealth) (result : LogElement) (retries : Int) :
    DefsHealth × Int :=
  if health.status = .starting then
    let startPeriod := timeoutWithDefault config.startPeriod defaultStartPeriod
    match toUnixNanos startedAt, toUnixNanos result.start with
    | none, _ => (health, -1)
    | some _, none => (health, -1)
    | some first, some last =>
      if last - first < startPeriod then (health, 0) else (handleIncrementStreak health retries, 0)
  else (handleIncrementStreak health retries, 0)

/-- `handle_probe_result`, with the monitor status it reads: the record and the return code. -/
def handleProbeResult (monitorStatus : MonitorStatus) (health : DefsHealth)
    (result : LogElement) : DefsHealth × Int :=
  -- a probe cancelled while it waited on the lock: its result is dropped
  if monitorStatus = .stop then (health, 0)
  else
    let retries := if config.retries ≤ 0 then defaultProbeRetries else config.retries
    let health := appendHealthLog health result
    if result.exitCode = exitStatusHealthy then
      ({ health with failingStreak := 0, status := .healthy }, 0)
    else handleUnhealthyCase toUnixNanos config startedAt health result retries

/-- The record as `handle_probe_result` leaves it, given the monitor status and a result. -/
def probeStep (health : DefsHealth) (input : MonitorStatus × LogElement) : DefsHealth × Unit :=
  ((handleProbeResult toUnixNanos config startedAt input.1 health input.2).1, ())

end Handling

/-- The record's part of `close_health_check_monitor`. -/
def closeHealthCheckMonitorRecord (health : DefsHealth) : DefsHealth :=
  { health with status := .unhealthy }

/-- The record's part of `init_health_monitor` for a container with a probe. The
`stop_health_checks` it starts with marks a record that is there `unhealthy`; that record then
turns `starting` with a zero streak and keeps its log, and a missing one is allocated empty and
set `starting`. -/
def initHealthMonitorRecord (health : Option DefsHealth) : DefsHealth :=
  match health.map closeHealthCheckMonitorRecord with
  | some health => { health with status := .starting, failingStreak := 0 }
  | none => { status := .starting, failingStreak := 0, log := [] }

/-- The log a record had before `init_health_monitor`. -/
def oldLog (health : Option DefsHealth) : List LogElement := (health.map DefsHealth.log).getD []

/-! ## What appending to the log does -/

section Log

variable (health : DefsHealth) (result : LogElement)

@[simp] lemma appendHealthLog_status : (appendHealthLog health result).status = health.status := by
  unfold appendHealthLog
  split <;> rfl

@[simp] lemma appendHealthLog_failingStreak :
    (appendHealthLog health result).failingStreak = health.failingStreak := by
  unfold appendHealthLog
  split <;> rfl

/-- Within `MAX_LOG_ENTRIES` entries the log is a bounded FIFO buffer of that capacity. -/
lemma appendHealthLog_log {health : DefsHealth} (hlen : health.log.length ≤ maxLogEntries) :
    (appendHealthLog health result).log = BoundedFifo.push maxLogEntries health.log result := by
  unfold appendHealthLog BoundedFifo.push
  by_cases hfull : maxLogEntries ≤ health.log.length
  · -- a full log has exactly five entries, so the four after the first are its tail
    have htail : health.log.tail.length ≤ maxLogEntries - 1 := by
      rw [List.length_tail]
      omega
    rw [if_pos hfull, if_neg (by omega)]
    simp only [shiftAndStoreLogResult, List.drop_one, List.take_of_length_le htail]
  · rw [if_neg hfull, if_pos (by omega)]
    rfl

end Log

/-- `DEFAULT_START_PERIOD` is 0, so a start period of 0 is no start period. -/
lemma timeoutWithDefault_startPeriod (startPeriod : Int) :
    timeoutWithDefault startPeriod defaultStartPeriod = startPeriod := by
  unfold timeoutWithDefault
  split_ifs with h
  · rw [h]
    rfl
  · rfl

/-! ## The record as the health check means it -/

/-- How a handled result counted. -/
inductive Outcome
  | success
  | counted
  | exempt
  deriving DecidableEq, Repr

/-- The failures counted since the last success. -/
def countedSinceSuccess (outcomes : List Outcome) : Nat :=
  (outcomes.rtakeWhile (fun o => decide (o ≠ .success))).count .counted

@[simp] lemma countedSinceSuccess_nil : countedSinceSuccess [] = 0 := rfl

attribute [local simp] countedSinceSuccess in
@[simp] lemma countedSinceSuccess_append_success (outcomes : List Outcome) :
    countedSinceSuccess (outcomes ++ [.success]) = 0 := by
  rw [countedSinceSuccess, List.rtakeWhile_concat, if_neg (by decide)]
  rfl

@[simp] lemma countedSinceSuccess_append_counted (outcomes : List Outcome) :
    countedSinceSuccess (outcomes ++ [.counted]) = countedSinceSuccess outcomes + 1 := by
  rw [countedSinceSuccess, List.rtakeWhile_concat, if_pos (by decide), List.count_append]
  rfl

@[simp] lemma countedSinceSuccess_append_exempt (outcomes : List Outcome) :
    countedSinceSuccess (outcomes ++ [.exempt]) = countedSinceSuccess outcomes := by
  rw [countedSinceSuccess, List.rtakeWhile_concat, if_pos (by decide), List.count_append]
  rfl

/-- How a result counts, given the status and which failures are exempt. -/
def classify (exempt : HealthStatus → LogElement → Bool) (status : HealthStatus)
    (result : LogElement) : Outcome :=
  if result.exitCode = exitStatusHealthy then .success
  else if exempt status result then .exempt else .counted

/-- The health record as the health check means it: its status, every result handled (with the
log it had before `init_health_monitor` first), and how each result since then counted. -/
structure HealthHistory where
  status : HealthStatus
  results : List LogElement
  outcomes : List Outcome

/-- Handling a result: none on a stopped monitor; otherwise the result is kept, a success makes
the record `healthy`, a counted failure makes it `unhealthy` once the failures counted since the
last success reach `retries`, and nothing else changes the status. -/
def HealthHistory.handle (retries : Int) (exempt : HealthStatus → LogElement → Bool)
    (h : HealthHistory) (input : MonitorStatus × LogElement) : HealthHistory × Unit :=
  if input.1 = .stop then (h, ())
  else
    let outcome := classify exempt h.status input.2
    let outcomes := h.outcomes ++ [outcome]
    ({ status :=
        match outcome with
        | .success => .healthy
        | .counted => if retries ≤ (countedSinceSuccess outcomes : Int) then .unhealthy else h.status
        | .exempt => h.status
       results := h.results ++ [input.2]
       outcomes := outcomes }, ())

/-- The results handled: those that do not reach a stopped monitor. -/
def handled (inputs : List (MonitorStatus × LogElement)) : List LogElement :=
  (inputs.filter (fun input => decide (input.1 ≠ .stop))).map Prod.snd

attribute [local simp] HealthHistory.handle in
/-- The abstract record keeps every result handled. -/
lemma run_handle_results (retries : Int) (exempt : HealthStatus → LogElement → Bool)
    (h : HealthHistory) (inputs : List (MonitorStatus × LogElement)) :
    (run (HealthHistory.handle retries exempt) h inputs).1.results = h.results ++ handled inputs := by
  induction inputs generalizing h with
  | nil => simp [handled]
  | cons input inputs ih =>
    rw [run_cons, ih]
    by_cases hstop : input.1 = .stop
    · simp [HealthHistory.handle, handled, hstop]
    · simp [HealthHistory.handle, handled, hstop]

section Refinement

variable (toUnixNanos : String → Option Int) (config : HealthCheckConfig) (startedAt : String)

/-- `retries`, `DEFAULT_PROBE_RETRIES` where it is not positive. -/
def effectiveRetries : Int :=
  if config.retries ≤ 0 then defaultProbeRetries else config.retries

/-- The failures the start period excuses: while the status is `starting`, one that began less
than `start_period` after the container started, or one whose start or the container's cannot
be read. -/
def startPeriodExempt (status : HealthStatus) (result : LogElement) : Bool :=
  decide (status = .starting) &&
    match toUnixNanos startedAt, toUnixNanos result.start with
    | some first, some last => decide (last - first < config.startPeriod)
    | _, _ => true

/-- The record after `init_health_monitor` and then `handle_probe_result` on each input. -/
def probeRun (health : Option DefsHealth) (inputs : List (MonitorStatus × LogElement)) :
    DefsHealth :=
  (run (probeStep toUnixNanos config startedAt) (initHealthMonitorRecord health) inputs).1

/-- The abstract record after the same. -/
def historyRun (health : Option DefsHealth) (inputs : List (MonitorStatus × LogElement)) :
    HealthHistory :=
  (run (HealthHistory.handle (effectiveRetries config)
    (startPeriodExempt toUnixNanos config startedAt)) ⟨.starting, oldLog health, []⟩ inputs).1

/-- `handle_unhealthy_case` bumps the streak unless the start period excuses the failure. -/
lemma handleUnhealthyCase_fst (health : DefsHealth) (result : LogElement) (retries : Int) :
    (handleUnhealthyCase toUnixNanos config startedAt health result retries).1 =
      if startPeriodExempt toUnixNanos config startedAt health.status result then health
      else handleIncrementStreak health retries := by
  unfold handleUnhealthyCase startPeriodExempt
  by_cases hs : health.status = .starting
  · rw [if_pos hs, timeoutWithDefault_startPeriod]
    simp only [hs, decide_true, Bool.true_and]
    cases toUnixNanos startedAt with
    | none => rfl
    | some first =>
      cases toUnixNanos result.start with
      | none => rfl
      | some last =>
        by_cases hlt : last - first < config.startPeriod <;> simp [hlt]
  · simp [hs]

/-- `handle_probe_result` on a running monitor: the result is logged and, by how it counts, the
record turns `healthy`, stays as it was, or has its streak bumped. -/
lemma handleProbeResult_fst {monitorStatus : MonitorStatus} (hm : monitorStatus ≠ .stop)
    (health : DefsHealth) (result : LogElement) :
    (handleProbeResult toUnixNanos config startedAt monitorStatus health result).1 =
      match classify (startPeriodExempt toUnixNanos config startedAt) health.status result with
      | .success => { appendHealthLog health result with failingStreak := 0, status := .healthy }
      | .exempt => appendHealthLog health result
      | .counted => handleIncrementStreak (appendHealthLog health result) (effectiveRetries config) := by
  unfold handleProbeResult classify
  rw [if_neg hm]
  by_cases hok : result.exitCode = exitStatusHealthy
  · simp only [if_pos hok]
  · simp only [if_neg hok]
    rw [handleUnhealthyCase_fst, appendHealthLog_status]
    by_cases hex : startPeriodExempt toUnixNanos config startedAt health.status result = true
    · simp only [hex, if_true]
    · simp only [hex, if_false, Bool.false_eq_true, effectiveRetries]

/-- The concrete record shows the abstract one: the same status, the failures counted since the
last success as its streak, and the last `MAX_LOG_ENTRIES` results as its log. -/
def Shows (health : DefsHealth) (h : HealthHistory) : Prop :=
  health.status = h.status ∧ health.failingStreak = countedSinceSuccess h.outcomes ∧
    health.log = h.results.rtake maxLogEntries

lemma shows_init {health : Option DefsHealth}
    (hlen : ∀ old ∈ health, old.log.length ≤ maxLogEntries) :
    Shows (initHealthMonitorRecord health) ⟨.starting, oldLog health, []⟩ := by
  cases health with
  | none => exact ⟨rfl, rfl, rfl⟩
  | some old =>
    have hold : old.log.length ≤ maxLogEntries := hlen old rfl
    refine ⟨rfl, rfl, ?_⟩
    simp [initHealthMonitorRecord, closeHealthCheckMonitorRecord, oldLog, List.rtake,
      Nat.sub_eq_zero_of_le hold]

/-- Each call of `handle_probe_result` keeps the concrete record a view of the abstract one. -/
theorem probeStep_simulates :
    Simulates Shows (probeStep toUnixNanos config startedAt)
      (HealthHistory.handle (effectiveRetries config)
        (startPeriodExempt toUnixNanos config startedAt)) := by
  rintro health h ⟨monitorStatus, result⟩ ⟨hstatus, hstreak, hlog⟩
  refine ⟨?_, rfl⟩
  by_cases hm : monitorStatus = .stop
  · simp only [probeStep, handleProbeResult, HealthHistory.handle, if_pos hm]
    exact ⟨hstatus, hstreak, hlog⟩
  · have hlen : health.log.length ≤ maxLogEntries := by
      rw [hlog, List.rtake, List.length_drop]
      omega
    have hlog' : (appendHealthLog health result).log = (h.results ++ [result]).rtake maxLogEntries := by
      rw [appendHealthLog_log result hlen, hlog]
      exact BoundedFifo.push_drop (by decide) h.results result
    simp only [probeStep, HealthHistory.handle, if_neg hm]
    rw [handleProbeResult_fst toUnixNanos config startedAt hm, ← hstatus]
    cases classify (startPeriodExempt toUnixNanos config startedAt) health.status result with
    | success => exact ⟨rfl, by simp, hlog'⟩
    | exempt => exact ⟨by simp, by simp [hstreak], hlog'⟩
    | counted =>
      refine ⟨?_, ?_, hlog'⟩ <;> simp [handleIncrementStreak, hstreak]

end Refinement

/-- After `init_health_monitor` on a record of at most `MAX_LOG_ENTRIES` entries and
`handle_probe_result` on any inputs, the record's status is the abstract one, its streak is the
number of failures counted since the last success, and its log is the last `MAX_LOG_ENTRIES` of
the old log followed by the results handled. -/
theorem handleProbeResult_after_init (toUnixNanos : String → Option Int)
    (config : HealthCheckConfig) (startedAt : String) {health : Option DefsHealth}
    (hlen : ∀ old ∈ health, old.log.length ≤ maxLogEntries)
    (inputs : List (MonitorStatus × LogElement)) :
    (probeRun toUnixNanos config startedAt health inputs).status =
        (historyRun toUnixNanos config startedAt health inputs).status ∧
      (probeRun toUnixNanos config startedAt health inputs).failingStreak =
        countedSinceSuccess (historyRun toUnixNanos config startedAt health inputs).outcomes ∧
      (probeRun toUnixNanos config startedAt health inputs).log =
        (oldLog health ++ handled inputs).rtake maxLogEntries := by
  obtain ⟨⟨hstatus, hstreak, hlog⟩, -⟩ :=
    (probeStep_simulates toUnixNanos config startedAt).run (shows_init hlen) inputs
  refine ⟨hstatus, hstreak, ?_⟩
  rw [probeRun, hlog, run_handle_results]

/-- A probe from before a restart, and a passed and a failed one after it. -/
def oldProbe : LogElement := ⟨"t0", "t0", 0, none⟩
def passedProbe : LogElement := ⟨"t1", "t1", 0, none⟩
def failedProbe : LogElement := ⟨"t1", "t1", 1, none⟩

/-- A record that a restarted container brings to `init_health_monitor`. -/
def restartedHealth : DefsHealth := ⟨.healthy, 0, [oldProbe]⟩

theorem handleProbeResult_after_init_restarted :
    (∀ old ∈ some restartedHealth, old.log.length ≤ maxLogEntries) ∧
      ((probeRun (fun _ => some 0) ⟨1, 0⟩ "" (some restartedHealth)
          [(.interval, failedProbe), (.stop, passedProbe)]).status =
        (historyRun (fun _ => some 0) ⟨1, 0⟩ "" (some restartedHealth)
          [(.interval, failedProbe), (.stop, passedProbe)]).status ∧
      (probeRun (fun _ => some 0) ⟨1, 0⟩ "" (some restartedHealth)
          [(.interval, failedProbe), (.stop, passedProbe)]).failingStreak =
        countedSinceSuccess (historyRun (fun _ => some 0) ⟨1, 0⟩ "" (some restartedHealth)
          [(.interval, failedProbe), (.stop, passedProbe)]).outcomes ∧
      (probeRun (fun _ => some 0) ⟨1, 0⟩ "" (some restartedHealth)
          [(.interval, failedProbe), (.stop, passedProbe)]).log =
        (oldLog (some restartedHealth) ++
          handled [(.interval, failedProbe), (.stop, passedProbe)]).rtake maxLogEntries) := by
  have hlen : ∀ old ∈ some restartedHealth, old.log.length ≤ maxLogEntries := by
    simp [restartedHealth, maxLogEntries]
  exact ⟨hlen, handleProbeResult_after_init _ _ _ hlen _⟩

/-- After a restart the log still holds the probe from before it, so one result handled leaves
two entries; a result that reaches a stopped monitor is not logged; and a failure whose start
cannot be read is not counted, even with no start period and one retry. -/
theorem handleProbeResult_keeps_old_log :
    (probeRun (fun _ => some 0) ⟨0, 0⟩ "" (some restartedHealth) [(.interval, passedProbe)]).log =
        [oldProbe, passedProbe] ∧
      (probeRun (fun _ => some 0) ⟨0, 0⟩ "" none [(.stop, passedProbe)]).log = [] ∧
      (probeRun (fun _ => none) ⟨1, 0⟩ "" none [(.interval, failedProbe)]).failingStreak = 0 ∧
      (probeRun (fun _ => none) ⟨1, 0⟩ "" none [(.interval, failedProbe)]).status = .starting := by
  refine ⟨rfl, rfl, rfl, rfl⟩

end HealthCheck

end Isulad
