import Isulad.Cutils.Utils
import Isulad.Framework.Simulation
import Mathlib

/-!
# The restart manager (`restartmanager.c`)

Each container has a restart manager that decides, when the container exits, whether to
start it again and after how long. `restart_manager_should_restart` counts consecutive failed
exits, and moves the delay along a back-off schedule: `100 ms` on the first call, doubled on
each later one up to `1 min`, and back to `100 ms` after a run of ten seconds or more. The
policy decides from the exit code, the manual-stop flag and, for `on-failure`, the failure
count against `maximum_retry_count`.

A call on a manager that has been canceled (`restart_manager_cancel`, which
`container_exit_on_next` calls when the user stops the container) or whose policy has no name
skips the bookkeeping: it grants nothing and changes nothing (`restartManagerShouldRestart_skip`).

`backoff j` is the schedule, the delay after `j` calls since the last long run. Every call
keeps the manager on it (`onSchedule_step`), so every manager a run reaches has a timeout of 0
or one of the schedule's values (`onSchedule_of_reachable`), and a call that does the bookkeeping leaves
a valid one (`restartManagerShouldRestart_valid`). Under `on-failure` with `N > 0`, a run of
failed exits from failure count `f0` is granted restarts exactly while the count is at most
`N` (`run_failures`).
-/

namespace Isulad

namespace Restart

open Simulation

/-- `backoffMultipulier`, `defaultTimeout` and `maxRestartTimeout`, in nanoseconds. -/
def backoffMultipulier : Int := 2
def defaultTimeout : Int := 100 * Cutils.timeMilli
def maxRestartTimeout : Int := Cutils.timeMinute

/-- `host_config_restart_policy`: the policy's name (`NULL` is `none`) and its retry bound. -/
structure RestartPolicy where
  name : Option String
  maximumRetryCount : Int
  deriving DecidableEq, Repr

/-- `restart_manager_t`, with the fields the restart decision reads and writes. -/
structure RestartManager where
  policy : RestartPolicy
  failureCount : Int
  timeout : Int
  canceled : Bool
  deriving DecidableEq, Repr

/-- `restart_manager_new(policy, failure_count)`: a zeroed manager with a copy of the policy,
whose name is `NULL` when there is no policy. -/
def restartManagerNew (policy : Option RestartPolicy) (failureCount : Int) : RestartManager :=
  { policy := policy.getD ⟨none, 0⟩, failureCount, timeout := 0, canceled := false }

/-- `restart_manager_set_policy(rm, policy)`. -/
def restartManagerSetPolicy (rm : RestartManager) (policy : RestartPolicy) : RestartManager :=
  { rm with policy }

/-- `restart_manager_cancel(rm)`. -/
def restartManagerCancel (rm : RestartManager) : RestartManager :=
  { rm with canceled := true }

/-- `restart_manager_set_items(rm, exit_code, exec_duration)`. -/
def restartManagerSetItems (rm : RestartManager) (exitCode : UInt32) (execDuration : Int) :
    RestartManager :=
  let failureCount := if exitCode ≠ 0 then rm.failureCount + 1 else 0
  let timeout := if execDuration ≥ 10 then 0 else rm.timeout
  let timeout :=
    if timeout = 0 then defaultTimeout
    else if timeout < maxRestartTimeout then timeout * backoffMultipulier
    else timeout
  let timeout := if timeout > maxRestartTimeout then maxRestartTimeout else timeout
  { rm with failureCount, timeout }

/-- `should_be_restart(rm, exit_code, has_been_manually_stopped)`. -/
def shouldBeRestart (rm : RestartManager) (exitCode : UInt32) (hasBeenManuallyStopped : Bool) :
    Bool :=
  if rm.policy.name = some "always" then true
  else if rm.policy.name = some "unless-stopped" ∧ !hasBeenManuallyStopped then true
  else if rm.policy.name = some "on-failure" then
    if rm.policy.maximumRetryCount = 0 ∨ rm.failureCount ≤ rm.policy.maximumRetryCount then
      exitCode ≠ 0
    else false
  else if rm.policy.name = some "on-reboot" then exitCode = 129
  else false

/-- `restart_manager_should_restart(id, exit_code, has_been_manually_stopped, exec_duration,
&timeout)` on the container's manager: whether to restart, the timeout written when it does,
and the manager after the call. -/
def restartManagerShouldRestart (rm : RestartManager) (exitCode : UInt32)
    (hasBeenManuallyStopped : Bool) (execDuration : Int) : Bool × Option Int × RestartManager :=
  if rm.policy.name = none then (false, none, rm)
  else if rm.canceled then (false, none, rm)
  else
    let rm := restartManagerSetItems rm exitCode execDuration
    let restart := shouldBeRestart rm exitCode hasBeenManuallyStopped
    (restart, if restart then some rm.timeout else none, rm)

/-- The calls that act on a restart manager. -/
inductive Call
  /-- `restart_manager_should_restart` when the container exits. -/
  | shouldRestart (exitCode : UInt32) (hasBeenManuallyStopped : Bool) (execDuration : Int)
  /-- `restart_manager_set_policy` on an update of the container. -/
  | setPolicy (policy : RestartPolicy)
  /-- `restart_manager_cancel` when the container is stopped. -/
  | cancel
  deriving DecidableEq, Repr

/-- One call on the manager, under its lock: the manager after it and, for
`restart_manager_should_restart`, the decision and the timeout written. -/
def restartManagerStep (rm : RestartManager) : Call → RestartManager × Option (Bool × Option Int)
  | .shouldRestart exitCode stopped duration =>
    let r := restartManagerShouldRestart rm exitCode stopped duration
    (r.2.2, some (r.1, r.2.1))
  | .setPolicy policy => (restartManagerSetPolicy rm policy, none)
  | .cancel => (restartManagerCancel rm, none)

/-! ## The back-off schedule -/

/-- The delay after `j` calls since the last run of ten seconds or more: none before the first,
then `defaultTimeout` doubled on each call, up to `maxRestartTimeout`. -/
def backoff : Nat → Int
  | 0 => 0
  | j + 1 => min (defaultTimeout * 2 ^ j) maxRestartTimeout

@[simp] lemma backoff_zero : backoff 0 = 0 := rfl

@[simp] lemma backoff_succ (j : Nat) :
    backoff (j + 1) = min (defaultTimeout * 2 ^ j) maxRestartTimeout := rfl

/-- The restart delays of the back-off: `100 ms` doubled at most nine times, or the cap of
`1 min`. -/
def ValidTimeout (t : Int) : Prop :=
  (∃ k ≤ 9, t = defaultTimeout * 2 ^ k) ∨ t = maxRestartTimeout

/-- A manager's timeout is on the schedule. -/
def OnSchedule (rm : RestartManager) : Prop := ∃ j, rm.timeout = backoff j

lemma defaultTimeout_pos : 0 < defaultTimeout := by decide

lemma defaultTimeout_le_max : defaultTimeout ≤ maxRestartTimeout := by decide

/-- Past nine doublings the delay is over a minute. -/
lemma max_lt_of_nine_lt {k : Nat} (hk : 9 < k) : maxRestartTimeout < defaultTimeout * 2 ^ k := by
  have hpow : (2 : Int) ^ 10 ≤ 2 ^ k := pow_le_pow_right₀ (by norm_num) hk
  calc maxRestartTimeout < defaultTimeout * 2 ^ 10 := by decide
    _ ≤ defaultTimeout * 2 ^ k := mul_le_mul_of_nonneg_left hpow (le_of_lt defaultTimeout_pos)

lemma validTimeout_backoff_succ (j : Nat) : ValidTimeout (backoff (j + 1)) := by
  rw [backoff_succ]
  by_cases h : defaultTimeout * 2 ^ j ≤ maxRestartTimeout
  · have hj : j ≤ 9 := by
      by_contra hj
      exact absurd h (not_le.2 (max_lt_of_nine_lt (by omega)))
    exact Or.inl ⟨j, hj, min_eq_left h⟩
  · exact Or.inr (min_eq_right (le_of_lt (not_le.1 h)))

/-- Every valid timeout is on the schedule, past its start. -/
lemma exists_backoff_of_valid {t : Int} (h : ValidTimeout t) : ∃ j, t = backoff (j + 1) := by
  rcases h with ⟨k, hk, rfl⟩ | rfl
  · refine ⟨k, ?_⟩
    have hle : defaultTimeout * 2 ^ k ≤ maxRestartTimeout := by
      have hpow : (2 : Int) ^ k ≤ 2 ^ 9 := pow_le_pow_right₀ (by norm_num) hk
      calc defaultTimeout * 2 ^ k ≤ defaultTimeout * 2 ^ 9 :=
            mul_le_mul_of_nonneg_left hpow (le_of_lt defaultTimeout_pos)
        _ ≤ maxRestartTimeout := by decide
    rw [backoff_succ, min_eq_left hle]
  · refine ⟨10, ?_⟩
    rw [backoff_succ, min_eq_right (le_of_lt (max_lt_of_nine_lt (by norm_num)))]

/-! ## One call -/

/-- The streak after a call that does the bookkeeping: one after a long run, else one more. -/
def nextStreak (j : Nat) (execDuration : Int) : Nat := if execDuration ≥ 10 then 1 else j + 1

attribute [local simp] restartManagerSetItems in
/-- `restart_manager_set_items` moves the timeout one place along the schedule, or back to its
first place after a long run. -/
lemma restartManagerSetItems_timeout {rm : RestartManager} {j : Nat} (h : rm.timeout = backoff j)
    (exitCode : UInt32) (execDuration : Int) :
    (restartManagerSetItems rm exitCode execDuration).timeout = backoff (nextStreak j execDuration) := by
  have hdef := defaultTimeout_pos
  have hmax := defaultTimeout_le_max
  unfold nextStreak
  simp only [restartManagerSetItems]
  by_cases hlong : execDuration ≥ 10
  · rw [if_pos hlong, if_pos hlong, if_pos rfl, if_neg (not_lt.2 hmax), backoff_succ,
      pow_zero, mul_one, min_eq_left hmax]
  · rw [if_neg hlong, if_neg hlong, h]
    cases j with
    | zero =>
      rw [backoff_zero, if_pos rfl, if_neg (not_lt.2 hmax), backoff_succ, pow_zero, mul_one,
        min_eq_left hmax]
    | succ k =>
      -- the delay so far is `p = defaultTimeout * 2 ^ k` capped at a minute
      have hp : 0 < defaultTimeout * 2 ^ k := mul_pos hdef (pow_pos (by norm_num) k)
      have hnext : defaultTimeout * 2 ^ (k + 1) = defaultTimeout * 2 ^ k * backoffMultipulier := by
        rw [pow_succ, mul_assoc]
        rfl
      rw [backoff_succ, backoff_succ, hnext]
      generalize defaultTimeout * 2 ^ k = p at hp ⊢
      have hmul : p * backoffMultipulier = 2 * p := by
        rw [mul_comm]
        rfl
      have hp0 : ¬ p = 0 := by omega
      by_cases hlt : p < maxRestartTimeout
      · rw [min_eq_left (le_of_lt hlt), if_neg hp0, if_pos hlt, hmul]
        by_cases hcap : 2 * p > maxRestartTimeout
        · rw [if_pos hcap, min_eq_right (by omega)]
        · rw [if_neg hcap, min_eq_left (by omega)]
      · -- already at the cap, where it stays
        have hM : ¬ maxRestartTimeout = 0 := by decide
        rw [min_eq_right (not_lt.1 hlt), if_neg hM, if_neg (lt_irrefl _), if_neg (lt_irrefl _),
          hmul, min_eq_right (by omega)]

/-- A call on a canceled manager, or on one whose policy has no name, grants nothing and changes
nothing. -/
lemma restartManagerShouldRestart_skip {rm : RestartManager}
    (h : rm.policy.name = none ∨ rm.canceled = true) (exitCode : UInt32) (stopped : Bool)
    (execDuration : Int) :
    restartManagerShouldRestart rm exitCode stopped execDuration = (false, none, rm) := by
  unfold restartManagerShouldRestart
  rcases h with h | h
  · rw [if_pos h]
  · by_cases hn : rm.policy.name = none
    · rw [if_pos hn]
    · rw [if_neg hn, if_pos h]

/-- A call that does the bookkeeping. -/
lemma restartManagerShouldRestart_of_active {rm : RestartManager} (hn : rm.policy.name ≠ none)
    (hc : rm.canceled = false) (exitCode : UInt32) (stopped : Bool) (execDuration : Int) :
    restartManagerShouldRestart rm exitCode stopped execDuration =
      (shouldBeRestart (restartManagerSetItems rm exitCode execDuration) exitCode stopped,
        if shouldBeRestart (restartManagerSetItems rm exitCode execDuration) exitCode stopped then
          some (restartManagerSetItems rm exitCode execDuration).timeout
        else none,
        restartManagerSetItems rm exitCode execDuration) := by
  unfold restartManagerShouldRestart
  rw [if_neg hn, if_neg (by simp [hc])]

attribute [local simp] restartManagerStep in
/-- A call leaves the timeout as it was, or sets it as `restart_manager_set_items` does. -/
lemma restartManagerStep_timeout (rm : RestartManager) (c : Call) :
    (restartManagerStep rm c).1.timeout = rm.timeout ∨ ∃ exitCode execDuration,
      (restartManagerStep rm c).1.timeout = (restartManagerSetItems rm exitCode execDuration).timeout := by
  cases c with
  | shouldRestart exitCode stopped duration =>
    by_cases hskip : rm.policy.name = none ∨ rm.canceled = true
    · left
      simp [restartManagerStep, restartManagerShouldRestart_skip hskip]
    · have hn : rm.policy.name ≠ none := fun h => hskip (Or.inl h)
      have hc : rm.canceled = false := by simpa using fun h => hskip (Or.inr h)
      right
      refine ⟨exitCode, duration, ?_⟩
      simp only [restartManagerStep, restartManagerShouldRestart_of_active hn hc]
  | setPolicy policy => exact Or.inl rfl
  | cancel => exact Or.inl rfl

lemma validTimeout_backoff_nextStreak (j : Nat) (execDuration : Int) :
    ValidTimeout (backoff (nextStreak j execDuration)) := by
  unfold nextStreak
  split_ifs
  · exact validTimeout_backoff_succ 0
  · exact validTimeout_backoff_succ j

/-- Every call keeps the manager on the schedule. -/
theorem onSchedule_step {rm : RestartManager} (h : OnSchedule rm) (c : Call) :
    OnSchedule (restartManagerStep rm c).1 := by
  obtain ⟨j, hj⟩ := h
  rcases restartManagerStep_timeout rm c with hkeep | ⟨exitCode, duration, hset⟩
  · exact ⟨j, hkeep.trans hj⟩
  · exact ⟨nextStreak j duration, hset.trans (restartManagerSetItems_timeout hj exitCode duration)⟩

lemma onSchedule_new (policy : Option RestartPolicy) (failureCount : Int) :
    OnSchedule (restartManagerNew policy failureCount) := ⟨0, rfl⟩

/-- A valid timeout stays valid: the schedule never returns to its start. -/
theorem validTimeout_step {rm : RestartManager} (h : ValidTimeout rm.timeout) (c : Call) :
    ValidTimeout (restartManagerStep rm c).1.timeout := by
  obtain ⟨j, hj⟩ := exists_backoff_of_valid h
  rcases restartManagerStep_timeout rm c with hkeep | ⟨exitCode, duration, hset⟩
  · rw [hkeep]
    exact h
  · rw [hset, restartManagerSetItems_timeout hj exitCode duration]
    exact validTimeout_backoff_nextStreak _ duration

/-- Every manager a run from `restart_manager_new` reaches is on the schedule. -/
theorem onSchedule_of_reachable {policy : Option RestartPolicy} {f0 : Int} {rm : RestartManager}
    (h : Reachable restartManagerStep (restartManagerNew policy f0) rm) : OnSchedule rm :=
  h.invariant (onSchedule_new policy f0) fun _ c hs => onSchedule_step hs c

/-- A timeout on the schedule is 0 or a valid one. -/
lemma timeoutOk_of_onSchedule {rm : RestartManager} (h : OnSchedule rm) :
    rm.timeout = 0 ∨ ValidTimeout rm.timeout := by
  obtain ⟨j, hj⟩ := h
  rw [hj]
  cases j with
  | zero => exact Or.inl rfl
  | succ j => exact Or.inr (validTimeout_backoff_succ j)

/-- A call that does the bookkeeping leaves a valid timeout, and a restart it grants reports
it. -/
theorem restartManagerShouldRestart_valid {rm : RestartManager} (h : OnSchedule rm)
    (hn : rm.policy.name ≠ none) (hc : rm.canceled = false) (exitCode : UInt32) (stopped : Bool)
    (execDuration : Int) :
    ValidTimeout (restartManagerShouldRestart rm exitCode stopped execDuration).2.2.timeout ∧
      ((restartManagerShouldRestart rm exitCode stopped execDuration).1 = true →
        (restartManagerShouldRestart rm exitCode stopped execDuration).2.1 =
          some (restartManagerShouldRestart rm exitCode stopped execDuration).2.2.timeout) := by
  obtain ⟨j, hj⟩ := h
  rw [restartManagerShouldRestart_of_active hn hc]
  refine ⟨?_, fun hr => by simp only at hr ⊢; rw [if_pos hr]⟩
  simp only
  rw [restartManagerSetItems_timeout hj exitCode execDuration]
  exact validTimeout_backoff_nextStreak j execDuration

/-! ## Retries under `on-failure` -/

section OnFailure

variable {N : Int}

/-- The `on-failure` policy with retry bound `N`. -/
def onFailure (N : Int) : RestartPolicy := ⟨some "on-failure", N⟩

/-- The call made for an exit. -/
def exitCall (e : UInt32 × Bool × Int) : Call := .shouldRestart e.1 e.2.1 e.2.2

/-- One failed exit under `on-failure` with `N > 0`: the count goes up, and the restart is
granted when the new count is at most `N`. -/
lemma restartManagerStep_failure {rm : RestartManager} (hp : rm.policy = onFailure N) (hN : 0 < N)
    (hc : rm.canceled = false) {e : UInt32 × Bool × Int} (he : e.1 ≠ 0) :
    (restartManagerStep rm (exitCall e)).1 =
        { restartManagerSetItems rm e.1 e.2.2 with failureCount := rm.failureCount + 1 } ∧
      ((restartManagerStep rm (exitCall e)).2.map Prod.fst) =
        some (decide (rm.failureCount + 1 ≤ N)) := by
  have hn : rm.policy.name ≠ none := by simp [hp, onFailure]
  have hcount : (restartManagerSetItems rm e.1 e.2.2).failureCount = rm.failureCount + 1 := by
    simp [restartManagerSetItems, he]
  refine ⟨?_, ?_⟩
  · simp only [restartManagerStep, exitCall, restartManagerShouldRestart_of_active hn hc]
    rw [← hcount]
  · simp only [restartManagerStep, exitCall, restartManagerShouldRestart_of_active hn hc,
      Option.map_some]
    have hpol : (restartManagerSetItems rm e.1 e.2.2).policy = onFailure N := by
      simp [restartManagerSetItems, hp]
    unfold shouldBeRestart
    rw [hpol, hcount]
    simp [onFailure, he, Int.ne_of_gt hN]

/-- A run of failed exits under `on-failure` with `N > 0` from failure count `f0`: the `i`-th
is granted a restart exactly when `f0 + i ≤ N`. -/
theorem run_failures {rm : RestartManager} (hp : rm.policy = onFailure N) (hN : 0 < N)
    (hc : rm.canceled = false) (exits : List (UInt32 × Bool × Int)) (he : ∀ e ∈ exits, e.1 ≠ 0) :
    (run restartManagerStep rm (exits.map exitCall)).2.map (Option.map Prod.fst) =
      (List.range exits.length).map fun i : Nat =>
        some (decide (rm.failureCount + ((i : Int) + 1) ≤ N)) := by
  -- induction on the exits, the manager and its failure count moving with them
  induction exits generalizing rm with
  | nil => rfl
  | cons e es ih =>
    obtain ⟨hstate, hout⟩ :=
      restartManagerStep_failure hp hN hc (he e List.mem_cons_self)
    have hp' : (restartManagerStep rm (exitCall e)).1.policy = onFailure N := by
      rw [hstate]
      simpa [restartManagerSetItems] using hp
    have hc' : (restartManagerStep rm (exitCall e)).1.canceled = false := by
      rw [hstate]
      simpa [restartManagerSetItems] using hc
    have hf' : (restartManagerStep rm (exitCall e)).1.failureCount = rm.failureCount + 1 := by
      rw [hstate]
    rw [List.map_cons, run_cons, List.map_cons, hout,
      ih hp' hc' (fun x hx => he x (List.mem_cons_of_mem e hx)), hf', List.length_cons,
      List.range_succ_eq_map, List.map_cons, List.map_map]
    refine List.cons_eq_cons.mpr ⟨by simp, ?_⟩
    apply List.map_congr_left
    intro i _
    simp only [Function.comp_apply, Nat.succ_eq_add_one, Nat.cast_add, Nat.cast_one]
    congr 3
    ring

end OnFailure

/-- Canceled before the container's first exit, a manager with policy `on-failure` refuses the
restart and keeps a timeout of 0; so does a manager without a policy. -/
theorem restartManager_canceled_grants_nothing :
    run restartManagerStep (restartManagerNew (some (onFailure 3)) 0)
        [.cancel, .shouldRestart 1 false 0] =
      (⟨onFailure 3, 0, 0, true⟩, [none, some (false, none)]) ∧
    run restartManagerStep (restartManagerNew none 0) [.shouldRestart 1 false 0] =
      (⟨⟨none, 0⟩, 0, 0, false⟩, [some (false, none)]) := by
  refine ⟨rfl, rfl⟩

/-- The timeout is 0 until a call does the bookkeeping and valid from then on, every granted
restart reports it, a call on a canceled or unnamed manager grants nothing and changes nothing,
and under `on-failure` with `N > 0` the `i`-th of a run of failures is granted a restart
exactly when `f0 + i ≤ N`. -/
theorem restartManager_backoff_and_retries :
    (∀ (policy : Option RestartPolicy) (f0 : Int) (rm : RestartManager),
      Reachable restartManagerStep (restartManagerNew policy f0) rm →
        rm.timeout = 0 ∨ ValidTimeout rm.timeout) ∧
    (∀ (rm : RestartManager) (c : Call), ValidTimeout rm.timeout →
      ValidTimeout (restartManagerStep rm c).1.timeout) ∧
    (∀ (policy : Option RestartPolicy) (f0 : Int) (rm : RestartManager) (exitCode : UInt32)
        (stopped : Bool) (execDuration : Int),
      Reachable restartManagerStep (restartManagerNew policy f0) rm →
        rm.policy.name ≠ none → rm.canceled = false →
        ValidTimeout (restartManagerShouldRestart rm exitCode stopped execDuration).2.2.timeout ∧
        ((restartManagerShouldRestart rm exitCode stopped execDuration).1 = true →
          (restartManagerShouldRestart rm exitCode stopped execDuration).2.1 =
            some (restartManagerShouldRestart rm exitCode stopped execDuration).2.2.timeout)) ∧
    (∀ (rm : RestartManager) (exitCode : UInt32) (stopped : Bool) (execDuration : Int),
      rm.policy.name = none ∨ rm.canceled = true →
        restartManagerShouldRestart rm exitCode stopped execDuration = (false, none, rm)) ∧
    (∀ (rm : RestartManager) (N : Int) (exits : List (UInt32 × Bool × Int)),
      rm.policy = onFailure N → 0 < N → rm.canceled = false → (∀ e ∈ exits, e.1 ≠ 0) →
        (run restartManagerStep rm (exits.map exitCall)).2.map (Option.map Prod.fst) =
          (List.range exits.length).map fun i : Nat =>
            some (decide (rm.failureCount + ((i : Int) + 1) ≤ N))) := by
  refine ⟨?_, ?_, ?_, ?_, ?_⟩
  · intro policy f0 rm h
    exact timeoutOk_of_onSchedule (onSchedule_of_reachable h)
  · intro rm c h
    exact validTimeout_step h c
  · intro policy f0 rm exitCode stopped execDuration h hn hc
    exact restartManagerShouldRestart_valid (onSchedule_of_reachable h) hn hc exitCode stopped
      execDuration
  · intro rm exitCode stopped execDuration h
    exact restartManagerShouldRestart_skip h exitCode stopped execDuration
  · intro rm N exits hp hN hc he
    exact run_failures hp hN hc exits he

/-- Under `on-failure` with two retries, the first two of three failures are granted a
restart. -/
theorem restartManager_backoff_and_retries_twice :
    (run restartManagerStep (restartManagerNew (some (onFailure 2)) 0)
        ([(1, false, 0), (1, false, 0), (1, false, 0)].map exitCall)).2.map (Option.map Prod.fst) =
      [some true, some true, some false] := by
  rw [restartManager_backoff_and_retries.2.2.2.2 _ 2 _ rfl (by decide) rfl (by decide)]
  rfl

end Restart

end Isulad
