import Isulad.Framework.PartialMap
import Isulad.Framework.Simulation
import Mathlib.Data.List.Basic

/-!
# MCS ranges of container labels (`selinux_label.c`)

`init_label` gives a container its process and mount labels. `container_label` reads the
base labels, and `update_process_and_mount_label_range` gives them a fresh MCS range from
`uniq_mcs`: draw two distinct values below 1024 from `/dev/urandom`, compose `s0:cA,cB`
(smaller first), and try `add_mcs_to_global_list`, which tests the range against
`g_selinux_state->mcs_list` under the read lock (`is_mcs_already_exists`) and then records it
under the write lock (`mcs_add`), drawing again when it was present. `init_label` then
releases the process label's range (`release_label`, `mcs_delete`), applies a `level:` option,
and reserves the final label's range (`reserve_label`, `mcs_add`).

The model runs any number of `init_label` calls, each a thread whose steps are these
critical sections, in any interleaving, with the values each draw reads chosen by the
environment; a container may be removed at any time after its call returns. Labels are kept
as their ranges.

`mcs_delete` calls `map_replace`, as `mcs_add` does: a range once recorded stays recorded
(`recorded_run`), so every range a container holds is recorded (`held_recorded`), but nothing
is ever released. And the test and the record are two critical sections: two calls that draw
the same pair both find it absent and both record it, and two containers run with one range
(`uniqMcs_race_gives_one_range_twice`).
-/

namespace Isulad

namespace SelinuxLabel

open PartialMap Simulation

/-! ## The list of ranges in use -/

/-- `g_selinux_state->mcs_list`: each recorded range, with the value `true`. -/
abbrev McsList := String → Option Bool

/-- `is_mcs_already_exists(mcs)`. -/
def isMcsAlreadyExists (mcsList : McsList) (mcs : String) : Bool := (mcsList mcs).isSome

/-- `mcs_add(mcs)`: `map_replace`. -/
def mcsAdd (mcsList : McsList) (mcs : String) : McsList × Bool := replace mcsList mcs true

/-- `mcs_delete(mcs)`: `map_replace` as well. -/
def mcsDelete (mcsList : McsList) (mcs : String) : McsList × Bool := replace mcsList mcs true

/-- `snprintf(mcs, len, "s0:c%d,c%d", c1, c2)`. -/
def mcsFormat (c1 c2 : Nat) : String := "s0:c" ++ toString c1 ++ ",c" ++ toString c2

/-- `get_random_value(range, &val)`: the number read, modulo `range`. -/
def getRandomValue (range num : Nat) : Nat := num % range

/-- The `range` `update_process_and_mount_label_range` gives `uniq_mcs`. -/
def uniqMcsRange : Nat := 1024

/-- `release_label` records its range again instead of removing it. -/
theorem mcsDelete_keeps (mcsList : McsList) (mcs : String) :
    (mcsDelete mcsList mcs).1 mcs = some true := by
  simp [mcsDelete]

/-- What is recorded stays recorded through `mcs_add` and `mcs_delete`. -/
lemma replace_keeps {mcsList : McsList} {r : String} (hr : mcsList r = some true)
    (mcs : String) : (replace mcsList mcs true).1 r = some true := by
  by_cases h : r = mcs
  · subst h
    simp
  · simp [Function.update_of_ne h, hr]

/-! ## Calls of `init_label` -/

/-- Where a call of `init_label` is; `level` is the range a `level:` option asks for. -/
inductive Thread where
  /-- At the top of `uniq_mcs`'s loop. -/
  | drawing (level : Option String)
  /-- About to test whether the composed range is recorded. -/
  | checking (level : Option String) (mcs : String)
  /-- Found the range absent; about to record it. -/
  | adding (level : Option String) (mcs : String)
  /-- `uniq_mcs` gave `mcs`; about to release the process label's range. -/
  | releasing (level : Option String) (mcs : String)
  /-- About to reserve the final label's range. -/
  | reserving (range : String)
  /-- `init_label` returned: the container runs with this range. -/
  | holding (range : String)
  /-- The container was removed; nothing releases its range. -/
  | gone
  deriving DecidableEq, Repr

/-- The ranges in use, and the calls of `init_label` in the order they began. -/
structure System where
  mcsList : McsList
  threads : List Thread

def init : System := ⟨fun _ => none, []⟩

/-- One critical section of a call at `t`; `num1` and `num2` are what a draw reads. -/
def threadStep (mcsList : McsList) (num1 num2 : Nat) : Thread → McsList × Thread
  | .drawing level =>
    let c1 := getRandomValue uniqMcsRange num1
    let c2 := getRandomValue uniqMcsRange num2
    if c1 = c2 then (mcsList, .drawing level)
    else (mcsList, .checking level (mcsFormat (min c1 c2) (max c1 c2)))
  | .checking level mcs =>
    if isMcsAlreadyExists mcsList mcs then (mcsList, .drawing level)
    else (mcsList, .adding level mcs)
  | .adding level mcs =>
    let r := mcsAdd mcsList mcs
    if r.2 then (r.1, .releasing level mcs) else (r.1, .drawing level)
  | .releasing level mcs => ((mcsDelete mcsList mcs).1, .reserving (level.getD mcs))
  | .reserving range => ((mcsAdd mcsList range).1, .holding range)
  | .holding range => (mcsList, .holding range)
  | .gone => (mcsList, .gone)

/-- What may happen next: a new call of `init_label`, the next step of the `k`-th call, or
the removal of its container. -/
inductive Event where
  | initLabel (level : Option String)
  | step (k : Nat) (num1 num2 : Nat)
  | remove (k : Nat)

def step (s : System) : Event → System × Unit
  | .initLabel level => ({ s with threads := s.threads ++ [.drawing level] }, ())
  | .step k num1 num2 =>
    match s.threads[k]? with
    | none => (s, ())
    | some t =>
      let r := threadStep s.mcsList num1 num2 t
      (⟨r.1, s.threads.set k r.2⟩, ())
  | .remove k =>
    match s.threads[k]? with
    | some (.holding _) => ({ s with threads := s.threads.set k .gone }, ())
    | _ => (s, ())

/-! ## Nothing is ever released -/

attribute [local simp] threadStep in
lemma threadStep_keeps {mcsList : McsList} {r : String} (hr : mcsList r = some true)
    (num1 num2 : Nat) (t : Thread) : (threadStep mcsList num1 num2 t).1 r = some true := by
  cases t with
  | drawing level =>
    simp only [threadStep]
    split <;> exact hr
  | checking level mcs =>
    simp only [threadStep]
    split <;> exact hr
  | adding level mcs =>
    simp only [threadStep]
    split <;> exact replace_keeps hr mcs
  | releasing level mcs => exact replace_keeps hr mcs
  | reserving range => exact replace_keeps hr range
  | holding range => exact hr
  | gone => exact hr

attribute [local simp] step in
/-- No step forgets a recorded range. -/
theorem step_keeps {s : System} {r : String} (hr : s.mcsList r = some true) (i : Event) :
    (step s i).1.mcsList r = some true := by
  cases i with
  | initLabel level => exact hr
  | step k num1 num2 =>
    simp only [step]
    split
    · exact hr
    · exact threadStep_keeps hr num1 num2 _
  | remove k =>
    simp only [step]
    split <;> exact hr

/-- A range once recorded stays recorded for the rest of every run. -/
theorem recorded_run {s : System} {r : String} (hr : s.mcsList r = some true)
    (is : List Event) : (run step s is).1.mcsList r = some true :=
  run_monotone (r := fun (a b : McsList) => a r = some true → b r = some true)
    (fun _ h => h) (fun _ _ _ hab hbc h => hbc (hab h)) System.mcsList
    (fun _ i h => step_keeps h i) s is hr

/-- Every range a running container holds is recorded. -/
def HeldRecorded (s : System) : Prop :=
  ∀ r, Thread.holding r ∈ s.threads → s.mcsList r = some true

/-- A call comes to hold a range only by reserving it, which records it. -/
lemma threadStep_holding {mcsList : McsList} {num1 num2 : Nat} {t : Thread} {r : String}
    (h : (threadStep mcsList num1 num2 t).2 = .holding r) :
    t = .holding r ∨ (threadStep mcsList num1 num2 t).1 r = some true := by
  cases t with
  | drawing level =>
    simp only [threadStep] at h
    split at h <;> cases h
  | checking level mcs =>
    simp only [threadStep] at h
    split at h <;> cases h
  | adding level mcs =>
    simp only [threadStep] at h
    split at h <;> cases h
  | releasing level mcs => cases h
  | reserving range =>
    cases h
    exact .inr (by simp [threadStep, mcsAdd])
  | holding range => exact .inl h
  | gone => cases h

lemma heldRecorded_step {s : System} (h : HeldRecorded s) (i : Event) :
    HeldRecorded (step s i).1 := by
  intro r hr
  cases i with
  | initLabel level =>
    simp only [step, List.mem_append, List.mem_singleton, reduceCtorEq, or_false] at hr
    exact h r hr
  | step k num1 num2 =>
    simp only [step] at hr ⊢
    split at hr
    · exact h r hr
    · rename_i t hk
      rcases List.mem_or_eq_of_mem_set hr with hold | hnew
      · exact threadStep_keeps (h r hold) num1 num2 t
      · rcases threadStep_holding hnew.symm with rfl | hrec
        · exact threadStep_keeps (h r (List.mem_of_getElem? hk)) num1 num2 (.holding r)
        · exact hrec
  | remove k =>
    simp only [step] at hr ⊢
    split at hr
    · rcases List.mem_or_eq_of_mem_set hr with hold | hgone
      · exact h r hold
      · cases hgone
    · exact h r hr

/-- Over every run, the ranges running containers hold are recorded. -/
theorem held_recorded {s : System} (hs : Reachable step init s) : HeldRecorded s :=
  hs.invariant (fun _ h => by simp [init] at h) fun _ i h => heldRecorded_step h i

/-! ## Two containers with one range -/

/-- Two calls of `init_label` with no options, the first drawing 1 and 2, the second 2 and
1; each tests the range before either records it. -/
def raceRun : System :=
  (run step init [.initLabel none, .initLabel none, .step 0 1 2, .step 1 2 1, .step 0 0 0,
    .step 1 0 0, .step 0 0 0, .step 1 0 0, .step 0 0 0, .step 1 0 0, .step 0 0 0,
    .step 1 0 0]).1

theorem uniqMcs_race_gives_one_range_twice :
    (∀ mcsList mcs, (mcsDelete mcsList mcs).1 mcs = some true) ∧
    raceRun.threads = [.holding (mcsFormat 1 2), .holding (mcsFormat 1 2)] :=
  ⟨mcsDelete_keeps, rfl⟩

end SelinuxLabel

end Isulad
