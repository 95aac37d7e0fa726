/-!
# Runs of a state machine, invariants and simulation

A machine `step : σ → ι → σ × ο` takes a state and an input to a new state and an output.
`run` feeds it a list of inputs and collects the outputs, and `Reachable step init` holds of
the states some run from `init` reaches. Two rules carry every whole-run result:

* `Reachable.invariant`: what holds initially and every step keeps holds of every reachable
  state, and `ReachableUnder.invariant` the same over the runs an assumption on the inputs
  admits;
* `Simulates.run`: a relation between the states of two machines that every step keeps, with
  equal outputs, relates their runs on any inputs, and the two runs give the same outputs.
-/

namespace Simulation

universe u v w x

variable {σ : Type u} {τ : Type v} {ι : Type w} {ο : Type x}

/-- Feed `step` the inputs in order: the last state and the outputs. -/
def run (step : σ → ι → σ × ο) : σ → List ι → σ × List ο
  | s, [] => (s, [])
  | s, i :: is => ((run step (step s i).1 is).1, (step s i).2 :: (run step (step s i).1 is).2)

@[simp] theorem run_nil (step : σ → ι → σ × ο) (s : σ) : run step s [] = (s, []) := rfl

@[simp] theorem run_cons (step : σ → ι → σ × ο) (s : σ) (i : ι) (is : List ι) :
    run step s (i :: is) =
      ((run step (step s i).1 is).1, (step s i).2 :: (run step (step s i).1 is).2) := rfl

/-- The states some run from `init` reaches. -/
inductive Reachable (step : σ → ι → σ × ο) (init : σ) : σ → Prop
  | init : Reachable step init init
  | step {s : σ} (i : ι) : Reachable step init s → Reachable step init (step s i).1

variable {step : σ → ι → σ × ο} {init s : σ}

/-- A run from a reachable state stays reachable. -/
theorem Reachable.run (h : Reachable step init s) (is : List ι) :
    Reachable step init (Simulation.run step s is).1 := by
  induction is generalizing s with
  | nil => exact h
  | cons i is ih => exact ih (h.step i)

/-- The invariant rule: what holds initially and every step keeps holds of every reachable
state. -/
theorem Reachable.invariant {P : σ → Prop} (h0 : P init) (hstep : ∀ s i, P s → P (step s i).1)
    (h : Reachable step init s) : P s := by
  induction h with
  | init => exact h0
  | step i _ ih => exact hstep _ i ih

/-- The states some run from `init` reaches taking only inputs that `G` admits at the state
where each is taken: the runs an environment assumption allows. -/
inductive ReachableUnder (G : σ → ι → Prop) (step : σ → ι → σ × ο) (init : σ) : σ → Prop
  | init : ReachableUnder G step init init
  | step {s : σ} (i : ι) : ReachableUnder G step init s → G s i →
      ReachableUnder G step init (step s i).1

/-- The invariant rule under an assumption: each step need only keep the invariant on the
inputs the assumption admits. -/
theorem ReachableUnder.invariant {G : σ → ι → Prop} {P : σ → Prop} (h0 : P init)
    (hstep : ∀ s i, P s → G s i → P (step s i).1) (h : ReachableUnder G step init s) : P s := by
  induction h with
  | init => exact h0
  | step i _ hg ih => exact hstep _ i ih hg

/-- Each input of the run from `s` on `is` is admitted by `G` where it is taken. -/
def Admits (G : σ → ι → Prop) (step : σ → ι → σ × ο) : σ → List ι → Prop
  | _, [] => True
  | s, i :: is => G s i ∧ Admits G step (step s i).1 is

/-- An admitted run from a state reachable under `G` stays reachable under `G`. -/
theorem ReachableUnder.run {G : σ → ι → Prop} (h : ReachableUnder G step init s) {is : List ι}
    (ha : Admits G step s is) : ReachableUnder G step init (Simulation.run step s is).1 := by
  induction is generalizing s with
  | nil => exact h
  | cons i is ih => exact ih (h.step i ha.1) ha.2

/-- An assumption that admits every input admits every run. -/
theorem admits_of_forall {G : σ → ι → Prop} (hG : ∀ s i, G s i) (s : σ) (is : List ι) :
    Admits G step s is := by
  induction is generalizing s with
  | nil => trivial
  | cons i is ih => exact ⟨hG s i, ih _⟩

/-- The run on `is ++ js` is the run on `is` followed by the run on `js`. -/
theorem run_append (s : σ) (is js : List ι) :
    run step s (is ++ js) =
      ((run step (run step s is).1 js).1, (run step s is).2 ++ (run step (run step s is).1 js).2) := by
  induction is generalizing s with
  | nil => rfl
  | cons i is ih => simp only [List.cons_append, run_cons, ih, List.cons_append]

/-- The history rule: a relation between a state and the inputs taken and outputs given so far,
that every admitted step keeps, holds after every admitted run, with the run's inputs and outputs
appended to the history. -/
theorem Admits.history {G : σ → ι → Prop} {P : σ → List ι → List ο → Prop}
    (hstep : ∀ s I O i, P s I O → G s i → P (step s i).1 (I ++ [i]) (O ++ [(step s i).2]))
    {I : List ι} {O : List ο} (h : P s I O) {is : List ι} (ha : Admits G step s is) :
    P (run step s is).1 (I ++ is) (O ++ (run step s is).2) := by
  -- induction on the inputs, the history growing by the step's input and output
  induction is generalizing s I O with
  | nil => simpa using h
  | cons i is ih => simpa using ih (hstep s I O i h ha.1) ha.2

/-- The history rule over every run. -/
theorem run_history {P : σ → List ι → List ο → Prop}
    (hstep : ∀ s I O i, P s I O → P (step s i).1 (I ++ [i]) (O ++ [(step s i).2]))
    {I : List ι} {O : List ο} (h : P s I O) (is : List ι) :
    P (run step s is).1 (I ++ is) (O ++ (run step s is).2) :=
  Admits.history (G := fun _ _ => True) (fun s I O i hP _ => hstep s I O i hP) h
    (admits_of_forall (fun _ _ => trivial) s is)

/-- What no step undoes no run undoes: a reflexive and transitive relation that every step
makes between a quantity before and after it, every run makes too. -/
theorem run_monotone {α : Type _} {r : α → α → Prop} (hrefl : ∀ a, r a a)
    (htrans : ∀ a b c, r a b → r b c → r a c) (f : σ → α)
    (hstep : ∀ s i, r (f s) (f (step s i).1)) (s : σ) (is : List ι) :
    r (f s) (f (Simulation.run step s is).1) := by
  induction is generalizing s with
  | nil => exact hrefl _
  | cons i is ih => exact htrans _ _ _ (hstep s i) (ih _)

/-- `R` is a simulation of the machine `stepA` by `stepC`: from related states, the two steps
on the same input reach related states and give the same output. -/
def Simulates (R : σ → τ → Prop) (stepC : σ → ι → σ × ο) (stepA : τ → ι → τ × ο) : Prop :=
  ∀ s a i, R s a → R (stepC s i).1 (stepA a i).1 ∧ (stepC s i).2 = (stepA a i).2

variable {R : σ → τ → Prop} {stepC : σ → ι → σ × ο} {stepA : τ → ι → τ × ο} {a : τ}

/-- A simulation relates whole runs, and their outputs agree. -/
theorem Simulates.run (hsim : Simulates R stepC stepA) (hR : R s a) (is : List ι) :
    R (Simulation.run stepC s is).1 (Simulation.run stepA a is).1 ∧
      (Simulation.run stepC s is).2 = (Simulation.run stepA a is).2 := by
  -- induction on the inputs, the related pair of states moving with them
  induction is generalizing s a with
  | nil => exact ⟨hR, rfl⟩
  | cons i is ih =>
    obtain ⟨hR', ho⟩ := hsim s a i hR
    obtain ⟨hrun, hos⟩ := ih hR'
    exact ⟨hrun, by rw [run_cons, run_cons, ho, hos]⟩

/-- Every state a simulating machine reaches is related to one the simulated machine reaches. -/
theorem Simulates.reachable {initA : τ} (hsim : Simulates R stepC stepA) (h0 : R init initA)
    (h : Reachable stepC init s) : ∃ a, Reachable stepA initA a ∧ R s a := by
  induction h with
  | init => exact ⟨initA, .init, h0⟩
  | step i _ ih =>
    obtain ⟨a, ha, hR⟩ := ih
    exact ⟨(stepA a i).1, ha.step i, (hsim _ a i hR).1⟩

end Simulation
