import Mathlib.Order.Basic

/-!
# Loops that end, run with enough fuel

A `while` loop is its body: from a state, one round either ends the loop with a result
(`.inl`) or goes round again from a new state (`.inr`). `iterate` runs the body for at most a
given number of rounds. When a measure on the states drops every round (`Decreases`), the
measure plus one rounds are always enough: `run` then always gives a result (`run_isSome`),
no larger amount of fuel changes it (`iterate_eq_run`), and it satisfies the loop's own
equation (`run_eq`). Since `run` recurses on the fuel only, it computes, and `decide` can run
it on concrete inputs.

`run_invariant` is the rule for proving what a loop returns: an invariant every round keeps,
and a postcondition the ending rounds establish from it.
-/

namespace Loop

variable {σ α : Type*}

/-- Run `body` from `s` for at most `fuel` rounds. -/
def iterate (body : σ → α ⊕ σ) : Nat → σ → Option α
  | 0, _ => none
  | fuel + 1, s =>
    match body s with
    | .inl a => some a
    | .inr s' => iterate body fuel s'

/-- `μ` drops in every round that goes on. -/
def Decreases (body : σ → α ⊕ σ) (μ : σ → Nat) : Prop :=
  ∀ s s', body s = .inr s' → μ s' < μ s

/-- The loop, with as much fuel as the measure says it needs. -/
def run (body : σ → α ⊕ σ) (μ : σ → Nat) (s : σ) : Option α :=
  iterate body (μ s + 1) s

variable {body : σ → α ⊕ σ} {μ : σ → Nat}

attribute [local simp] iterate in
lemma iterate_succ_of_inl {s : σ} {a : α} (h : body s = .inl a) (fuel : Nat) :
    iterate body (fuel + 1) s = some a := by
  simp [iterate, h]

lemma iterate_succ_of_inr {s s' : σ} (h : body s = .inr s') (fuel : Nat) :
    iterate body (fuel + 1) s = iterate body fuel s' := by
  simp [iterate, h]

/-- Any two amounts of fuel above the measure give the same run. -/
lemma iterate_congr (hd : Decreases body μ) {fuel₁ fuel₂ : Nat} {s : σ} (h₁ : μ s < fuel₁)
    (h₂ : μ s < fuel₂) : iterate body fuel₁ s = iterate body fuel₂ s := by
  -- induction on the first fuel, both runs taking their first round together
  induction fuel₁ generalizing fuel₂ s with
  | zero => exact absurd h₁ (Nat.not_lt_zero _)
  | succ fuel ih =>
    obtain ⟨fuel₂, rfl⟩ : ∃ g, fuel₂ = g + 1 := ⟨fuel₂ - 1, by omega⟩
    cases hb : body s with
    | inl a => rw [iterate_succ_of_inl hb, iterate_succ_of_inl hb]
    | inr s' =>
      have hlt := hd s s' hb
      rw [iterate_succ_of_inr hb, iterate_succ_of_inr hb]
      exact ih (by omega) (by omega)

/-- More fuel than the measure changes nothing. -/
theorem iterate_eq_run (hd : Decreases body μ) {fuel : Nat} {s : σ} (h : μ s < fuel) :
    iterate body fuel s = run body μ s :=
  iterate_congr hd h (Nat.lt_succ_self _)

/-- The loop's equation: a round that ends gives its result, one that goes on gives the
loop's result from the next state. -/
theorem run_eq (hd : Decreases body μ) (s : σ) :
    run body μ s = match body s with
      | .inl a => some a
      | .inr s' => run body μ s' := by
  cases hb : body s with
  | inl a => exact iterate_succ_of_inl hb _
  | inr s' =>
    unfold run
    rw [iterate_succ_of_inr hb]
    exact iterate_eq_run hd (hd s s' hb)

lemma run_of_inl {s : σ} {a : α} (hd : Decreases body μ) (h : body s = .inl a) :
    run body μ s = some a := by
  rw [run_eq hd, h]

lemma run_of_inr {s s' : σ} (hd : Decreases body μ) (h : body s = .inr s') :
    run body μ s = run body μ s' := by
  rw [run_eq hd s, h]

/-- The loop always ends: the fuel never runs out. -/
theorem run_isSome (hd : Decreases body μ) (s : σ) : (run body μ s).isSome := by
  -- induction on a bound of the measure
  have key : ∀ n s, μ s < n → (run body μ s).isSome := by
    intro n
    induction n with
    | zero => intro s hs; exact absurd hs (Nat.not_lt_zero _)
    | succ n ih =>
      intro s hs
      cases hb : body s with
      | inl a => rw [run_of_inl hd hb]; rfl
      | inr s' =>
        have hlt := hd s s' hb
        rw [run_of_inr hd hb]
        exact ih s' (by omega)
  exact key _ s (Nat.lt_succ_self _)

/-- The invariant rule: an invariant that every round going on keeps, and a postcondition
that every round ending establishes from it, hold of what the loop returns. -/
theorem run_invariant (hd : Decreases body μ) {I : σ → Prop} {Q : α → Prop}
    (hnext : ∀ s s', I s → body s = .inr s' → I s')
    (hdone : ∀ s a, I s → body s = .inl a → Q a) {s : σ} (hs : I s) {a : α}
    (h : run body μ s = some a) : Q a := by
  -- induction on a bound of the measure, the invariant carried along
  have key : ∀ n s, μ s < n → I s → run body μ s = some a → Q a := by
    intro n
    induction n with
    | zero => intro s hs; exact absurd hs (Nat.not_lt_zero _)
    | succ n ih =>
      intro s hμ hs h
      cases hb : body s with
      | inl a' =>
        rw [run_of_inl hd hb, Option.some.injEq] at h
        exact h ▸ hdone s a' hs hb
      | inr s' =>
        have hlt := hd s s' hb
        rw [run_of_inr hd hb] at h
        exact ih s' (by omega) (hnext s s' hs hb) h
  exact key _ s (Nat.lt_succ_self _) hs h

end Loop
