import Mathlib

/-!
# Sequences of fallible steps

A function that can fail returns `Except ε α`, and a sequence of such steps is a chain of binds.
A run that ends in `.ok b` went through every step with success: `bind_eq_ok` takes the chain
apart from the front, one step at a time, and `pure_eq_ok` and `throw_ne_ok` close the last
step; `map_eq_ok` does the same for a last step that maps the value, `mapError_eq_ok` lets a
step whose error is relabelled through, and `exists_of_mapM_eq_ok` reads a successful `mapM`
element by element. With these as simp lemmas, what a successful run establishes is read off the
steps it made, without unfolding the monad.
-/

namespace Fallible

variable {ε α β : Type}

/-- A chain succeeds exactly when its first step does and the rest succeeds on its value. -/
@[simp] lemma bind_eq_ok {x : Except ε α} {f : α → Except ε β} {b : β} :
    (x >>= f) = .ok b ↔ ∃ a, x = .ok a ∧ f a = .ok b := by
  cases x <;> simp [bind, Except.bind]

@[simp] lemma pure_eq_ok {a b : α} : (pure a : Except ε α) = .ok b ↔ a = b := by
  simp [pure, Except.pure]

@[simp] lemma throw_ne_ok {e : ε} {a : α} : (throw e : Except ε α) ≠ .ok a := by
  simp [throw, throwThe, MonadExceptOf.throw]

@[simp] lemma map_eq_ok {x : Except ε α} {f : α → β} {b : β} :
    x.map f = .ok b ↔ ∃ a, x = .ok a ∧ f a = b := by
  cases x <;> simp [Except.map]

/-- A step whose error is relabelled succeeds exactly when the step does. -/
@[simp] lemma mapError_eq_ok {ε' : Type} {x : Except ε α} {f : ε → ε'} {a : α} :
    x.mapError f = .ok a ↔ x = .ok a := by
  cases x <;> simp [Except.mapError]

/-- Every element of a list that `mapM` maps with success is mapped to one of the results. -/
lemma exists_of_mapM_eq_ok {f : α → Except ε β} :
    ∀ {xs : List α} {ys : List β}, xs.mapM f = .ok ys → ∀ x ∈ xs, ∃ y ∈ ys, f x = .ok y
  | [], _, _, _, hx => absurd hx List.not_mem_nil
  | x :: xs, ys, h, z, hz => by
    rw [List.mapM_cons] at h
    obtain ⟨y, hy, hrest⟩ := bind_eq_ok.1 h
    obtain ⟨ys', hys', hys⟩ := bind_eq_ok.1 hrest
    obtain rfl : y :: ys' = ys := pure_eq_ok.1 hys
    rcases List.mem_cons.1 hz with rfl | hz
    · exact ⟨y, List.mem_cons_self, hy⟩
    · obtain ⟨w, hw, hfw⟩ := exists_of_mapM_eq_ok hys' z hz
      exact ⟨w, List.mem_cons_of_mem _ hw, hfw⟩

end Fallible
