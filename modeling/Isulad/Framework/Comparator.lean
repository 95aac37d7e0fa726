import Isulad.Framework.SearchTree
import Mathlib

/-!
# Three-way comparators built from `<`

A C comparator usually returns `(a > b) - (a < b)`: `1`, `0` or `-1`. That is `cmpOfLt`, and
through an injective map into a linear order it is a strict total order
(`CmpSpec.of_injective`). On sequences ordered lexicographically it compares heads first and
defers to the tails only on equal heads (`cmpOfLt_cons`), which is how a loop over two
sequences computes it.
-/

namespace ColouredTree

universe u v

variable {κ : Type u} {β : Type v}

/-- `(a > b) - (a < b)`. -/
def cmpOfLt [LinearOrder β] (a b : β) : Int :=
  (if b < a then 1 else 0) - (if a < b then 1 else 0)

section LinearOrder

variable [LinearOrder β] {a b : β}

attribute [local simp] cmpOfLt in
lemma cmpOfLt_of_lt (h : a < b) : cmpOfLt a b = -1 := by
  simp [cmpOfLt, h, not_lt_of_gt h]

lemma cmpOfLt_of_gt (h : b < a) : cmpOfLt a b = 1 := by
  simp [cmpOfLt, h, not_lt_of_gt h]

@[simp] lemma cmpOfLt_self (a : β) : cmpOfLt a a = 0 := by
  simp [cmpOfLt]

lemma cmpOfLt_eq_zero_iff : cmpOfLt a b = 0 ↔ a = b := by
  rcases lt_trichotomy a b with h | rfl | h
  · simp [cmpOfLt_of_lt h, h.ne]
  · simp
  · simp [cmpOfLt_of_gt h, h.ne']

lemma cmpOfLt_neg_iff : cmpOfLt a b < 0 ↔ a < b := by
  rcases lt_trichotomy a b with h | rfl | h
  · simp [cmpOfLt_of_lt h, h]
  · simp
  · simp [cmpOfLt_of_gt h, not_lt_of_gt h]

lemma cmpOfLt_swap (a b : β) : cmpOfLt b a = -cmpOfLt a b := by
  unfold cmpOfLt
  omega

/-- Comparing images under an injective map into a linear order is a strict total order. -/
theorem CmpSpec.of_injective (f : κ → β) (hf : Function.Injective f) :
    CmpSpec fun a b => cmpOfLt (f a) (f b) where
  eq_zero_iff a b := cmpOfLt_eq_zero_iff.trans hf.eq_iff
  neg_iff a b := by
    rw [cmpOfLt_swap (f b)]
    omega
  neg_trans a b c hab hbc := by
    rw [cmpOfLt_neg_iff] at hab hbc ⊢
    exact hab.trans hbc

/-- The lexicographic comparison of two non-empty lists: the heads decide unless they are
equal. -/
lemma cmpOfLt_cons (a b : β) (l m : List β) :
    cmpOfLt (a :: l) (b :: m) = if a = b then cmpOfLt l m else cmpOfLt a b := by
  by_cases h : a = b
  · -- equal heads: the tails decide
    subst h
    rw [if_pos rfl]
    rcases lt_trichotomy l m with h | rfl | h
    · rw [cmpOfLt_of_lt h]
      exact cmpOfLt_of_lt (List.cons_lt_cons_iff.2 (.inr ⟨rfl, h⟩))
    · simp
    · rw [cmpOfLt_of_gt h]
      exact cmpOfLt_of_gt (List.cons_lt_cons_iff.2 (.inr ⟨rfl, h⟩))
  · rcases lt_or_gt_of_ne h with h' | h' <;>
      simp [cmpOfLt, List.cons_lt_cons_iff, h, Ne.symm h, h', not_lt_of_gt h']

end LinearOrder

end ColouredTree
