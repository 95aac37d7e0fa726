import Mathlib.Data.List.Induction

/-!
# Bounded FIFO buffers

A buffer of capacity `cap` that, when full, drops its oldest element to make room for the new
one. Pushing `xs` one by one into an empty buffer leaves the last `min (length xs) cap` of them,
oldest first (`pushAll_nil`).
-/

namespace BoundedFifo

universe u

variable {α : Type u}

/-- Push `x`, dropping the oldest element first when the buffer is full. -/
def push (cap : Nat) (q : List α) (x : α) : List α :=
  if q.length < cap then q ++ [x] else q.tail ++ [x]

/-- Push the elements of `xs` in order. -/
def pushAll (cap : Nat) (q : List α) (xs : List α) : List α :=
  xs.foldl (push cap) q

@[simp] lemma pushAll_nil_right (cap : Nat) (q : List α) : pushAll cap q [] = q := rfl

lemma pushAll_append_singleton (cap : Nat) (q xs : List α) (x : α) :
    pushAll cap q (xs ++ [x]) = push cap (pushAll cap q xs) x := by
  simp [pushAll, List.foldl_append]

/-- One push into a buffer holding the last `cap` elements of `ys` leaves the last `cap` of
`ys ++ [x]`. -/
lemma push_drop {cap : Nat} (hcap : 0 < cap) (ys : List α) (x : α) :
    push cap (ys.drop (ys.length - cap)) x = (ys ++ [x]).drop ((ys ++ [x]).length - cap) := by
  rw [push, List.length_append, List.length_singleton]
  by_cases hlen : ys.length < cap
  · have h0 : ys.length - cap = 0 := by omega
    have h1 : ys.length + 1 - cap = 0 := by omega
    rw [List.length_drop, h0, if_pos (by omega), h1]
    simp
  · have hdrop : (ys.drop (ys.length - cap)).length = cap := by
      rw [List.length_drop]
      omega
    rw [if_neg (by omega), List.tail_drop, List.drop_append_of_le_length (by omega),
      show ys.length + 1 - cap = ys.length - cap + 1 by omega]

/-- A buffer within its capacity, pushed the elements of `xs`, holds the last `cap` elements of
its own followed by `xs`. -/
theorem pushAll_of_length_le {cap : Nat} (hcap : 0 < cap) {q : List α} (hq : q.length ≤ cap)
    (xs : List α) : pushAll cap q xs = (q ++ xs).drop ((q ++ xs).length - cap) := by
  -- induction from the end of the list: the last push is the one that may drop
  induction xs using List.reverseRecOn with
  | nil => simp [Nat.sub_eq_zero_of_le hq]
  | append_singleton xs x ih =>
    rw [pushAll_append_singleton, ih, push_drop hcap, List.append_assoc]

/-- From empty, the buffer holds the last `cap` elements pushed, oldest first. -/
theorem pushAll_nil {cap : Nat} (hcap : 0 < cap) (xs : List α) :
    pushAll cap [] xs = xs.drop (xs.length - cap) := by
  simpa using pushAll_of_length_le hcap (q := []) (Nat.zero_le cap) xs

end BoundedFifo
