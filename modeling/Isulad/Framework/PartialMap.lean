import Mathlib.Logic.Function.Basic

/-!
# Finite maps as partial functions, and maps that invert each other

A map `κ → Option ν` with the three calls a map of keys to values offers: insertion that
refuses a bound key (`insertNew`), replacement that always binds (`replace`) and removal that
refuses an unbound key (`erase`). Each returns the new map and whether the call did something.
A map whose keys are also iterated is kept as a list of bindings (`ofList`, `setList`,
`eraseList`), whose updates are those of the partial function.

Two maps `f : κ → Option ν` and `g : ν → Option κ` are inverse (`IsInverse f g`) when
`f k = some v` exactly when `g v = some k`: together they are one partial bijection, read from
either side, so neither binds two keys to one value. The lemmas say how the pair stays inverse
when one binding is added (`IsInverse.bind`), removed (`IsInverse.unbind`) or moved to a new
key (`IsInverse.rebind`); `Move` names these four changes, and `IsInverse.move` is the rule a
step that makes one of them uses.
-/

namespace PartialMap

variable {κ ν : Type*}

/-! ## The calls -/

section Calls

variable [DecidableEq κ]

/-- Bind `k` to `v` unless `k` is bound. -/
def insertNew (m : κ → Option ν) (k : κ) (v : ν) : (κ → Option ν) × Bool :=
  match m k with
  | none => (Function.update m k (some v), true)
  | some _ => (m, false)

/-- Bind `k` to `v`, over any binding it had. -/
def replace (m : κ → Option ν) (k : κ) (v : ν) : (κ → Option ν) × Bool :=
  (Function.update m k (some v), true)

/-- Remove the binding of `k`, if there is one. -/
def erase (m : κ → Option ν) (k : κ) : (κ → Option ν) × Bool :=
  match m k with
  | none => (m, false)
  | some _ => (Function.update m k none, true)

variable {m : κ → Option ν} {k : κ}

attribute [local simp] insertNew in
@[simp] lemma insertNew_of_none (h : m k = none) (v : ν) :
    insertNew m k v = (Function.update m k (some v), true) := by
  simp [insertNew, h]

@[simp] lemma insertNew_of_some {w : ν} (h : m k = some w) (v : ν) :
    insertNew m k v = (m, false) := by
  simp [insertNew, h]

attribute [local simp] erase in
@[simp] lemma erase_of_none (h : m k = none) : erase m k = (m, false) := by
  simp [erase, h]

@[simp] lemma erase_of_some {w : ν} (h : m k = some w) :
    erase m k = (Function.update m k none, true) := by
  simp [erase, h]

/-- Whether or not `k` was bound, it is not after `erase`. -/
lemma erase_fst (m : κ → Option ν) (k : κ) : (erase m k).1 = Function.update m k none := by
  cases hk : m k with
  | none =>
    rw [erase_of_none hk]
    exact (Function.update_eq_self_iff.2 hk.symm).symm
  | some w => rw [erase_of_some hk]

@[simp] lemma replace_fst (m : κ → Option ν) (k : κ) (v : ν) :
    (replace m k v).1 = Function.update m k (some v) := rfl

end Calls

/-! ## A map kept as a list of bindings -/

section Bindings

variable [DecidableEq κ]

/-- The map a list of bindings stands for: the first binding of a key counts. -/
def ofList : List (κ × ν) → κ → Option ν
  | [], _ => none
  | b :: l, k => if b.1 = k then some b.2 else ofList l k

/-- The bindings without those of `k`. -/
def eraseList (l : List (κ × ν)) (k : κ) : List (κ × ν) := l.filter fun b => b.1 ≠ k

/-- Bind `k` to `v`: the new binding in front, the key's others dropped. -/
def setList (l : List (κ × ν)) (k : κ) (v : ν) : List (κ × ν) := (k, v) :: eraseList l k

attribute [local simp] ofList in
lemma ofList_eraseList (l : List (κ × ν)) (k : κ) :
    ofList (eraseList l k) = Function.update (ofList l) k none := by
  funext j
  induction l with
  | nil => by_cases hj : j = k <;> simp [eraseList, ofList, Function.update_apply, hj]
  | cons b l ih =>
    by_cases hb : b.1 = k
    · have hfilter : eraseList (b :: l) k = eraseList l k := by simp [eraseList, hb]
      rw [hfilter, ih]
      by_cases hj : j = k
      · simp [hj]
      · simp [Function.update_of_ne hj, ofList, hb, Ne.symm hj]
    · have hfilter : eraseList (b :: l) k = b :: eraseList l k := by simp [eraseList, hb]
      rw [hfilter, ofList, ih]
      by_cases hj : j = k
      · subst hj
        simp [ofList, hb]
      · simp [Function.update_of_ne hj, ofList]

lemma ofList_setList (l : List (κ × ν)) (k : κ) (v : ν) :
    ofList (setList l k v) = Function.update (ofList l) k (some v) := by
  funext j
  by_cases hj : j = k
  · subst hj
    simp [setList, ofList]
  · rw [setList, ofList, if_neg (Ne.symm hj), ofList_eraseList, Function.update_of_ne hj,
      Function.update_of_ne hj]

end Bindings

/-! ## Inverse maps -/

/-- `f` and `g` are the two directions of one partial bijection. -/
def IsInverse (f : κ → Option ν) (g : ν → Option κ) : Prop :=
  ∀ k v, f k = some v ↔ g v = some k

variable {f : κ → Option ν} {g : ν → Option κ}

lemma IsInverse.symm (h : IsInverse f g) : IsInverse g f := fun v k => (h k v).symm

/-- No two keys are bound to one value. -/
lemma IsInverse.injective (h : IsInverse f g) {k₁ k₂ : κ} {v : ν} (h₁ : f k₁ = some v)
    (h₂ : f k₂ = some v) : k₁ = k₂ := by
  have e₁ := (h k₁ v).1 h₁
  have e₂ := (h k₂ v).1 h₂
  exact Option.some.inj (e₁.symm.trans e₂)

section Update

variable [DecidableEq κ] [DecidableEq ν]

/-- Binding a free key to a free value. -/
lemma IsInverse.bind (h : IsInverse f g) {k : κ} {v : ν} (hk : f k = none) (hv : g v = none) :
    IsInverse (Function.update f k (some v)) (Function.update g v (some k)) := by
  intro k' v'
  by_cases hkk : k' = k <;> by_cases hvv : v' = v
  · subst hkk hvv
    simp
  · subst hkk
    simp only [Function.update_self, Option.some.injEq, Function.update_of_ne hvv]
    constructor
    · intro e
      exact absurd e.symm hvv
    · intro e
      have := (h k' v').2 e
      rw [hk] at this
      exact absurd this (by simp)
  · subst hvv
    simp only [Function.update_self, Option.some.injEq, Function.update_of_ne hkk]
    constructor
    · intro e
      have := (h k' v').1 e
      rw [hv] at this
      exact absurd this (by simp)
    · intro e
      exact absurd e.symm hkk
  · simp only [Function.update_of_ne hkk, Function.update_of_ne hvv]
    exact h k' v'

/-- Removing one binding from both sides. -/
lemma IsInverse.unbind (h : IsInverse f g) {k : κ} {v : ν} (hkv : f k = some v) :
    IsInverse (Function.update f k none) (Function.update g v none) := by
  intro k' v'
  by_cases hkk : k' = k <;> by_cases hvv : v' = v
  · subst hkk hvv
    simp
  · subst hkk
    simp only [Function.update_self, reduceCtorEq, false_iff, Function.update_of_ne hvv]
    intro e
    have := (h k' v').2 e
    rw [hkv] at this
    exact hvv (Option.some.inj this).symm
  · subst hvv
    simp only [Function.update_self, reduceCtorEq, iff_false, Function.update_of_ne hkk]
    intro e
    exact hkk (h.injective e hkv)
  · simp only [Function.update_of_ne hkk, Function.update_of_ne hvv]
    exact h k' v'

/-- Moving the binding of `v` from the key `k` to the free key `k'`: `k'` is bound first, then
`k` removed, as a rename does. -/
lemma IsInverse.rebind (h : IsInverse f g) {k k' : κ} {v : ν} (hkv : f k = some v)
    (hk' : f k' = none) :
    IsInverse (Function.update (Function.update f k' (some v)) k none)
      (Function.update g v (some k')) := by
  have hne : k' ≠ k := by
    rintro rfl
    rw [hkv] at hk'
    exact absurd hk' (by simp)
  have hfree : Function.update f k none k' = none := by
    rw [Function.update_of_ne hne, hk']
  have hb := (h.unbind hkv).bind hfree (Function.update_self v none g)
  rwa [Function.update_idem, Function.update_comm hne.symm] at hb

/-- How a step may change the map `f` and the key `h` bound to one value `v`: not at all, by
binding a free key to `v`, by removing the binding of `v`, or by moving it to a free key. -/
inductive Move (v : ν) : (κ → Option ν) → Option κ → (κ → Option ν) → Option κ → Prop
  | keep (f : κ → Option ν) (h : Option κ) : Move v f h f h
  | bind (f : κ → Option ν) (k : κ) : f k = none → Move v f none (Function.update f k (some v)) (some k)
  | unbind (f : κ → Option ν) (k : κ) : Move v f (some k) (Function.update f k none) none
  | rebind (f : κ → Option ν) (k k' : κ) : f k' = none →
      Move v f (some k) (Function.update (Function.update f k' (some v)) k none) (some k')

/-- A move of the binding of `v` keeps the pair inverse, with `g` updated at `v`. -/
theorem IsInverse.move (h : IsInverse f g) {v : ν} {f' : κ → Option ν} {h' : Option κ}
    (hm : Move v f (g v) f' h') : IsInverse f' (Function.update g v h') := by
  generalize hgv : g v = o at hm
  cases hm with
  | keep => rwa [← hgv, Function.update_eq_self]
  | bind k hk => exact h.bind hk hgv
  | unbind k => exact h.unbind ((h k v).2 hgv)
  | rebind k k' hk' => exact h.rebind ((h k v).2 hgv) hk'

end Update

end PartialMap
