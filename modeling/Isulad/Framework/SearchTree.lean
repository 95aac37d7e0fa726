import Isulad.Framework.ColouredTree
import Mathlib.Data.List.Pairwise

/-!
# Search trees over a three-way comparator

A binary search tree stores payloads of type `α` with keys `key : α → κ`, ordered by a C-style
three-way comparator `cmp : κ → κ → Int` (negative, zero or positive). `CmpSpec cmp` says the
comparator is a strict total order, and `Ordered key cmp t` that the in-order keys of `t`
strictly increase. Stating order through `toList` makes it a property of the in-order sequence
only, which every rotation and recolouring keeps.

`zoom key cmp k p t` walks from the focus `t` in context `p` towards the key `k`, as every
search loop of a search tree does: it stops at a node whose key compares equal to `k`, or at a
leaf. `Path.Bounds` is the condition on a context that its hole holds exactly the keys
strictly between the payloads before and after it; `zoom` keeps it (`Bounds.zoom`), and so:

* `Bounds.zoom`: at the leaf, the context still bounds `k`, so a payload with key `k` hung
  there keeps the tree ordered (`ordered_plug_leaf`);
* `root?_zoom`: where the walk stops is what `lookup`, the first payload in in-order whose
  key compares equal, finds.

`lookup` is the map a search tree stands for. `lookup_of_toList` and
`find?_eq_none_of_toList` say how it changes when one payload joins or leaves the in-order
sequence, which is all that insertion and removal do to it.
-/

namespace ColouredTree

universe u v

variable {α : Type u} {κ : Type v}

/-- A three-way comparator that is a strict total order: `cmp a b` is zero exactly when
`a = b`, negative exactly when `cmp b a` is positive, and negativity is transitive. -/
structure CmpSpec (cmp : κ → κ → Int) : Prop where
  eq_zero_iff : ∀ a b, cmp a b = 0 ↔ a = b
  neg_iff : ∀ a b, cmp a b < 0 ↔ 0 < cmp b a
  neg_trans : ∀ a b c, cmp a b < 0 → cmp b c < 0 → cmp a c < 0

namespace CmpSpec

variable {cmp : κ → κ → Int} (hc : CmpSpec cmp)
include hc

lemma not_neg_self (a : κ) : ¬ cmp a a < 0 := by
  intro h
  have := (hc.neg_iff a a).1 h
  omega

lemma ne_of_neg {a b : κ} (h : cmp a b < 0) : a ≠ b := by
  rintro rfl
  exact hc.not_neg_self a h

/-- Trichotomy, in the form the search loops use: not below and not equal is above. -/
lemma neg_swap {a b : κ} (h1 : ¬ cmp a b < 0) (h2 : cmp a b ≠ 0) : cmp b a < 0 := by
  have : 0 < cmp a b := by omega
  exact (hc.neg_iff b a).2 this

end CmpSpec

variable (key : α → κ) (cmp : κ → κ → Int)

/-- The in-order keys strictly increase. -/
def CTree.Ordered (t : CTree α) : Prop := t.toList.Pairwise fun x y => cmp (key x) (key y) < 0

/-- The hole of `p` lies strictly between the payloads of `p` before it and after it, at key
`k`. -/
def Path.Bounds (p : Path α) (k : κ) : Prop :=
  (∀ x ∈ p.before, cmp (key x) k < 0) ∧ ∀ x ∈ p.after, cmp k (key x) < 0

/-- The payload at the root of a subtree, if any. -/
def CTree.root? : CTree α → Option α
  | .nil => none
  | .node _ _ x _ => some x

@[simp] lemma CTree.root?_nil : (CTree.nil : CTree α).root? = none := rfl
@[simp] lemma CTree.root?_node (l r : CTree α) (c : Colour) (x : α) :
    (CTree.node l c x r).root? = some x := rfl
@[simp] lemma CTree.root?_eq_none {t : CTree α} : t.root? = none ↔ t = .nil := by
  cases t <;> simp

/-- The first payload in in-order whose key compares equal to `k`. -/
def lookup (k : κ) (t : CTree α) : Option α := t.toList.find? fun x => cmp k (key x) = 0

/-- The walk from the focus `t` in context `p` towards the key `k`. -/
def zoom (k : κ) : Path α → CTree α → Path α × CTree α
  | p, .nil => (p, .nil)
  | p, .node l c x r =>
    if cmp k (key x) = 0 then (p, .node l c x r)
    else if cmp k (key x) < 0 then zoom k (.left c x r :: p) l
    else zoom k (.right l c x :: p) r

attribute [local simp] zoom in
/-- The walk only moves the focus. -/
theorem zoom_plug (k : κ) (p : Path α) (t : CTree α) :
    (zoom key cmp k p t).1.plug (zoom key cmp k p t).2 = p.plug t := by
  induction t generalizing p with
  | nil => rfl
  | node l c x r ihl ihr =>
    rw [zoom]
    split_ifs
    · rfl
    · exact ihl _
    · exact ihr _

variable {key cmp}

/-- The walk stops at a node only on its key. -/
theorem zoom_found {k : κ} {p p' : Path α} {t l r : CTree α} {c : Colour} {x : α}
    (h : zoom key cmp k p t = (p', .node l c x r)) : cmp k (key x) = 0 := by
  induction t generalizing p with
  | nil => cases h
  | node l' c' x' r' ihl ihr =>
    rw [zoom] at h
    split_ifs at h with h0 h1
    · cases h
      exact h0
    · exact ihl h
    · exact ihr h

attribute [local simp] CTree.Ordered in
lemma ordered_node {l r : CTree α} {c : Colour} {x : α} :
    (CTree.node l c x r).Ordered key cmp ↔ l.Ordered key cmp ∧ r.Ordered key cmp ∧
      (∀ y ∈ l.toList, cmp (key y) (key x) < 0) ∧ (∀ y ∈ r.toList, cmp (key x) (key y) < 0) ∧
      ∀ y ∈ l.toList, ∀ z ∈ r.toList, cmp (key y) (key z) < 0 := by
  simp only [CTree.Ordered, CTree.toList_node, List.pairwise_append, List.pairwise_cons,
    List.mem_cons, forall_eq_or_imp, imp_and, forall_and]
  tauto

/-- The mirror image of an ordered tree is ordered for the reversed comparison. -/
lemma CTree.Ordered.mirror {t : CTree α} (ht : t.Ordered key cmp) :
    t.mirror.Ordered key (fun a b => cmp b a) := by
  rw [CTree.Ordered, CTree.toList_mirror, List.pairwise_reverse]
  exact ht

/-- The walk keeps the bounds of its hole on an ordered tree. -/
theorem Path.Bounds.zoom (hc : CmpSpec cmp) {k : κ} {p : Path α} {t : CTree α}
    (hb : p.Bounds key cmp k) (ht : t.Ordered key cmp) :
    (ColouredTree.zoom key cmp k p t).1.Bounds key cmp k := by
  induction t generalizing p with
  | nil => exact hb
  | node l c x r ihl ihr =>
    obtain ⟨hl, hr, hlx, hxr, -⟩ := ordered_node.1 ht
    rw [ColouredTree.zoom]
    split_ifs with h0 h1
    · exact hb
    · -- going left, `x` and its right subtree join the payloads after the hole
      refine ihl ⟨hb.1, fun y hy => ?_⟩ hl
      simp only [Path.after, List.mem_append, List.mem_cons] at hy
      rcases hy with (rfl | hy) | hy
      · exact h1
      · exact hc.neg_trans _ _ _ h1 (hxr y hy)
      · exact hb.2 y hy
    · -- going right, the left subtree and `x` join the payloads before it
      have hxk := hc.neg_swap h1 h0
      refine ihr ⟨fun y hy => ?_, hb.2⟩ hr
      simp only [Path.before, List.mem_append, List.mem_cons, List.not_mem_nil,
        or_false] at hy
      rcases hy with (hy | hy) | rfl
      · exact hb.1 y hy
      · exact hc.neg_trans _ _ _ (hlx y hy) hxk
      · exact hxk

/-- Without a payload whose key compares equal, the walk ends at a leaf. -/
theorem zoom_eq_nil_of_forall {k : κ} {p : Path α} {t : CTree α}
    (h : ∀ x ∈ t.toList, cmp k (key x) ≠ 0) : (zoom key cmp k p t).2 = .nil := by
  induction t generalizing p with
  | nil => rfl
  | node l c x r ihl ihr =>
    simp only [CTree.toList_node, List.mem_append, List.mem_cons] at h
    rw [zoom, if_neg (h x (.inr (.inl rfl)))]
    split_ifs
    · exact ihl fun y hy => h y (.inl hy)
    · exact ihr fun y hy => h y (.inr (.inr hy))

/-- A payload hung at a leaf the context bounds keeps the tree ordered. -/
theorem ordered_plug_leaf {p : Path α} {x : α} (c : Colour) (hb : p.Bounds key cmp (key x))
    (ht : (p.plug .nil).Ordered key cmp) : (p.plug (.node .nil c x .nil)).Ordered key cmp := by
  simp only [CTree.Ordered, Path.toList_plug, CTree.toList_nil, CTree.toList_node,
    List.append_nil, List.nil_append, List.append_assoc, List.singleton_append] at ht ⊢
  rw [List.pairwise_append] at ht ⊢
  refine ⟨ht.1, List.pairwise_cons.2 ⟨hb.2, ht.2.1⟩, fun y hy z hz => ?_⟩
  rcases List.mem_cons.1 hz with rfl | hz
  · exact hb.1 y hy
  · exact ht.2.2 y hy z hz

/-- The payloads before `x` in an ordered sequence are below it, those after it above. -/
lemma cmp_of_toList_eq {t : CTree α} {L₁ L₂ : List α} {x : α} (ht : t.Ordered key cmp)
    (h : t.toList = L₁ ++ x :: L₂) :
    (∀ y ∈ L₁, cmp (key y) (key x) < 0) ∧ ∀ y ∈ L₂, cmp (key x) (key y) < 0 := by
  rw [CTree.Ordered, h, List.pairwise_append, List.pairwise_cons] at ht
  exact ⟨fun y hy => ht.2.2 y hy x List.mem_cons_self, ht.2.1.1⟩

section Lookup

variable (hc : CmpSpec cmp)
include hc

attribute [local simp] lookup in
/-- On an ordered tree the walk stops where `lookup` finds its payload. -/
theorem root?_zoom {k : κ} {p : Path α} {t : CTree α} (ht : t.Ordered key cmp) :
    (zoom key cmp k p t).2.root? = lookup key cmp k t := by
  induction t generalizing p with
  | nil => rfl
  | node l c x r ihl ihr =>
    obtain ⟨hl, hr, hlx, hxr, -⟩ := ordered_node.1 ht
    simp only [lookup, CTree.toList_node, List.find?_append] at ihl ihr ⊢
    rw [zoom]
    split_ifs with h0 h1
    · -- found: everything on the left is below `k`
      have hk := (hc.eq_zero_iff _ _).1 h0
      have hnone : l.toList.find? (fun y => cmp k (key y) = 0) = none :=
        List.find?_eq_none.2 fun y hy => by
          have := (hc.neg_iff _ _).1 (hk ▸ hlx y hy)
          simp only [decide_eq_true_eq]
          omega
      rw [hnone, List.find?_cons_of_pos (by simpa using h0)]
      rfl
    · -- below `x`: `x` and everything right of it are above `k`
      have hnone : (x :: r.toList).find? (fun y => cmp k (key y) = 0) = none := by
        refine List.find?_eq_none.2 fun y hy => ?_
        simp only [decide_eq_true_eq]
        rcases List.mem_cons.1 hy with rfl | hy
        · exact h0
        · have := hc.neg_trans _ _ _ h1 (hxr y hy)
          omega
      rw [ihl hl, hnone, Option.or_none]
    · -- above `x`: `x` and everything left of it are below `k`
      have hxk := hc.neg_swap h1 h0
      have hnone : l.toList.find? (fun y => cmp k (key y) = 0) = none :=
        List.find?_eq_none.2 fun y hy => by
          have := (hc.neg_iff _ _).1 (hc.neg_trans _ _ _ (hlx y hy) hxk)
          simp only [decide_eq_true_eq]
          omega
      rw [ihr hr, hnone, Option.none_or, List.find?_cons_of_neg (by simpa using h0)]

/-- On an ordered tree a key `lookup` finds is where the walk from the root stops at a node, which
holds that very key. -/
theorem zoom_of_lookup_ne_none {t : CTree α} {k : κ} (ht : t.Ordered key cmp)
    (h : lookup key cmp k t ≠ none) :
    ∃ p l c x r, zoom key cmp k [] t = (p, .node l c x r) ∧ key x = k := by
  obtain ⟨p, Z, hz⟩ : ∃ p Z, zoom key cmp k [] t = (p, Z) := ⟨_, _, rfl⟩
  have hroot := root?_zoom hc (p := []) (k := k) ht
  rw [hz] at hroot
  cases Z with
  | nil => exact absurd hroot.symm h
  | node l c x r => exact ⟨p, l, c, x, r, hz, ((hc.eq_zero_iff _ _).1 (zoom_found hz)).symm⟩

/-- `lookup` in an ordered tree whose in-order sequence holds `x`: at `x`'s key it finds `x`,
elsewhere what it finds in the sequence without `x`. -/
theorem lookup_of_toList {t : CTree α} {L₁ L₂ : List α} {x : α} (k : κ)
    (ht : t.Ordered key cmp) (h : t.toList = L₁ ++ x :: L₂) :
    lookup key cmp k t =
      if cmp k (key x) = 0 then some x else (L₁ ++ L₂).find? fun y => cmp k (key y) = 0 := by
  obtain ⟨hbefore, -⟩ := cmp_of_toList_eq ht h
  simp only [lookup, h, List.find?_append]
  split_ifs with h0
  · have hk := (hc.eq_zero_iff _ _).1 h0
    have hnone : L₁.find? (fun y => cmp k (key y) = 0) = none :=
      List.find?_eq_none.2 fun y hy => by
        have := (hc.neg_iff _ _).1 (hk ▸ hbefore y hy)
        simp only [decide_eq_true_eq]
        omega
    rw [hnone, List.find?_cons_of_pos (by simpa using h0)]
    rfl
  · rw [List.find?_cons_of_neg (by simpa using h0)]

/-- Once `x` has left an ordered sequence, nothing in it compares equal to `x`'s key. -/
theorem find?_eq_none_of_toList {t : CTree α} {L₁ L₂ : List α} {x : α} {k : κ}
    (ht : t.Ordered key cmp) (h : t.toList = L₁ ++ x :: L₂) (hx : cmp k (key x) = 0) :
    (L₁ ++ L₂).find? (fun y => cmp k (key y) = 0) = none := by
  obtain ⟨hbefore, hafter⟩ := cmp_of_toList_eq ht h
  have hk := (hc.eq_zero_iff _ _).1 hx
  rw [List.find?_eq_none]
  intro y hy
  simp only [decide_eq_true_eq]
  rcases List.mem_append.1 hy with hy | hy
  · have := (hc.neg_iff _ _).1 (hk ▸ hbefore y hy)
    omega
  · have := hk ▸ hafter y hy
    omega

end Lookup

end ColouredTree
