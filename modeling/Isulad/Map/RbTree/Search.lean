import Isulad.Map.RbTree.Realise
import Isulad.Framework.SearchTree

/-!
# Searching and counting follow the abstract tree

`rbtree_recursive_search` is the walk `zoom` of `SearchTree.lean` on the heap
(`rbtreeRecursiveSearch_zoom`): from a represented subtree it returns the pointer to where
`zoom` stops, with any fuel at least the number of nodes below. So `rbtree_find` returns the
node `zoom` stops at from the root, `rbtree_search` its value, and on an ordered tree with a
comparator that is a strict total order this is `lookup` (`rbtreeSearch_eq_lookup`).
`number_of_nodes` counts the in-order sequence (`rbtreeSize_eq`).
-/

namespace Isulad

open ColouredTree

namespace RbTree

variable {κ ν : Type} (cmp : κ → κ → Int)

/-- Only a leaf has the sentinel as its root pointer. -/
lemma Represents.ptrOf_eq_nil_iff {t : RbTree κ ν} {p : Path (Slot κ ν)} {T : CTree (Slot κ ν)}
    (h : Represents t (p.plug T)) : ptrOf t.nil T = t.nil ↔ T = .nil := by
  cases T with
  | nil => simp
  | node l c s r =>
    simp only [ptrOf_node, reduceCtorEq, iff_false]
    exact (h.addr_valid s.addr (mem_addrs_plug.2 (.inr (by simp)))).1

attribute [local simp] rbtreeRecursiveSearch in
/-- `rbtree_recursive_search` from the focus walks as `zoom` does. -/
theorem rbtreeRecursiveSearch_zoom {t : RbTree κ ν} {p : Path (Slot κ ν)} {T : CTree (Slot κ ν)}
    (key : κ) (fuel : Nat) (h : Represents t (p.plug T)) (hfuel : (addrs T).length ≤ fuel) :
    rbtreeRecursiveSearch cmp t key fuel (ptrOf t.nil T) =
      ptrOf t.nil (zoom Slot.key cmp key p T).2 := by
  -- induction on the subtree, the fuel going down with it
  induction T generalizing p fuel with
  | nil => cases fuel <;> simp [rbtreeRecursiveSearch, zoom]
  | node l c s r ihl ihr =>
    obtain ⟨fuel, rfl⟩ : ∃ f, fuel = f + 1 :=
      Nat.exists_eq_add_one.2 (by simp only [addrs_node, List.length_append,
        List.length_cons] at hfuel; omega)
    have hlen : (addrs l).length ≤ fuel ∧ (addrs r).length ≤ fuel := by
      simp only [addrs_node, List.length_append, List.length_cons] at hfuel
      omega
    have hne : s.addr ≠ t.nil := (h.ptrOf_eq_nil_iff.not.2 (by simp))
    rw [ptrOf_node, rbtreeRecursiveSearch, if_neg hne, h.heap_focus, zoom]
    split_ifs
    · rfl
    · exact ihl (p := .left c s r :: p) fuel h hlen.1
    · exact ihr (p := .right l c s :: p) fuel h hlen.2

/-- `rbtree_find` returns the node `zoom` stops at from the root, or the sentinel. -/
theorem rbtreeFind_eq {t : RbTree κ ν} {T : CTree (Slot κ ν)} (key : κ) (h : Represents t T) :
    rbtreeFind cmp t key = ptrOf t.nil (zoom Slot.key cmp key [] T).2 := by
  rw [rbtreeFind, h.root]
  exact rbtreeRecursiveSearch_zoom cmp key t.next (p := []) h (Nat.le_of_lt h.length_addrs_lt)

/-- `rbtree_find` fails exactly when the walk ends at a leaf. -/
theorem rbtreeFind_eq_nil_iff {t : RbTree κ ν} {T : CTree (Slot κ ν)} (key : κ)
    (h : Represents t T) : rbtreeFind cmp t key = t.nil ↔ (zoom Slot.key cmp key [] T).2 = .nil := by
  have hz : Represents t ((zoom Slot.key cmp key [] T).1.plug (zoom Slot.key cmp key [] T).2) := by
    rw [zoom_plug]
    exact h
  rw [rbtreeFind_eq cmp key h, hz.ptrOf_eq_nil_iff]

/-- On an ordered tree, `rbtree_find` fails exactly when `lookup` finds nothing. -/
theorem rbtreeFind_eq_nil_iff_lookup {t : RbTree κ ν} {T : CTree (Slot κ ν)} (hc : CmpSpec cmp)
    (key : κ) (h : Represents t T) (ho : T.Ordered Slot.key cmp) :
    rbtreeFind cmp t key = t.nil ↔ lookup Slot.key cmp key T = none := by
  rw [rbtreeFind_eq_nil_iff cmp key h, ← root?_zoom hc ho (p := []), CTree.root?_eq_none]

/-- On an ordered tree a present key is where `zoom` stops at a node, and `rbtree_find` returns
that node. -/
theorem rbtreeFind_of_present {t : RbTree κ ν} {T : CTree (Slot κ ν)} (hc : CmpSpec cmp)
    {key : κ} (h : Represents t T) (ho : T.Ordered Slot.key cmp)
    (hpresent : lookup Slot.key cmp key T ≠ none) :
    ∃ p l c s r, zoom Slot.key cmp key [] T = (p, .node l c s r) ∧
      Represents t (p.plug (.node l c s r)) ∧ rbtreeFind cmp t key = s.addr := by
  obtain ⟨p, l, c, s, r, hzoom, -⟩ := zoom_of_lookup_ne_none hc ho hpresent
  have hplug := zoom_plug Slot.key cmp key [] T
  rw [hzoom] at hplug
  refine ⟨p, l, c, s, r, hzoom, by rw [hplug]; exact h, ?_⟩
  rw [rbtreeFind_eq cmp key h, hzoom, ptrOf_node]

/-- `rbtree_search` returns the value at the node `zoom` stops at. -/
theorem rbtreeSearch_eq {t : RbTree κ ν} {T : CTree (Slot κ ν)} (key : κ) (h : Represents t T) :
    rbtreeSearch cmp t key = (zoom Slot.key cmp key [] T).2.root?.map Slot.value := by
  have hz : Represents t ((zoom Slot.key cmp key [] T).1.plug (zoom Slot.key cmp key [] T).2) := by
    rw [zoom_plug]
    exact h
  rw [rbtreeSearch, rbtreeFind_eq cmp key h]
  revert hz
  cases (zoom Slot.key cmp key [] T).2 with
  | nil => simp
  | node l c s r =>
    intro hz
    have hne : s.addr ≠ t.nil := hz.ptrOf_eq_nil_iff.not.2 (by simp)
    rw [ptrOf_node, if_neg hne, hz.heap_focus]
    rfl

/-- On an ordered tree, `rbtree_search` is the abstract `lookup`. -/
theorem rbtreeSearch_eq_lookup {t : RbTree κ ν} {T : CTree (Slot κ ν)} (hc : CmpSpec cmp)
    (key : κ) (h : Represents t T) (ho : T.Ordered Slot.key cmp) :
    rbtreeSearch cmp t key = (lookup Slot.key cmp key T).map Slot.value := by
  rw [rbtreeSearch_eq cmp key h, root?_zoom hc ho]

/-! ## Size -/

/-- `number_of_nodes` from the focus counts its nodes. -/
theorem numberOfNodes_eq {t : RbTree κ ν} {p : Path (Slot κ ν)} {T : CTree (Slot κ ν)}
    (fuel : Nat) (h : Represents t (p.plug T)) (hfuel : (addrs T).length ≤ fuel) :
    numberOfNodes t fuel (ptrOf t.nil T) = T.toList.length := by
  induction T generalizing p fuel with
  | nil => cases fuel <;> simp [numberOfNodes]
  | node l c s r ihl ihr =>
    have hlen : (addrs l).length + ((addrs r).length + 1) ≤ fuel := by
      simpa only [addrs_node, List.length_append, List.length_cons] using hfuel
    obtain ⟨fuel, rfl⟩ : ∃ f, fuel = f + 1 := Nat.exists_eq_add_one.2 (by omega)
    have hne : s.addr ≠ t.nil := (h.ptrOf_eq_nil_iff.not.2 (by simp))
    rw [ptrOf_node, numberOfNodes, if_neg hne, h.heap_focus]
    have hl := ihl (p := .left c s r :: p) fuel h (by omega)
    have hr := ihr (p := .right l c s :: p) fuel h (by omega)
    rw [hl, hr, CTree.toList_node, List.length_append, List.length_cons]
    omega

/-- `rbtree_size` is the number of nodes of the represented tree. -/
theorem rbtreeSize_eq {t : RbTree κ ν} {T : CTree (Slot κ ν)} (h : Represents t T) :
    rbtreeSize t = T.toList.length := by
  rw [rbtreeSize, h.root]
  exact numberOfNodes_eq t.next (p := []) h (Nat.le_of_lt h.length_addrs_lt)

end RbTree

end Isulad
