import Isulad.Map.RbTree.Refinement

/-!
# Iterating over a red-black tree (`rb_tree.c`)

`rb_iterator_t` stands at one node. `rbtree_iterator_first` puts it at the minimum of the
tree, and `rbtree_iterator_next` moves it to the node's successor: the minimum of its right
subtree when there is one, else the first ancestor it is a left descendant of, found by
climbing parent pointers while the node is its parent's right child (`rbtree_successor`).
`rbtree_iterator_last` and `rbtree_iterator_prev` are the same with left and right swapped,
which is the mirror image of the heap (`RbTree.mirror`).

On a tree that stores `T`, the node the iterator stands at is a position of the zipper of
`T`, and one step of `next` moves it to the position of the next slot in in-order
(`rbtreeSuccessor_position`), or to the sentinel after the last. So the caller's loop
`for (ok = first; ok; ok = next)` visits the addresses of `T` in order, once each, with every
`next` but the last returning `true` (`forwardRun_eq`), and backwards the same in reverse
(`backwardRun_eq`). For a valid tree the keys it visits strictly increase
(`rbtreeIterator_visits_in_order`).
-/

namespace Isulad

open ColouredTree

namespace RbTree

variable {κ ν : Type}

/-! ## The iterator as the code writes it -/

/-- The `while (node->right != tree->nil)` loop of `rbtree_maximum`, on fuel. -/
def rbtreeMaximumLoop (t : RbTree κ ν) : Nat → Ptr → Ptr
  | 0, node => node
  | fuel + 1, node =>
    if (t.heap node).right ≠ t.nil then rbtreeMaximumLoop t fuel (t.heap node).right else node

/-- `rbtree_maximum`. -/
def rbtreeMaximum (t : RbTree κ ν) (node : Ptr) : Ptr :=
  if node = t.nil then t.nil else rbtreeMaximumLoop t t.next node

/-- The climb of `rbtree_successor`, on fuel:
`while (successor != tree->nil && node == successor->right)`. -/
def successorClimb (t : RbTree κ ν) : Nat → Ptr → Ptr → Ptr
  | 0, _, successor => successor
  | fuel + 1, node, successor =>
    if successor ≠ t.nil ∧ node = (t.heap successor).right then
      successorClimb t fuel successor (t.heap successor).parent
    else successor

/-- `rbtree_successor(tree, node)`. -/
def rbtreeSuccessor (t : RbTree κ ν) (node : Ptr) : Ptr :=
  if (t.heap node).right ≠ t.nil then rbtreeMinimum t (t.heap node).right
  else successorClimb t t.next node (t.heap node).parent

/-- The climb of `rbtree_predecessor`, on fuel:
`while (predecessor != tree->nil && node == predecessor->left)`. -/
def predecessorClimb (t : RbTree κ ν) : Nat → Ptr → Ptr → Ptr
  | 0, _, predecessor => predecessor
  | fuel + 1, node, predecessor =>
    if predecessor ≠ t.nil ∧ node = (t.heap predecessor).left then
      predecessorClimb t fuel predecessor (t.heap predecessor).parent
    else predecessor

/-- `rbtree_predecessor(tree, node)`. -/
def rbtreePredecessor (t : RbTree κ ν) (node : Ptr) : Ptr :=
  if (t.heap node).left ≠ t.nil then rbtreeMaximum t (t.heap node).left
  else predecessorClimb t t.next node (t.heap node).parent

/-- `rbtree_iterator_valid(itor)` at the node `node`. -/
def rbtreeIteratorValid (t : RbTree κ ν) (node : Ptr) : Bool := node ≠ t.nil

/-- `rbtree_iterator_first(itor)`: the node it moves to and what it returns. -/
def rbtreeIteratorFirst (t : RbTree κ ν) : Ptr × Bool :=
  (rbtreeMinimum t t.root, rbtreeMinimum t t.root ≠ t.nil)

/-- `rbtree_iterator_last(itor)`. -/
def rbtreeIteratorLast (t : RbTree κ ν) : Ptr × Bool :=
  (rbtreeMaximum t t.root, rbtreeMaximum t t.root ≠ t.nil)

/-- `rbtree_iterator_next(itor)` from `node`: it does not move from the sentinel. -/
def rbtreeIteratorNext (t : RbTree κ ν) (node : Ptr) : Ptr × Bool :=
  if node ≠ t.nil then (rbtreeSuccessor t node, rbtreeSuccessor t node ≠ t.nil)
  else (node, false)

/-- `rbtree_iterator_prev(itor)` from `node`. -/
def rbtreeIteratorPrev (t : RbTree κ ν) (node : Ptr) : Ptr × Bool :=
  if node ≠ t.nil then (rbtreePredecessor t node, rbtreePredecessor t node ≠ t.nil)
  else (node, false)

/-- A caller's loop `for (ok = start; ok; ok = advance(itor))`, on fuel: each node it visits,
with what the call of `advance` after the visit returned. -/
def iteratorLoop (advance : Ptr → Ptr × Bool) : Nat → Ptr × Bool → List (Ptr × Bool)
  | 0, _ => []
  | fuel + 1, (node, ok) =>
    if ok then (node, (advance node).2) :: iteratorLoop advance fuel (advance node) else []

/-- `rbtree_iterator_new(tree)`: the node the new iterator stands at, after
`rbtree_iterator_first`. -/
def rbtreeIteratorNew (t : RbTree κ ν) : Ptr := (rbtreeIteratorFirst t).1

/-- `rbtree_iterator_key(itor)` at the node `node`: an iterator on a tree always stands at a
node or at the sentinel, never at `NULL`. -/
def rbtreeIteratorKey (t : RbTree κ ν) (node : Ptr) : κ := (t.heap node).key

/-- `rbtree_iterator_value(itor)` at the node `node`. -/
def rbtreeIteratorValue (t : RbTree κ ν) (node : Ptr) : ν := (t.heap node).value

/-- The loop from `rbtree_iterator_first` with `rbtree_iterator_next`. -/
def forwardRun (t : RbTree κ ν) (fuel : Nat) : List (Ptr × Bool) :=
  iteratorLoop (rbtreeIteratorNext t) fuel (rbtreeIteratorFirst t)

/-- The loop from `rbtree_iterator_last` with `rbtree_iterator_prev`. -/
def backwardRun (t : RbTree κ ν) (fuel : Nat) : List (Ptr × Bool) :=
  iteratorLoop (rbtreeIteratorPrev t) fuel (rbtreeIteratorLast t)

/-- Each element with whether another follows it. -/
def markLast {α : Type _} : List α → List (α × Bool)
  | [] => []
  | a :: rest => (a, rest ≠ []) :: markLast rest

attribute [local simp] markLast in
lemma map_fst_markLast {α : Type _} (l : List α) : (markLast l).map Prod.fst = l := by
  induction l with
  | nil => rfl
  | cons a rest ih => simp [markLast, ih]

lemma map_snd_markLast {α : Type _} (l : List α) :
    (markLast l).map Prod.snd = (List.range l.length).map fun i => decide (i + 1 < l.length) := by
  induction l with
  | nil => rfl
  | cons a rest ih =>
    rw [markLast, List.map_cons, ih, List.length_cons, List.range_succ_eq_map, List.map_cons,
      List.map_map]
    congr 1
    · simp [List.length_pos_iff]
    · apply List.map_congr_left
      intro i _
      simp

/-! ## The predecessor is the successor in the mirror -/

lemma rbtreeMaximumLoop_mirror (t : RbTree κ ν) (fuel : Nat) (node : Ptr) :
    rbtreeMaximumLoop t fuel node = rbtreeMinimumLoop t.mirror fuel node := by
  induction fuel generalizing node with
  | zero => rfl
  | succ fuel ih =>
    rw [rbtreeMaximumLoop, rbtreeMinimumLoop, ih]
    rfl

attribute [local simp] successorClimb in
lemma predecessorClimb_mirror (t : RbTree κ ν) (fuel : Nat) (node p : Ptr) :
    predecessorClimb t fuel node p = successorClimb t.mirror fuel node p := by
  induction fuel generalizing node p with
  | zero => rfl
  | succ fuel ih =>
    rw [predecessorClimb, successorClimb, ih]
    rfl

lemma rbtreeIteratorPrev_mirror (t : RbTree κ ν) :
    rbtreeIteratorPrev t = rbtreeIteratorNext t.mirror := by
  funext node
  unfold rbtreeIteratorPrev rbtreeIteratorNext rbtreePredecessor rbtreeSuccessor rbtreeMaximum
  simp only [rbtreeMaximumLoop_mirror, predecessorClimb_mirror]
  rfl

lemma backwardRun_mirror (t : RbTree κ ν) (fuel : Nat) :
    backwardRun t fuel = forwardRun t.mirror fuel := by
  unfold backwardRun forwardRun rbtreeIteratorLast rbtreeIteratorFirst rbtreeMaximum
  rw [rbtreeIteratorPrev_mirror]
  simp only [rbtreeMaximumLoop_mirror]
  rfl

/-! ## One step of `next` -/

variable {t : RbTree κ ν}

/-- Two nodes of a tree in different places have different addresses: the parent of a hole and
the root of the subtree beside it. -/
lemma Represents.ptrOf_ne_ptrOf_sibling {P : Path (Slot κ ν)} {c : Colour} {s : Slot κ ν}
    {T r : CTree (Slot κ ν)} (h : Represents t (Path.plug (.left c s r :: P) T))
    (hT : T ≠ .nil) : ptrOf t.nil T ≠ ptrOf t.nil r := by
  obtain ⟨l', c', x', r', rfl⟩ : ∃ l' c' x' r', T = .node l' c' x' r' := by
    cases T with
    | nil => exact absurd rfl hT
    | node l' c' x' r' => exact ⟨l', c', x', r', rfl⟩
  have hmem : x'.addr ∈ addrs (Path.plug (.left c s r :: P) (.node l' c' x' r')) :=
    mem_addrs_plug.2 (.inr (by simp))
  cases r with
  | nil => exact (h.addr_valid _ hmem).1
  | node a c'' y b =>
    have hnd := nodup_addrs_plug.1 h.nodup
    rw [List.nodup_append] at hnd
    have hy : y.addr ∈ pathAddrs (.left c s (.node a c'' y b) :: P) :=
      mem_pathAddrs_cons.2 (.inr (.inl (by simp)))
    exact fun e => hnd.2.2 _ hy x'.addr (by simp) (by simpa using e.symm)

/-- The climb of `rbtree_successor` from the root of a subtree in context: it stops at the
parent of the first left frame, whose slot comes next in in-order, or at the sentinel when
there is none. -/
theorem successorClimb_position {P : Path (Slot κ ν)} {T : CTree (Slot κ ν)}
    (h : Represents t (P.plug T)) (hT : T ≠ .nil) (fuel : Nat) (hfuel : P.length ≤ fuel) :
    (P.after = [] ∧ successorClimb t fuel (ptrOf t.nil T) (parentPtr t.nil P) = t.nil) ∨
      ∃ (Q : Path (Slot κ ν)) (L : CTree (Slot κ ν)) (c : Colour) (s : Slot κ ν)
        (r : CTree (Slot κ ν)), P.plug T = Q.plug (.node L c s r) ∧
        successorClimb t fuel (ptrOf t.nil T) (parentPtr t.nil P) = s.addr ∧
        P.after = s :: (r.toList ++ Q.after) := by
  -- induction on the context, climbing one frame at a time
  induction P generalizing T fuel with
  | nil =>
    left
    refine ⟨rfl, ?_⟩
    cases fuel with
    | zero => rfl
    | succ fuel => simp [successorClimb]
  | cons f Q ih =>
    obtain ⟨fuel, rfl⟩ : ∃ g, fuel = g + 1 := ⟨fuel - 1, by simp at hfuel; omega⟩
    have hs : f.payload.addr ≠ t.nil :=
      (h.addr_valid _ (mem_addrs_plug.2 (.inl (mem_pathAddrs_cons.2 (.inl rfl))))).1
    cases f with
    | left c s r =>
      -- the subtree came from the left: the climb stops at `s`
      right
      have hright : (t.heap s.addr).right = ptrOf t.nil r := by rw [h.heap_frame_left]
      refine ⟨Q, T, c, s, r, rfl, ?_, rfl⟩
      rw [successorClimb, parentPtr_left, if_neg]
      rintro ⟨-, e⟩
      exact h.ptrOf_ne_ptrOf_sibling hT (e.trans hright)
    | right l c s =>
      -- the subtree came from the right: the climb goes on from `s`
      have hright : (t.heap s.addr).right = ptrOf t.nil T := by rw [h.heap_frame_right]
      have hparent : (t.heap s.addr).parent = parentPtr t.nil Q := by rw [h.heap_frame_right]
      rw [successorClimb, parentPtr_right, if_pos ⟨hs, hright.symm⟩, hparent]
      exact ih (T := .node l c s T) h (by simp) fuel (by simp at hfuel; omega)

/-- One step of `rbtree_successor` from a node of the tree: the sentinel when the node is the
last in in-order, else the next node, at a position of the same tree. -/
theorem rbtreeSuccessor_position {P : Path (Slot κ ν)} {l r : CTree (Slot κ ν)} {c : Colour}
    {x : Slot κ ν} (h : Represents t (P.plug (.node l c x r))) :
    (r.toList ++ P.after = [] ∧ rbtreeSuccessor t x.addr = t.nil) ∨
      ∃ (Q : Path (Slot κ ν)) (L : CTree (Slot κ ν)) (c' : Colour) (y : Slot κ ν)
        (R : CTree (Slot κ ν)), P.plug (.node l c x r) = Q.plug (.node L c' y R) ∧
        rbtreeSuccessor t x.addr = y.addr ∧ r.toList ++ P.after = y :: (R.toList ++ Q.after) := by
  cases r with
  | nil =>
    -- no right subtree: climb
    have hright : (t.heap x.addr).right = t.nil := by rw [h.heap_focus]; rfl
    have hparent : (t.heap x.addr).parent = parentPtr t.nil P := by rw [h.heap_focus]
    have hclimb := successorClimb_position h (by simp) t.next (Nat.le_of_lt h.length_lt_next)
    rw [ptrOf_node] at hclimb
    simp only [rbtreeSuccessor, hright, ne_eq, not_true_eq_false, if_false, hparent,
      CTree.toList, List.nil_append]
    exact hclimb
  | node a rc rx rb =>
    -- the minimum of the right subtree
    right
    rcases hm : minView a rc rx rb with ⟨q, yc, y, yr⟩
    obtain ⟨hplug, hbefore⟩ := minView_spec hm
    have hR : Represents t (Path.plug (.right l c x :: P) (.node a rc rx rb)) := h
    have hright : (t.heap x.addr).right = rx.addr := by rw [h.heap_focus]; rfl
    have hne : rx.addr ≠ t.nil := hR.addr_ne_nil
    refine ⟨q ++ .right l c x :: P, .nil, yc, y, yr, ?_, ?_, ?_⟩
    · rw [Path.plug_append, hplug]
      rfl
    · rw [rbtreeSuccessor, hright, if_pos hne]
      exact rbtreeMinimum_minView hR hm
    · have hr := congrArg CTree.toList hplug
      rw [Path.toList_plug, hbefore] at hr
      rw [← hr]
      simp [Path.after]

/-! ## The whole walk -/

@[simp] lemma iteratorLoop_false (advance : Ptr → Ptr × Bool) (fuel : Nat) (node : Ptr) :
    iteratorLoop advance fuel (node, false) = [] := by
  cases fuel <;> rfl

lemma rbtreeIteratorNext_of_ne_nil {node : Ptr} (h : node ≠ t.nil) :
    rbtreeIteratorNext t node =
      (rbtreeSuccessor t node, decide (rbtreeSuccessor t node ≠ t.nil)) :=
  if_pos h

/-- From a node of the tree, the caller's loop visits that node and every node after it in
in-order, once each, and each `next` but the last returns `true`. -/
theorem iteratorLoop_next {fuel : Nat} :
    ∀ {P : Path (Slot κ ν)} {l r : CTree (Slot κ ν)} {c : Colour} {x : Slot κ ν},
      Represents t (P.plug (.node l c x r)) → (r.toList ++ P.after).length < fuel →
      iteratorLoop (rbtreeIteratorNext t) fuel (x.addr, true) =
        markLast (x.addr :: (r.toList ++ P.after).map Slot.addr) := by
  -- induction on the fuel: each step moves one slot along the in-order sequence
  induction fuel with
  | zero =>
    intro _ _ _ _ _ _ hfuel
    exact absurd hfuel (Nat.not_lt_zero _)
  | succ fuel ih =>
    intro P l r c x h hfuel
    rw [iteratorLoop, if_pos rfl, rbtreeIteratorNext_of_ne_nil h.addr_ne_nil]
    rcases rbtreeSuccessor_position h with ⟨hlast, hs⟩ | ⟨Q, L, c', y, R, hplug, hs, hafter⟩
    · -- `x` is the last slot: `next` returns `false` and the loop ends
      rw [hs, hlast]
      simp [markLast]
    · -- the loop goes on from the next slot
      have h' : Represents t (Q.plug (.node L c' y R)) := hplug ▸ h
      have hrest : (R.toList ++ Q.after).length < fuel := by
        rw [hafter] at hfuel
        simpa using hfuel
      have hy : decide (y.addr ≠ t.nil) = true := decide_eq_true h'.addr_ne_nil
      rw [hs, hy, hafter, ih h' hrest]
      simp [markLast]

attribute [local simp] rbtreeIteratorFirst in
/-- The loop from `first` with `next` visits the addresses of the tree in in-order. -/
theorem forwardRun_eq {T : CTree (Slot κ ν)} (h : Represents t T) {fuel : Nat}
    (hfuel : T.toList.length ≤ fuel) : forwardRun t fuel = markLast (addrs T) := by
  cases T with
  | nil =>
    -- the empty tree: `first` stands at the sentinel and returns `false`
    have hroot : t.root = t.nil := h.root
    simp [forwardRun, rbtreeIteratorFirst, rbtreeMinimum, hroot, markLast]
  | node a c x b =>
    -- `first` stands at the minimum, the first slot of the in-order sequence
    rcases hm : minView a c x b with ⟨q, yc, y, yr⟩
    obtain ⟨hplug, hbefore⟩ := minView_spec hm
    have h' : Represents t (q.plug (.node .nil yc y yr)) := hplug ▸ h
    have hmin : rbtreeMinimum t t.root = y.addr := by
      rw [h.root, ptrOf_node]
      exact rbtreeMinimum_minView (P := []) h hm
    have hlist : (CTree.node a c x b).toList = y :: (yr.toList ++ q.after) := by
      rw [← hplug, Path.toList_plug, hbefore]
      simp
    have hfirst : rbtreeIteratorFirst t = (y.addr, true) := by
      simp [rbtreeIteratorFirst, hmin, h'.addr_ne_nil]
    have hrest : (yr.toList ++ q.after).length < fuel := by
      rw [hlist] at hfuel
      simpa using hfuel
    rw [forwardRun, hfirst, iteratorLoop_next h' hrest, addrs, hlist, List.map_cons]

/-- The loop from `last` with `prev` visits them in reverse. -/
theorem backwardRun_eq {T : CTree (Slot κ ν)} (h : Represents t T) {fuel : Nat}
    (hfuel : T.toList.length ≤ fuel) : backwardRun t fuel = markLast (addrs T).reverse := by
  rw [backwardRun_mirror, forwardRun_eq h.mirror (by simpa using hfuel), addrs_mirror]

/-! ## The keys it visits -/

lemma Realises.key_eq {h : Ptr → RbNode κ ν} {nil p : Ptr} {T : CTree (Slot κ ν)}
    (hr : Realises h nil p T) : ∀ s ∈ T.toList, (h s.addr).key = s.key := by
  induction T generalizing p with
  | nil => simp
  | node l c x r ihl ihr =>
    obtain ⟨hx, hl, hr⟩ := (realises_node h nil p l r c x).1 hr
    intro s hs
    rcases List.mem_append.1 hs with hs | hs
    · exact ihl hl s hs
    · rcases List.mem_cons.1 hs with rfl | hs
      · rw [hx]
      · exact ihr hr s hs

lemma Realises.value_eq {h : Ptr → RbNode κ ν} {nil p : Ptr} {T : CTree (Slot κ ν)}
    (hr : Realises h nil p T) : ∀ s ∈ T.toList, (h s.addr).value = s.value := by
  induction T generalizing p with
  | nil => simp
  | node l c x r ihl ihr =>
    obtain ⟨hx, hl, hr⟩ := (realises_node h nil p l r c x).1 hr
    intro s hs
    rcases List.mem_append.1 hs with hs | hs
    · exact ihl hl s hs
    · rcases List.mem_cons.1 hs with rfl | hs
      · rw [hx]
      · exact ihr hr s hs

/-- The keys at the addresses of a tree are its keys. -/
lemma keys_addrs {T : CTree (Slot κ ν)} (h : Represents t T) :
    (addrs T).map (rbtreeIteratorKey t) = T.toList.map Slot.key := by
  rw [addrs, List.map_map]
  exact List.map_congr_left fun s hs => h.realises.key_eq s hs

lemma rbtreeIteratorKey_mirror : rbtreeIteratorKey t.mirror = rbtreeIteratorKey t := rfl

lemma map_markLast_fst {α β : Type _} (f : α → β) (l : List α) :
    (markLast l).map (f ∘ Prod.fst) = l.map f := by
  rw [← List.map_map, map_fst_markLast]

/-- The forward walk over a tree whose in-order keys increase: each node once, in in-order,
keys increasing, every `next` but the last returning `true`. -/
theorem forwardRun_visits {cmp : κ → κ → Int} {T : CTree (Slot κ ν)} (h : Represents t T)
    (hord : T.Ordered Slot.key cmp) {fuel : Nat} (hfuel : T.toList.length ≤ fuel) :
    (forwardRun t fuel).map Prod.fst = addrs T ∧
      ((forwardRun t fuel).map Prod.fst).Nodup ∧
      (forwardRun t fuel).map (rbtreeIteratorKey t ∘ Prod.fst) = T.toList.map Slot.key ∧
      ((forwardRun t fuel).map (rbtreeIteratorKey t ∘ Prod.fst)).Pairwise
        (fun a b => cmp a b < 0) ∧
      (forwardRun t fuel).map Prod.snd =
        (List.range T.toList.length).map fun i => decide (i + 1 < T.toList.length) := by
  have hrun := forwardRun_eq h hfuel
  have haddrs : (forwardRun t fuel).map Prod.fst = addrs T := by rw [hrun, map_fst_markLast]
  have hkeys : (forwardRun t fuel).map (rbtreeIteratorKey t ∘ Prod.fst) =
      T.toList.map Slot.key := by
    rw [hrun, map_markLast_fst, keys_addrs h]
  refine ⟨haddrs, haddrs ▸ h.nodup, hkeys, ?_, ?_⟩
  · rw [hkeys]
    exact List.pairwise_map.2 hord
  · rw [hrun, map_snd_markLast, addrs, List.length_map]

/-! ## Visiting a valid tree -/

/-- On a valid red-black tree `T`, the loop from `rbtree_iterator_first` with
`rbtree_iterator_next` visits its `rbtree_size` nodes once each, keys strictly increasing, with
`next` returning `true` each time but the last; the loop from `rbtree_iterator_last` with
`rbtree_iterator_prev` visits them once each in the opposite order, keys strictly decreasing;
and on an empty tree a new iterator is not valid. -/
theorem rbtreeIterator_visits_in_order {cmp : κ → κ → Int} {T : CTree (Slot κ ν)}
    (h : Represents t T) (hT : T.IsRbSearch Slot.key cmp) (fuel : Nat)
    (hfuel : rbtreeSize t ≤ fuel) :
    ((forwardRun t fuel).map Prod.fst = addrs T ∧
      ((forwardRun t fuel).map Prod.fst).Nodup ∧
      (forwardRun t fuel).map (rbtreeIteratorKey t ∘ Prod.fst) = T.toList.map Slot.key ∧
      ((forwardRun t fuel).map (rbtreeIteratorKey t ∘ Prod.fst)).Pairwise
        (fun a b => cmp a b < 0) ∧
      (forwardRun t fuel).map Prod.snd =
        (List.range (rbtreeSize t)).map fun i => decide (i + 1 < rbtreeSize t)) ∧
    ((backwardRun t fuel).map Prod.fst = (addrs T).reverse ∧
      ((backwardRun t fuel).map Prod.fst).Nodup ∧
      (backwardRun t fuel).map (rbtreeIteratorKey t ∘ Prod.fst) =
        (T.toList.map Slot.key).reverse ∧
      ((backwardRun t fuel).map (rbtreeIteratorKey t ∘ Prod.fst)).Pairwise
        (fun a b => cmp b a < 0) ∧
      (backwardRun t fuel).map Prod.snd =
        (List.range (rbtreeSize t)).map fun i => decide (i + 1 < rbtreeSize t)) ∧
    (T = .nil → rbtreeIteratorValid t (rbtreeIteratorNew t) = false) := by
  rw [rbtreeSize_eq h] at hfuel ⊢
  -- backwards is forwards in the mirror image, whose in-order sequence is reversed
  have hmirror : T.mirror.toList.length ≤ fuel := by simpa using hfuel
  obtain ⟨hb₁, hb₂, hb₃, hb₄, hb₅⟩ := forwardRun_visits h.mirror hT.ordered.mirror hmirror
  rw [← backwardRun_mirror, rbtreeIteratorKey_mirror, addrs_mirror, CTree.toList_mirror,
    List.map_reverse, List.length_reverse] at *
  refine ⟨forwardRun_visits h hT.ordered hfuel, ⟨hb₁, hb₂, hb₃, hb₄, hb₅⟩, ?_⟩
  -- the empty tree: `first` leaves the iterator at the sentinel
  rintro rfl
  have hroot : t.root = t.nil := h.root
  simp [rbtreeIteratorValid, rbtreeIteratorNew, rbtreeIteratorFirst, rbtreeMinimum, hroot]

/-- The walks over the tree the `int` calls leave, run with `rbtree_size` steps: its five
keys, 1, 3, 4, 5 and 6, forwards and backwards. -/
theorem rbtreeIterator_visits_in_order_int :
    (forwardRun intRunTree (rbtreeSize intRunTree)).map (rbtreeIteratorKey intRunTree ∘ Prod.fst) =
      [1, 3, 4, 5, 6] ∧
    (backwardRun intRunTree (rbtreeSize intRunTree)).map
      (rbtreeIteratorKey intRunTree ∘ Prod.fst) = [6, 5, 4, 3, 1] ∧
    ∃ T : CTree (Slot Int32 Int32), Represents intRunTree T ∧
      T.IsRbSearch Slot.key rbtreeIntCmp ∧ rbtreeSize intRunTree ≤ rbtreeSize intRunTree ∧
      ((forwardRun intRunTree (rbtreeSize intRunTree)).map Prod.fst = addrs T ∧
        ((forwardRun intRunTree (rbtreeSize intRunTree)).map Prod.fst).Nodup ∧
        (forwardRun intRunTree (rbtreeSize intRunTree)).map
          (rbtreeIteratorKey intRunTree ∘ Prod.fst) = T.toList.map Slot.key ∧
        ((forwardRun intRunTree (rbtreeSize intRunTree)).map
          (rbtreeIteratorKey intRunTree ∘ Prod.fst)).Pairwise (fun a b => rbtreeIntCmp a b < 0) ∧
        (forwardRun intRunTree (rbtreeSize intRunTree)).map Prod.snd =
          (List.range (rbtreeSize intRunTree)).map
            fun i => decide (i + 1 < rbtreeSize intRunTree)) ∧
      ((backwardRun intRunTree (rbtreeSize intRunTree)).map Prod.fst = (addrs T).reverse ∧
        ((backwardRun intRunTree (rbtreeSize intRunTree)).map Prod.fst).Nodup ∧
        (backwardRun intRunTree (rbtreeSize intRunTree)).map
          (rbtreeIteratorKey intRunTree ∘ Prod.fst) = (T.toList.map Slot.key).reverse ∧
        ((backwardRun intRunTree (rbtreeSize intRunTree)).map
          (rbtreeIteratorKey intRunTree ∘ Prod.fst)).Pairwise (fun a b => rbtreeIntCmp b a < 0) ∧
        (backwardRun intRunTree (rbtreeSize intRunTree)).map Prod.snd =
          (List.range (rbtreeSize intRunTree)).map
            fun i => decide (i + 1 < rbtreeSize intRunTree)) ∧
      (T = .nil → rbtreeIteratorValid intRunTree (rbtreeIteratorNew intRunTree) = false) := by
  obtain ⟨M, -, T, hR, hT, -⟩ :=
    reachable_abstracts (t := intRunTree) cmpSpec_rbtreeIntCmp
      (Simulation.Reachable.init.run intCalls)
  exact ⟨by decide +kernel, by decide +kernel, T, hR, hT, le_refl _,
    rbtreeIterator_visits_in_order hR hT _ (le_refl _)⟩

end RbTree

end Isulad
