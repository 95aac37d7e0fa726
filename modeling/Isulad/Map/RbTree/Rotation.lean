import Isulad.Map.RbTree.Realise

/-!
# Rotations and recolourings at a focus

Each step of `rbtree_insert_fixup` and `rbtree_erase_fixup` is a recolouring or a rotation at
some node, followed by pointer reads. This module proves, once, what these primitives do to a
represented tree when the node they act on is the focus of a zipper `p.plug T`:

* `represents_setColour`: `node->colour = c` repaints the focus (`represents_of_focus` is
  the general in-place write);
* `represents_leftRot`, `represents_rightRot`: `left_rot` and `right_rot` rotate the focus,
  parent pointers and the parent's child pointer (or `root`) included.

A node deeper in the code's expressions (`node->parent->parent`) is the focus of another
zipper for the same tree, since `p.plug` of a frame-plugged subtree is the same tree; so
these lemmas cover every rotation and recolouring the fix-ups make.

`leftRot_spec` says which four nodes `left_rot` rewrites; it is proved by following the
code's writes one at a time. `right_rot` is `left_rot` in the mirror (`leftRot_mirror`), so
its case follows from the left one by `Represents.mirror`.
-/

namespace Isulad

open ColouredTree

namespace RbTree

variable {κ ν : Type}

/-! ## The heap after a rotation -/

/-- `left_rot(tree, A)` with `A->right = B`, `B->left = L` and `A->parent = P` rewrites `A`, `B`,
`L` (unless it is the sentinel) and `P` (unless `A` was the root, when `root` moves to `B`). -/
lemma leftRot_spec (t : RbTree κ ν) {A B L P : Ptr} (hB : (t.heap A).right = B)
    (hL : (t.heap B).left = L) (hP : (t.heap A).parent = P)
    (hAB : A ≠ B) (hLA : L ≠ A) (hLB : L ≠ B) (hPA : P ≠ A) (hPB : P ≠ B)
    (hLP : L ≠ t.nil → L ≠ P) :
    (∀ x, (leftRot t A).heap x =
      if x = A then { t.heap A with right := L, parent := B }
      else if x = B then { t.heap B with left := A, parent := P }
      else if x = L ∧ L ≠ t.nil then { t.heap L with parent := A }
      else if x = P ∧ P ≠ t.nil then
        (if A = (t.heap P).left then { t.heap P with left := B } else { t.heap P with right := B })
      else t.heap x) ∧
    (leftRot t A).root = if P = t.nil then B else t.root := by
  dsimp only
  unfold leftRot
  extract_lets y t1 t2 t3 t4 t5
  have hy : y = B := hB
  have hn1 : t1.nil = t.nil := rfl
  -- `node->right = y->left`
  have e1 : ∀ z, t1.heap z = if z = A then { t.heap A with right := L } else t.heap z := by
    intro z; simp only [t1, heap_setRight, hy, hL]
  have r1 : (t1.heap y).left = L := by rw [e1, if_neg (hy ▸ hAB.symm), hy, hL]
  -- `y->left->parent = node`, skipped for the sentinel
  have e2 : ∀ z, t2.heap z =
      if z = L ∧ L ≠ t.nil then { t1.heap L with parent := A } else t1.heap z := by
    intro z
    by_cases hLn : L = t.nil
    · simp only [t2, r1, hn1, hLn, ne_eq, not_true_eq_false, if_false, and_false]
    · simp only [t2, r1, hn1, hLn, ne_eq, not_false_eq_true, if_true, and_true, heap_setParent]
  have hn2 : t2.nil = t.nil := by simp only [t2]; split <;> rfl
  have r2 : (t2.heap A).parent = P := by
    rw [e2, if_neg (fun h => hLA h.1.symm), e1, if_pos rfl, hP]
  -- `y->parent = node->parent`
  have e3 : ∀ z, t3.heap z = if z = B then { t2.heap B with parent := P } else t2.heap z := by
    intro z; simp only [t3, heap_setParent, hy, r2]
  have hn3 : t3.nil = t.nil := hn2
  have r3 : (t3.heap A).parent = P := by rw [e3, if_neg hAB, r2]
  have hPL : t2.heap P = t.heap P := by
    have hnot : ¬ (P = L ∧ L ≠ t.nil) := fun h => hLP h.2 h.1.symm
    rw [e2, if_neg hnot, e1, if_neg hPA]
  have r3P : t3.heap P = t.heap P := by rw [e3, if_neg hPB, hPL]
  -- link node's parent to y
  have e4 : ∀ z, t4.heap z = if z = P ∧ P ≠ t.nil then
      (if A = (t.heap P).left then { t3.heap P with left := B } else { t3.heap P with right := B })
      else t3.heap z := by
    intro z
    by_cases hPn : P = t.nil
    · have : t4 = t3.setRoot y := by simp only [t4, r3, hn3, if_pos hPn]
      rw [this, heap_setRoot, if_neg (fun h => h.2 hPn)]
    · by_cases hleft : A = (t.heap P).left
      · have : t4 = t3.setLeft P y := by simp only [t4, r3, hn3, if_neg hPn, r3P, if_pos hleft]
        rw [this, heap_setLeft, hy, if_pos hleft]
        by_cases hz : z = P
        · rw [if_pos hz, if_pos ⟨hz, hPn⟩]
        · rw [if_neg hz, if_neg fun h => hz h.1]
      · have : t4 = t3.setRight P y := by simp only [t4, r3, hn3, if_neg hPn, r3P, if_neg hleft]
        rw [this, heap_setRight, hy, if_neg hleft]
        by_cases hz : z = P
        · rw [if_pos hz, if_pos ⟨hz, hPn⟩]
        · rw [if_neg hz, if_neg fun h => hz h.1]
  -- put node on y's left
  have e5 : ∀ z, t5.heap z = if z = B then { t4.heap B with left := A } else t4.heap z := by
    intro z; simp only [t5, heap_setLeft, hy]
  have root4 : t4.root = if P = t.nil then B else t.root := by
    have hr3 : t3.root = t.root := by simp only [t3, t2]; split <;> rfl
    by_cases hPn : P = t.nil
    · simp only [t4, r3, hn3, if_pos hPn, root_setRoot, hy]
    · simp only [t4, r3, hn3, if_neg hPn]
      split_ifs <;> simp [hr3]
  refine ⟨fun x => ?_, root4⟩
  simp only [heap_setParent, hy, e5, e4, e3, e2, e1]
  clear e1 e2 e3 e4 e5 r1 r2 r3 hPL r3P root4
  -- the four nodes the writes touch are distinct, so each place reads back one write
  have hAP : ¬ (A = P ∧ P ≠ t.nil) := fun h => hPA h.1.symm
  have hAL : ¬ (A = L ∧ L ≠ t.nil) := fun h => hLA h.1.symm
  have hBP : ¬ (B = P ∧ P ≠ t.nil) := fun h => hPB h.1.symm
  have hBL : ¬ (B = L ∧ L ≠ t.nil) := fun h => hLB h.1.symm
  have hPnL : ¬ (P = L ∧ L ≠ t.nil) := fun h => hLP h.2 h.1.symm
  by_cases hxA : x = A
  · subst hxA
    simp only [if_true, if_neg hAB, if_neg hAP, if_neg hAL]
  by_cases hxB : x = B
  · subst hxB
    simp only [if_true, if_neg hxA, if_neg hBP, if_neg hBL]
  by_cases hxL : x = L ∧ L ≠ t.nil
  · have hxP : ¬ (x = P ∧ P ≠ t.nil) := fun h => hPnL ⟨h.1.symm.trans hxL.1, hxL.2⟩
    obtain ⟨rfl, -⟩ := hxL
    simp only [if_neg hxA, if_neg hxB, if_neg hxP, ne_eq, if_true]
  by_cases hxP : x = P ∧ P ≠ t.nil
  · obtain ⟨rfl, hPn⟩ := hxP
    simp only [if_neg hxA, if_neg hxB, if_neg hPnL, hPn, ne_eq, not_false_eq_true, and_self,
      if_true]
  · simp only [if_neg hxA, if_neg hxB, if_neg hxL, if_neg hxP]

@[simp] lemma nil_leftRot (t : RbTree κ ν) (A : Ptr) : (leftRot t A).nil = t.nil := by
  unfold leftRot
  extract_lets y t1 t2 t3 t4 t5
  have h2 : t2.nil = t.nil := by simp only [t2]; split <;> rfl
  show t4.nil = t.nil
  simp only [t4]; split_ifs <;> exact h2

@[simp] lemma next_leftRot (t : RbTree κ ν) (A : Ptr) : (leftRot t A).next = t.next := by
  unfold leftRot
  extract_lets y t1 t2 t3 t4 t5
  have h2 : t2.next = t.next := by simp only [t2]; split <;> rfl
  show t4.next = t.next
  simp only [t4]; split_ifs <;> exact h2

@[simp] lemma nil_rightRot (t : RbTree κ ν) (A : Ptr) : (rightRot t A).nil = t.nil := by
  unfold rightRot
  extract_lets y t1 t2 t3 t4 t5
  have h2 : t2.nil = t.nil := by simp only [t2]; split <;> rfl
  show t4.nil = t.nil
  simp only [t4]; split_ifs <;> exact h2

@[simp] lemma next_rightRot (t : RbTree κ ν) (A : Ptr) : (rightRot t A).next = t.next := by
  unfold rightRot
  extract_lets y t1 t2 t3 t4 t5
  have h2 : t2.next = t.next := by simp only [t2]; split <;> rfl
  show t4.next = t.next
  simp only [t4]; split_ifs <;> exact h2

/-- `left_rot` at a node with a right child leaves the sentinel's node alone: every write is at
one of the two, or guarded against the sentinel. `rbtree_erase_fixup` relies on it when its
`node` is the sentinel, whose parent field it reads after a rotation. -/
lemma leftRot_heap_nil (t : RbTree κ ν) {A : Ptr} (hA : A ≠ t.nil) (hB : (t.heap A).right ≠ t.nil) :
    (leftRot t A).heap t.nil = t.heap t.nil := by
  unfold leftRot
  extract_lets y t1 t2 t3 t4 t5
  have hy : y ≠ t.nil := hB
  have e1 : t1.heap t.nil = t.heap t.nil := by simp only [t1, heap_setRight, if_neg hA.symm]
  have hn2 : t2.nil = t.nil := by simp only [t2]; split <;> rfl
  have e2 : t2.heap t.nil = t.heap t.nil := by
    simp only [t2]
    split_ifs with h
    · rw [heap_setParent, if_neg (show t.nil ≠ (t1.heap y).left from Ne.symm h), e1]
    · exact e1
  have e3 : t3.heap t.nil = t.heap t.nil := by simp only [t3, heap_setParent, if_neg hy.symm, e2]
  -- the parent's child field is written only when the parent is not the sentinel
  have e4 : t4.heap t.nil = t.heap t.nil := by
    have hn3 : t3.nil = t.nil := hn2
    simp only [t4]
    split_ifs with h1 h2
    · exact e3
    · rw [heap_setLeft, if_neg (fun e => h1 (e.symm.trans hn3.symm)), e3]
    · rw [heap_setRight, if_neg (fun e => h1 (e.symm.trans hn3.symm)), e3]
  simp only [heap_setParent, heap_setLeft, t5, if_neg hA.symm, if_neg hy.symm, e4]

/-! ## Rotations on a represented tree -/

lemma ptrOf_ne_of_not_mem {nil x : Ptr} {T : CTree (Slot κ ν)} (hx : x ≠ nil)
    (hT : x ∉ addrs T) : ptrOf nil T ≠ x := by
  cases T with
  | nil => exact fun h => hx h.symm
  | node l c s r => exact fun h => hT (by simp [← h])

/-- The root of a tree in a non-empty context is the top frame's node, whatever the hole holds. -/
lemma ptrOf_plug_cons (nil : Ptr) (f : Frame (Slot κ ν)) (q : Path (Slot κ ν))
    (T T' : CTree (Slot κ ν)) :
    ptrOf nil (Path.plug (f :: q) T) = ptrOf nil (Path.plug (f :: q) T') := by
  induction q generalizing f T T' with
  | nil => cases f <;> rfl
  | cons g q ih => exact ih g _ _

/-- `left_rot` at the focus of a represented tree rotates the focus. -/
theorem represents_leftRot {t : RbTree κ ν} {p : Path (Slot κ ν)} {a b e : CTree (Slot κ ν)}
    {c d : Colour} {s s' : Slot κ ν}
    (h : Represents t (p.plug (.node a c s (.node b d s' e)))) :
    Represents (leftRot t s.addr) (p.plug (.node (.node a c s b) d s' e)) := by
  obtain ⟨hreal, hroot, hnd0, hvalid, hnil0, hnillt, hnilb⟩ := h
  rw [realises_plug] at hreal
  obtain ⟨hpath, hA, ha, hB, hb, he⟩ := hreal
  have hval : ∀ z, z ∈ pathAddrs p ∨ z ∈ addrs (.node a c s (.node b d s' e)) → z ≠ t.nil :=
    fun z hz => (hvalid z (mem_addrs_plug.2 hz)).1
  have hnd := nodup_addrs_plug.1 hnd0
  simp only [addrs_node, List.nodup_append, List.nodup_cons, List.mem_append,
    List.mem_cons] at hnd hval
  obtain ⟨hndp, ⟨hnda, ⟨hAn, hndb, ⟨hBe, hnde⟩, hbBe⟩, haAbBe⟩, hpf⟩ := hnd
  -- the four nodes the rotation rewrites, and why they are distinct
  have hAnil : s.addr ≠ t.nil := hval _ (by simp)
  have hBnil : s'.addr ≠ t.nil := hval _ (by simp)
  have hsepL : ∀ z, z ∉ addrs b → z ≠ t.nil → z ≠ ptrOf t.nil b := fun z hz hn =>
    (ptrOf_ne_of_not_mem hn hz).symm
  have hsepP : ∀ z, z ∉ pathAddrs p → z ≠ t.nil → z ≠ parentPtr t.nil p := by
    intro z hz hn
    rcases parentPtr_eq_or_mem t.nil p with h | h
    · rw [h]; exact hn
    · exact fun e => hz (e ▸ h)
  have hAB : s.addr ≠ s'.addr := fun h => hAn (.inr (.inl h))
  have hLA : ptrOf t.nil b ≠ s.addr := (hsepL _ (fun h => hAn (.inl h)) hAnil).symm
  have hLB : ptrOf t.nil b ≠ s'.addr :=
    (hsepL _ (fun h => hbBe _ h _ (.inl rfl) rfl) hBnil).symm
  have hPA : parentPtr t.nil p ≠ s.addr :=
    (hsepP _ (fun h => hpf _ h _ (.inr (.inl rfl)) rfl) hAnil).symm
  have hPB : parentPtr t.nil p ≠ s'.addr :=
    (hsepP _ (fun h => hpf _ h _ (.inr (.inr (.inr (.inl rfl)))) rfl) hBnil).symm
  have hLP : ptrOf t.nil b ≠ t.nil → ptrOf t.nil b ≠ parentPtr t.nil p := fun hL =>
    hsepP _ (fun h => hpf _ h _ (.inr (.inr (.inl (ptrOf_mem_addrs hL)))) rfl) hL
  obtain ⟨hheap, hroot'⟩ := leftRot_spec t (by rw [hA]; rfl) (by rw [hB]) (by rw [hA]) hAB hLA hLB
    hPA hPB hLP
  have hkeep : ∀ z, z ≠ s.addr → z ≠ s'.addr → (z = ptrOf t.nil b → ptrOf t.nil b = t.nil) →
      (z = parentPtr t.nil p → parentPtr t.nil p = t.nil) →
      (leftRot t s.addr).heap z = t.heap z := by
    intro z h1 h2 h3 h4
    rw [hheap, if_neg h1, if_neg h2, if_neg (fun h => h.2 (h3 h.1)),
      if_neg (fun h => h.2 (h4 h.1))]
  -- every node off the four rewritten ones is untouched
  have hkeepOut : ∀ z, z ≠ t.nil → z ≠ s.addr → z ≠ s'.addr → z ∉ addrs b → z ∉ pathAddrs p →
      (leftRot t s.addr).heap z = t.heap z := fun z hn h1 h2 hb' hp' =>
    hkeep z h1 h2 (fun e => absurd e (hsepL z hb' hn)) (fun e => absurd e (hsepP z hp' hn))
  have haddrs : addrs (p.plug (.node (.node a c s b) d s' e)) =
      addrs (p.plug (.node a c s (.node b d s' e))) := by
    simp [addrs_plug]
  refine ⟨?_, ?_, haddrs ▸ hnd0, ?_, ?_, ?_, ?_⟩
  all_goals simp only [nil_leftRot, next_leftRot]
  · rw [realises_plug]
    refine ⟨?_, ?_, ⟨?_, ?_, ?_⟩, ?_⟩
    · -- the context: only the parent's pointer to the rotated subtree changes
      rcases p with _ | ⟨f, q⟩
      · trivial
      · have hPnil : f.payload.addr ≠ t.nil := hval _ (.inl (mem_pathAddrs_cons.2 (.inl rfl)))
        have hPP : parentPtr t.nil (f :: q) = f.payload.addr := rfl
        refine realisesPath_relink hpath hndp ?_ fun z hz hzP => ?_
        · rw [hPP] at hPA hPB hLP
          have hPL : ¬ (f.payload.addr = ptrOf t.nil b ∧ ptrOf t.nil b ≠ t.nil) :=
            fun h => hLP h.2 h.1.symm
          rw [hheap, hPP, if_neg hPA, if_neg hPB, if_neg hPL, if_pos ⟨rfl, hPnil⟩]
          cases f with
          | left fc fs fr =>
            have hfs : t.heap fs.addr = frameNode t.nil (.left fc fs fr) s.addr _ := hpath.1
            have hl : s.addr = (t.heap fs.addr).left := by rw [hfs]; rfl
            rw [Frame.payload_left, if_pos hl]; rfl
          | right fl fc fs =>
            have hfs : t.heap fs.addr = frameNode t.nil (.right fl fc fs) s.addr _ := hpath.1
            have hl : s.addr ≠ (t.heap fs.addr).left := by
              rw [hfs]
              exact (ptrOf_ne_of_not_mem hAnil fun h =>
                hpf _ (mem_pathAddrs_cons.2 (.inr (.inl h))) _ (.inr (.inl rfl)) rfl).symm
            rw [Frame.payload_right, if_neg hl]; rfl
        · have hzn : z ≠ t.nil := hval z (.inl hz)
          refine hkeep z (fun e => hpf _ hz _ (.inr (.inl rfl)) e)
            (fun e => hpf _ hz _ (.inr (.inr (.inr (.inl rfl)))) e) (fun e => ?_) (fun e => ?_)
          · exact absurd e (fun e' => hpf _ hz _ (.inr (.inr (.inl (e' ▸ ptrOf_mem_addrs
              (e' ▸ hzn))))) rfl)
          · exact absurd e hzP
    · -- `y` now hangs below the old parent, with `node` on its left
      rw [hheap, if_neg hAB.symm, if_pos rfl, hB]; rfl
    · rw [hheap, if_pos rfl, hA]
    · refine (realises_congr fun z hz => hkeepOut z ?_ ?_ ?_ ?_ ?_).2 ha
      · exact hval z (.inr (.inl hz))
      · exact haAbBe _ hz _ (.inl rfl)
      · exact haAbBe _ hz _ (.inr (.inr (.inl rfl)))
      · exact fun h => haAbBe _ hz _ (.inr (.inl h)) rfl
      · exact fun h => hpf _ h _ (.inl hz) rfl
    · -- `y`'s old left subtree is re-hung below `node`
      refine realises_rehang hb hndb (fun z hz hzL => ?_) (fun z hz hzL => ?_)
      · have hzA : z ≠ s.addr := fun e => hAn (.inl (e ▸ hz))
        have hzB : z ≠ s'.addr := fun e => hbBe _ hz _ (.inl rfl) e
        rw [hheap, if_neg hzA, if_neg hzB, if_pos ⟨hzL, hzL ▸ hval z (.inr (.inr (.inr (.inl hz))))⟩,
          hzL]
      · refine hkeep z (fun e => hAn (.inl (e ▸ hz))) (fun e => hbBe _ hz _ (.inl rfl) e)
          (fun e => absurd e hzL) (fun e => ?_)
        exact absurd e (hsepP z (fun h => hpf _ h _ (.inr (.inr (.inl hz))) rfl)
          (hval z (.inr (.inr (.inr (.inl hz))))))
    · refine (realises_congr fun z hz => hkeepOut z ?_ ?_ ?_ ?_ ?_).2 he
      · exact hval z (.inr (.inr (.inr (.inr (.inr hz)))))
      · exact fun h => hAn (.inr (.inr (h ▸ hz)))
      · exact fun h => hBe (h ▸ hz)
      · exact fun h => hbBe _ h _ (.inr hz) rfl
      · exact fun h => hpf _ h _ (.inr (.inr (.inr (.inr hz)))) rfl
  · rw [hroot', hroot]
    rcases p with _ | ⟨f, q⟩
    · simp
    · have hPnil : parentPtr t.nil (f :: q) ≠ t.nil :=
        hval _ (.inl (mem_pathAddrs_cons.2 (.inl rfl)))
      rw [if_neg hPnil]
      exact ptrOf_plug_cons _ _ _ _ _
  · exact haddrs ▸ hvalid
  · exact hnil0
  · exact hnillt
  · rw [hkeep _ hAnil.symm hBnil.symm (fun e => e.symm) (fun e => e.symm)]
    exact hnilb

/-! ## Right rotations, by symmetry -/

/-- `right_rot` is `left_rot` seen in the mirror. -/
lemma leftRot_mirror (t : RbTree κ ν) (A : Ptr) : leftRot t.mirror A = (rightRot t A).mirror := by
  unfold leftRot rightRot
  simp only [heap_mirror, left_mirrorNode, right_mirrorNode, parent_mirrorNode, nil_mirror,
    setRight_mirror, setLeft_mirror, setParent_mirror, setRoot_mirror, ite_mirror]

/-- `right_rot` at the focus of a represented tree rotates the focus. -/
theorem represents_rightRot {t : RbTree κ ν} {p : Path (Slot κ ν)} {a b e : CTree (Slot κ ν)}
    {c d : Colour} {s s' : Slot κ ν}
    (h : Represents t (p.plug (.node (.node a d s' b) c s e))) :
    Represents (rightRot t s.addr) (p.plug (.node a d s' (.node b c s e))) := by
  have hm := h.mirror
  rw [← Path.plug_mirror, CTree.mirror_node, CTree.mirror_node] at hm
  have hrot := represents_leftRot hm
  rw [leftRot_mirror] at hrot
  rw [← represents_mirror_iff, ← Path.plug_mirror, CTree.mirror_node, CTree.mirror_node]
  exact hrot

lemma rightRot_heap_nil (t : RbTree κ ν) {A : Ptr} (hA : A ≠ t.nil) (hB : (t.heap A).left ≠ t.nil) :
    (rightRot t A).heap t.nil = t.heap t.nil := by
  have h := leftRot_heap_nil t.mirror hA (by simpa using hB)
  rw [leftRot_mirror] at h
  simpa using congrArg mirrorNode h

/-! ## Writes and reads at the focus -/

/-- The root pointer of a tree in context depends only on the root pointer of the hole. -/
lemma ptrOf_plug_congr {nil : Ptr} (p : Path (Slot κ ν)) {T T' : CTree (Slot κ ν)}
    (h : ptrOf nil T = ptrOf nil T') : ptrOf nil (p.plug T) = ptrOf nil (p.plug T') := by
  cases p with
  | nil => exact h
  | cons f q => exact ptrOf_plug_cons nil f q T T'

/-- A write that rewrites the focus node in place, key, value and colour included, and
nothing else. -/
theorem represents_of_focus {t t' : RbTree κ ν} {p : Path (Slot κ ν)} {l r : CTree (Slot κ ν)}
    {c c' : Colour} {s s' : Slot κ ν} (h : Represents t (p.plug (.node l c s r)))
    (haddr : s'.addr = s.addr) (hnil : t'.nil = t.nil) (hnext : t'.next = t.next)
    (hroot : t'.root = t.root)
    (hs : t'.heap s.addr = ⟨s'.key, s'.value, c', ptrOf t.nil l, ptrOf t.nil r, parentPtr t.nil p⟩)
    (hagree : ∀ z, z ≠ s.addr → t'.heap z = t.heap z) :
    Represents t' (p.plug (.node l c' s' r)) := by
  obtain ⟨hreal, hroot0, hnd, hvalid, hnil0, hnillt, hnilb⟩ := h
  rw [realises_plug] at hreal
  obtain ⟨hpath, -, hl, hr⟩ := hreal
  have hnd' := nodup_addrs_plug.1 hnd
  simp only [addrs_node, List.nodup_append, List.nodup_cons, List.mem_append,
    List.mem_cons] at hnd'
  obtain ⟨-, ⟨-, ⟨hsr, -⟩, hls⟩, hps⟩ := hnd'
  have haddrs : addrs (p.plug (.node l c' s' r)) = addrs (p.plug (.node l c s r)) := by
    simp [addrs_plug, haddr]
  have hsnil : s.addr ≠ t.nil := (hvalid s.addr (mem_addrs_plug.2 (.inr (by simp)))).1
  refine ⟨?_, ?_, haddrs ▸ hnd, ?_, hnil ▸ hnil0, hnil ▸ hnext ▸ hnillt, ?_⟩
  · simp only [hnil, realises_plug, realises_node, ptrOf_node, haddr]
    refine ⟨(realisesPath_congr fun z hz => hagree z fun e => ?_).2 hpath, ?_,
      (realises_congr fun z hz => hagree z fun e => ?_).2 hl,
      (realises_congr fun z hz => hagree z fun e => ?_).2 hr⟩
    · exact hps z hz s.addr (.inr (.inl rfl)) e
    · rw [hs]
    · exact hls z hz s.addr (.inl rfl) e
    · exact hsr (e ▸ hz)
  · rw [hroot, hroot0, hnil]
    exact ptrOf_plug_congr p (by rw [ptrOf_node, ptrOf_node, haddr])
  · intro z hz
    rw [hnil, hnext]
    exact hvalid z (haddrs ▸ hz)
  · rw [hnil, hagree t.nil hsnil.symm]
    exact hnilb

/-- `node->colour = c'` at the focus repaints the focus. -/
theorem represents_setColour {t : RbTree κ ν} {p : Path (Slot κ ν)} {l r : CTree (Slot κ ν)}
    {c : Colour} {s : Slot κ ν} (c' : Colour) (h : Represents t (p.plug (.node l c s r))) :
    Represents (t.setColour s.addr c') (p.plug (.node l c' s r)) := by
  refine represents_of_focus h rfl rfl rfl rfl ?_ fun z hz => ?_
  · rw [heap_setColour, if_pos rfl, h.heap_focus]
  · rw [heap_setColour, if_neg hz]

/-- `node->value = v` at the focus rewrites the focus's value. -/
theorem represents_setValue {t : RbTree κ ν} {p : Path (Slot κ ν)} {l r : CTree (Slot κ ν)}
    {c : Colour} {s : Slot κ ν} (v : ν) (h : Represents t (p.plug (.node l c s r))) :
    Represents (t.setValue s.addr v) (p.plug (.node l c { s with value := v } r)) := by
  refine represents_of_focus h rfl rfl rfl rfl ?_ fun z hz => ?_
  · rw [heap_setValue, if_pos rfl, h.heap_focus]
  · rw [heap_setValue, if_neg hz]

/-- Painting the sentinel black changes nothing: it is black, and no tree reads it. -/
theorem represents_setColour_nil {t : RbTree κ ν} {T : CTree (Slot κ ν)} (h : Represents t T) :
    Represents (t.setColour t.nil .black) T := by
  have hagree : ∀ z ∈ addrs T, (t.setColour t.nil .black).heap z = t.heap z := fun z hz => by
    rw [heap_setColour, if_neg (h.addr_valid z hz).1]
  refine ⟨(realises_congr hagree).2 h.realises, h.root, h.nodup, h.addr_valid, h.nil_ne_null,
    h.nil_lt, ?_⟩
  rw [nil_setColour, colour_setColour, if_pos rfl]

/-- `tree->root->colour = BLACK`. -/
theorem represents_setColour_root {t : RbTree κ ν} {T : CTree (Slot κ ν)} (h : Represents t T) :
    Represents (t.setColour t.root .black) (T.setColour .black) := by
  cases T with
  | nil =>
    rw [h.root, ptrOf_nil]
    exact represents_setColour_nil h
  | node l c s r =>
    rw [h.root, ptrOf_node]
    exact represents_setColour (p := []) .black h

end RbTree

end Isulad
