import Isulad.Map.RbTree.Rotation
import Isulad.Framework.InsertFixup

/-!
# `rbtree_insert_fixup` follows the walk `insFix`

Each pass of the `while` loop of `rbtree_insert_fixup` is one `InsPass` of the abstract walk
(`insertFixupBody_pass`): reading the node's parent, grandparent and uncle through the heap
gives the frames of the zipper, and the writes of each branch are the recolourings and
rotations of `Rotation.lean` at the right foci. The branches with the parent on the right are
the mirror images of those with it on the left (`represents_recolourR` and its neighbours are
proved from the left ones through `Represents.mirror`).

`insertFixupLoop_represents` runs the loop: from a state satisfying `InsInv`, with enough fuel,
it leaves the loop normally (never by the `return` on a `NULL` uncle) in a heap that
represents `insFix p T`; `rbtreeInsertFixup_represents` adds the final blackening of the root.
`t.next` is always enough fuel, since each pass climbs at least one level.
-/

namespace Isulad

open ColouredTree

namespace RbTree

variable {κ ν : Type}

/-! ## The branches of the loop body -/

section Body

variable {t : RbTree κ ν} {node P G Y : Ptr}

/-- Parent `P` on the left of the grandparent `G`, red uncle `Y`: recolour, go on at `G`. -/
lemma insertFixupBody_left_red (hP : (t.heap node).parent = P) (hG : (t.heap P).parent = G)
    (hGl : (t.heap G).left = P) (hY : (t.heap G).right = Y) (hY0 : Y ≠ 0)
    (hYc : (t.heap Y).colour = .red) :
    insertFixupBody t node =
      some (((t.setColour P .black).setColour Y .black).setColour G .red, G) := by
  unfold insertFixupBody
  simp only [hP, hG, hGl, hY, parent_setColour, if_true, if_neg hY0, hYc]

/-- Black uncle, `node` the left child of `P`: one rotation at `G`. -/
lemma insertFixupBody_left_outer (hP : (t.heap node).parent = P) (hG : (t.heap P).parent = G)
    (hGl : (t.heap G).left = P) (hY : (t.heap G).right = Y) (hY0 : Y ≠ 0)
    (hYc : (t.heap Y).colour ≠ .red) (hin : node ≠ (t.heap P).right) :
    insertFixupBody t node = some (rightRot ((t.setColour P .black).setColour G .red) G, node) := by
  unfold insertFixupBody
  simp only [hP, hG, hGl, hY, parent_setColour, if_true, if_neg hY0, if_neg hYc, if_neg hin]

/-- Black uncle, `node` the right child of `P`: rotate at `P`, then at `G`; `P` is the new
`node`. -/
lemma insertFixupBody_left_inner (hP : (t.heap node).parent = P) (hG : (t.heap P).parent = G)
    (hGl : (t.heap G).left = P) (hY : (t.heap G).right = Y) (hY0 : Y ≠ 0)
    (hYc : (t.heap Y).colour ≠ .red) (hin : node = (t.heap P).right)
    (hP' : ((leftRot t P).heap P).parent = node) (hN' : ((leftRot t P).heap node).parent = G) :
    insertFixupBody t node =
      some (rightRot (((leftRot t P).setColour node .black).setColour G .red) G, P) := by
  unfold insertFixupBody
  simp only [hP, hG, hGl, hY, parent_setColour, if_true, if_neg hY0, if_neg hYc, if_pos hin,
    hP', hN']

lemma insertFixupBody_right_red (hP : (t.heap node).parent = P) (hG : (t.heap P).parent = G)
    (hY : (t.heap G).left = Y) (hPY : P ≠ Y) (hY0 : Y ≠ 0) (hYc : (t.heap Y).colour = .red) :
    insertFixupBody t node =
      some (((t.setColour P .black).setColour Y .black).setColour G .red, G) := by
  unfold insertFixupBody
  simp only [hP, hG, hY, parent_setColour, if_neg hPY, if_neg hY0, hYc, if_true]

lemma insertFixupBody_right_outer (hP : (t.heap node).parent = P) (hG : (t.heap P).parent = G)
    (hY : (t.heap G).left = Y) (hPY : P ≠ Y) (hY0 : Y ≠ 0) (hYc : (t.heap Y).colour ≠ .red)
    (hin : node ≠ (t.heap P).left) :
    insertFixupBody t node = some (leftRot ((t.setColour P .black).setColour G .red) G, node) := by
  unfold insertFixupBody
  simp only [hP, hG, hY, parent_setColour, if_neg hPY, if_neg hY0, if_neg hYc, if_neg hin]

lemma insertFixupBody_right_inner (hP : (t.heap node).parent = P) (hG : (t.heap P).parent = G)
    (hY : (t.heap G).left = Y) (hPY : P ≠ Y) (hY0 : Y ≠ 0) (hYc : (t.heap Y).colour ≠ .red)
    (hin : node = (t.heap P).left)
    (hP' : ((rightRot t P).heap P).parent = node) (hN' : ((rightRot t P).heap node).parent = G) :
    insertFixupBody t node =
      some (leftRot (((rightRot t P).setColour node .black).setColour G .red) G, P) := by
  unfold insertFixupBody
  simp only [hP, hG, hY, parent_setColour, if_neg hPY, if_neg hY0, if_neg hYc, if_pos hin,
    hP', hN']

end Body

/-! ## The branches on a represented tree -/

/-- Repainting the parent of the focus. -/
lemma represents_setColour_frame {t : RbTree κ ν} {f : Frame (Slot κ ν)} {p : Path (Slot κ ν)}
    {T : CTree (Slot κ ν)} (c : Colour) (h : Represents t (Path.plug (f :: p) T)) :
    Represents (t.setColour f.payload.addr c) (p.plug ((f.plug T).setColour c)) := by
  cases f with
  | left fc fs fr => exact represents_setColour c h
  | right fl fc fs => exact represents_setColour c h

/-- The sibling of a subtree in context has a root pointer other than any node of it. -/
lemma Represents.ptrOf_sibling_ne {t : RbTree κ ν} {f : Frame (Slot κ ν)} {p : Path (Slot κ ν)}
    {T : CTree (Slot κ ν)} (h : Represents t (Path.plug (f :: p) T)) {z : Ptr}
    (hz : z ∈ addrs T) : ptrOf t.nil f.sibling ≠ z := by
  have hzn := (h.addr_valid z (mem_addrs_plug.2 (.inr hz))).1
  refine ptrOf_ne_of_not_mem hzn fun hs => ?_
  have hnd := List.nodup_append.1 (nodup_addrs_plug.1 h.nodup)
  exact hnd.2.2 z (mem_pathAddrs_cons.2 (.inr (.inl hs))) z hz rfl

section Passes

variable {t : RbTree κ ν} {q : Path (Slot κ ν)} {gc : Colour} {g : Slot κ ν}

theorem represents_recolourL {f : Frame (Slot κ ν)} {us : Slot κ ν} {ul ur T : CTree (Slot κ ν)}
    (h : Represents t (Path.plug (f :: .left gc g (.node ul .red us ur) :: q) T)) :
    Represents (((t.setColour f.payload.addr .black).setColour us.addr .black).setColour g.addr .red)
      (q.plug (.node ((f.plug T).setColour .black) .red g (.node ul .black us ur))) := by
  have h1 := represents_setColour_frame .black h
  have h2 := represents_setColour (p := .right ((f.plug T).setColour .black) gc g :: q) .black h1
  exact represents_setColour (p := q) .red h2

theorem represents_outerL {px : Slot κ ν} {pr u T : CTree (Slot κ ν)}
    (h : Represents t (Path.plug (.left .red px pr :: .left gc g u :: q) T)) :
    Represents (rightRot ((t.setColour px.addr .black).setColour g.addr .red) g.addr)
      (Path.plug (.left .black px (.node pr .red g u) :: q) T) := by
  have h1 := represents_setColour (p := .left gc g u :: q) .black h
  have h2 := represents_setColour (p := q) .red h1
  exact represents_rightRot h2

theorem represents_innerL {px tx : Slot κ ν} {pl u tl tr : CTree (Slot κ ν)} {tc : Colour}
    (h : Represents t (Path.plug (.right pl .red px :: .left gc g u :: q) (.node tl tc tx tr))) :
    Represents (rightRot (((leftRot t px.addr).setColour tx.addr .black).setColour g.addr .red)
        g.addr)
      (Path.plug (.left .black tx (.node tr .red g u) :: q) (.node pl .red px tl)) := by
  have h1 := represents_leftRot (p := .left gc g u :: q) h
  have h2 := represents_setColour (p := .left gc g u :: q) .black h1
  have h3 := represents_setColour (p := q) .red h2
  exact represents_rightRot h3

lemma rightRot_mirror (t : RbTree κ ν) (A : Ptr) : rightRot t.mirror A = (leftRot t A).mirror := by
  rw [← mirror_mirror (rightRot t.mirror A), ← leftRot_mirror, mirror_mirror]

theorem represents_recolourR {f : Frame (Slot κ ν)} {us : Slot κ ν} {ul ur T : CTree (Slot κ ν)}
    (h : Represents t (Path.plug (f :: .right (.node ul .red us ur) gc g :: q) T)) :
    Represents (((t.setColour f.payload.addr .black).setColour us.addr .black).setColour g.addr .red)
      (q.plug (.node (.node ul .black us ur) .red g ((f.plug T).setColour .black))) := by
  have hm := h.mirror
  rw [← Path.plug_mirror] at hm
  simp only [Path.mirror_cons, Frame.mirror_right, CTree.mirror_node] at hm
  have h' := represents_recolourL hm
  rw [← represents_mirror_iff, ← Path.plug_mirror]
  simpa [RbTree.setColour_mirror, Frame.plug_mirror] using h'

attribute [local simp] ColouredTree.Frame.mirror in
theorem represents_outerR {px : Slot κ ν} {pl u T : CTree (Slot κ ν)}
    (h : Represents t (Path.plug (.right pl .red px :: .right u gc g :: q) T)) :
    Represents (leftRot ((t.setColour px.addr .black).setColour g.addr .red) g.addr)
      (Path.plug (.right (.node u .red g pl) .black px :: q) T) := by
  have hm := h.mirror
  rw [← Path.plug_mirror] at hm
  simp only [Path.mirror_cons, Frame.mirror_right] at hm
  have h' := represents_outerL hm
  rw [← represents_mirror_iff, ← Path.plug_mirror]
  simpa [RbTree.setColour_mirror, rightRot_mirror, Frame.mirror] using h'

theorem represents_innerR {px tx : Slot κ ν} {pr u tl tr : CTree (Slot κ ν)} {tc : Colour}
    (h : Represents t (Path.plug (.left .red px pr :: .right u gc g :: q) (.node tl tc tx tr))) :
    Represents (leftRot (((rightRot t px.addr).setColour tx.addr .black).setColour g.addr .red)
        g.addr)
      (Path.plug (.right (.node u .red g tl) .black tx :: q) (.node tr .red px pr)) := by
  have hm := h.mirror
  rw [← Path.plug_mirror] at hm
  simp only [Path.mirror_cons, Frame.mirror_left, Frame.mirror_right, CTree.mirror_node] at hm
  have h' := represents_innerL hm
  rw [← represents_mirror_iff, ← Path.plug_mirror]
  simpa [RbTree.setColour_mirror, rightRot_mirror, leftRot_mirror, Frame.mirror] using h'

end Passes

/-! ## One pass of the loop -/

lemma payload_mem_addrs_plug (f : Frame (Slot κ ν)) (T : CTree (Slot κ ν)) :
    f.payload.addr ∈ addrs (f.plug T) := by
  cases f <;> simp

/-- The loop condition `node->parent->colour == RED` reads `ParentRed` off the context. -/
lemma Represents.colour_parent {t : RbTree κ ν} {p : Path (Slot κ ν)} {l r : CTree (Slot κ ν)}
    {c : Colour} {s : Slot κ ν} (h : Represents t (p.plug (.node l c s r))) :
    (t.heap (t.heap s.addr).parent).colour = .red ↔ ParentRed p := by
  rw [h.heap_focus]
  cases p with
  | nil => simp [ParentRed, h.nil_black]
  | cons f q =>
    rw [show parentPtr t.nil (f :: q) = f.payload.addr from rfl, h.heap_frame, colour_frameNode]
    simp [ParentRed]

/-- One pass of the loop body on a represented tree is one pass of the walk: the body
continues (it never takes the `return` on a `NULL` uncle) from the focus of the next pass. -/
theorem insertFixupBody_pass {t : RbTree κ ν} {p p' : Path (Slot κ ν)}
    {l r T' : CTree (Slot κ ν)} {c : Colour} {s : Slot κ ν}
    (h : Represents t (p.plug (.node l c s r))) (hp : InsPass p (.node l c s r) p' T') :
    ∃ t', insertFixupBody t s.addr = some (t', ptrOf t.nil T') ∧ t'.nil = t.nil ∧
      Represents t' (p'.plug T') := by
  cases hp with
  | @recolourL f gc gx u _ _ hf hu =>
    obtain ⟨ul, us, ur, rfl⟩ := CTree.eq_node_of_colour_red hu
    have hG := Represents.heap_frame_left (p := p') h
    have hu' : Represents t (Path.plug (.right (f.plug (.node l c s r)) gc gx :: p')
        (.node ul .red us ur)) := h
    refine ⟨_, insertFixupBody_left_red (P := f.payload.addr) (G := gx.addr) ?_ ?_ ?_ ?_ hu'.ptrOf_ne_zero ?_, by simp,
      represents_recolourL h⟩
    · rw [h.heap_focus]
      rfl
    · rw [h.heap_frame, parent_frameNode]
      rfl
    · rw [hG]
      exact ptrOf_frame_plug _ _ _
    · rw [hG]
    · exact hu'.colour_ptrOf
  | @recolourR f gc gx u _ _ hf hu =>
    obtain ⟨ul, us, ur, rfl⟩ := CTree.eq_node_of_colour_red hu
    have hG := Represents.heap_frame_right (p := p') h
    have hu' : Represents t (Path.plug (.left gc gx (f.plug (.node l c s r)) :: p')
        (.node ul .red us ur)) := h
    have hPY : f.payload.addr ≠ us.addr :=
      (Represents.ptrOf_sibling_ne (p := p') h (payload_mem_addrs_plug f _)).symm
    refine ⟨_, insertFixupBody_right_red (P := f.payload.addr) (G := gx.addr) ?_ ?_ ?_ hPY hu'.ptrOf_ne_zero ?_, by simp,
      represents_recolourR h⟩
    · rw [h.heap_focus]
      rfl
    · rw [h.heap_frame, parent_frameNode]
      rfl
    · rw [hG]
      rfl
    · exact hu'.colour_ptrOf
  | @outerL px gx pr u gc q _ hu =>
    have hF := Represents.heap_frame_left h
    have hG := Represents.heap_frame_left (p := q) h
    have hu' : Represents t (Path.plug (.right (.node (.node l c s r) .red px pr) gc gx :: q) u) :=
      h
    have hin : s.addr ≠ (t.heap px.addr).right := by
      rw [hF]
      exact (h.ptrOf_sibling_ne (z := s.addr) (by simp)).symm
    refine ⟨_, insertFixupBody_left_outer (P := px.addr) (G := gx.addr) ?_ ?_ ?_ ?_ hu'.ptrOf_ne_zero ?_ hin,
      by simp, represents_outerL h⟩
    · rw [h.heap_focus]
      rfl
    · rw [hF]
      rfl
    · rw [hG]
      rfl
    · rw [hG]
    · rw [hu'.colour_ptrOf]
      exact hu
  | @outerR px gx pl u gc q _ hu =>
    have hF := Represents.heap_frame_right h
    have hG := Represents.heap_frame_right (p := q) h
    have hu' : Represents t (Path.plug (.left gc gx (.node pl .red px (.node l c s r)) :: q) u) :=
      h
    have hPY : px.addr ≠ ptrOf t.nil u :=
      (Represents.ptrOf_sibling_ne (p := q) h (z := px.addr) (by simp)).symm
    have hin : s.addr ≠ (t.heap px.addr).left := by
      rw [hF]
      exact (h.ptrOf_sibling_ne (z := s.addr) (by simp)).symm
    refine ⟨_, insertFixupBody_right_outer (P := px.addr) (G := gx.addr) ?_ ?_ ?_ hPY hu'.ptrOf_ne_zero ?_ hin,
      by simp, represents_outerR h⟩
    · rw [h.heap_focus]
      rfl
    · rw [hF]
      rfl
    · rw [hG]
    · rw [hu'.colour_ptrOf]
      exact hu
  | @innerL px gx _ pl u _ _ gc _ q hu =>
    have hF := Represents.heap_frame_right h
    have hG := Represents.heap_frame_left (p := q) h
    have hu' : Represents t
        (Path.plug (.right (.node pl .red px (.node l c s r)) gc gx :: q) u) := h
    -- after `left_rot` at the parent, the parent hangs below the old focus
    have h1 := represents_leftRot (p := .left gc gx u :: q) h
    have hP' : ((leftRot t px.addr).heap px.addr).parent = s.addr := by
      rw [Represents.heap_focus (p := .left c s r :: .left gc gx u :: q) h1]
      rfl
    have hN' : ((leftRot t px.addr).heap s.addr).parent = gx.addr := by
      rw [Represents.heap_focus (p := .left gc gx u :: q) h1]
      rfl
    have hin : s.addr = (t.heap px.addr).right := by
      rw [hF]
      rfl
    refine ⟨_, insertFixupBody_left_inner (P := px.addr) (G := gx.addr) ?_ ?_ ?_ ?_ hu'.ptrOf_ne_zero ?_ hin hP' hN',
      by simp, represents_innerL h⟩
    · rw [h.heap_focus]
      rfl
    · rw [hF]
      rfl
    · rw [hG]
      rfl
    · rw [hG]
    · rw [hu'.colour_ptrOf]
      exact hu
  | @innerR px gx _ pr u _ _ gc _ q hu =>
    have hF := Represents.heap_frame_left h
    have hG := Represents.heap_frame_right (p := q) h
    have hu' : Represents t
        (Path.plug (.left gc gx (.node (.node l c s r) .red px pr) :: q) u) := h
    have hPY : px.addr ≠ ptrOf t.nil u :=
      (Represents.ptrOf_sibling_ne (p := q) h (z := px.addr) (by simp)).symm
    have h1 := represents_rightRot (p := .right u gc gx :: q) h
    have hP' : ((rightRot t px.addr).heap px.addr).parent = s.addr := by
      rw [Represents.heap_focus (p := .right l c s :: .right u gc gx :: q) h1]
      rfl
    have hN' : ((rightRot t px.addr).heap s.addr).parent = gx.addr := by
      rw [Represents.heap_focus (p := .right u gc gx :: q) h1]
      rfl
    have hin : s.addr = (t.heap px.addr).left := by
      rw [hF]
      rfl
    refine ⟨_, insertFixupBody_right_inner (P := px.addr) (G := gx.addr) ?_ ?_ ?_ hPY hu'.ptrOf_ne_zero ?_ hin hP' hN',
      by simp, represents_innerR h⟩
    · rw [h.heap_focus]
      rfl
    · rw [hF]
      rfl
    · rw [hG]
    · rw [hu'.colour_ptrOf]
      exact hu

/-! ## The loop -/

/-- The loop of `rbtree_insert_fixup`, from a state satisfying the invariant and with fuel for
every level of the context, exits normally in a heap that represents the walk's result. -/
theorem insertFixupLoop_represents (fuel : Nat) {t : RbTree κ ν} {p : Path (Slot κ ν)}
    {T : CTree (Slot κ ν)} (h : Represents t (p.plug T)) (hinv : InsInv p T)
    (hfuel : p.length < fuel) :
    ∃ t', insertFixupLoop fuel t (ptrOf t.nil T) = (t', .loopDone) ∧ t'.nil = t.nil ∧
      Represents t' (insFix p T) := by
  -- induction on the fuel; the invariant and one pass of the body carry each step
  induction fuel generalizing t p T with
  | zero => exact absurd hfuel (Nat.not_lt_zero _)
  | succ fuel ih =>
    obtain ⟨l, s, r, n, rfl, -⟩ := id hinv
    rw [insertFixupLoop, ptrOf_node]
    by_cases hred : ParentRed p
    · obtain ⟨p', T', hp⟩ := hinv.exists_pass hred
      obtain ⟨t', hbody, hnil, h'⟩ := insertFixupBody_pass h hp
      obtain ⟨t'', hloop, hnil', h''⟩ :=
        ih h' (hinv.pass hp) (by have := hp.length_lt; omega)
      rw [if_pos (h.colour_parent.2 hred), hbody]
      rw [hnil] at hloop
      exact ⟨t'', hloop, hnil'.trans hnil, insFix_of_pass hp ▸ h''⟩
    · rw [if_neg (fun hc => hred (h.colour_parent.1 hc)), insFix_of_none (insStep_eq_none hred)]
      exact ⟨t, rfl, rfl, h⟩

/-- `rbtree_insert_fixup(tree, node)` on a state satisfying the invariant repairs the tree as
the walk does and blackens the root. -/
theorem rbtreeInsertFixup_represents {t : RbTree κ ν} {p : Path (Slot κ ν)}
    {T : CTree (Slot κ ν)} (h : Represents t (p.plug T)) (hinv : InsInv p T) :
    Represents (rbtreeInsertFixup t (ptrOf t.nil T)) ((insFix p T).setColour .black) := by
  obtain ⟨t', hloop, -, h'⟩ := insertFixupLoop_represents t.next h hinv h.length_lt_next
  rw [rbtreeInsertFixup, hloop]
  exact represents_setColour_root h'

end RbTree

end Isulad
