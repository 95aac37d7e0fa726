import Isulad.Map.RbTree.InsertFixup
import Isulad.Map.RbTree.Search
import Isulad.Framework.EraseFixup

/-!
# `rbtree_erase_fixup` follows the walk `delFix`

Each pass of the `while` loop of `rbtree_erase_fixup` is one `DelPass` of the abstract walk
(`eraseFixupBody_pass`): `do_with_left_node_not_null` when `node` is its parent's left child,
`do_with_left_node_null` otherwise. The first `if` of each is case 1, `sibStep`. Its writes
leave a tree on which the rest of the function runs as it would have from a black sibling
(`doWithLeftNodeNotNull_red`), so cases 2 to 4 are proved once, from a black sibling
(`doWithLeftNodeNotNull_pass`, `doWithLeftNodeNull_pass`).

`node` may be the sentinel: `rbtree_erase` starts the loop at the child that took the removed
node's place, which may be a leaf, and the code then reads the sentinel's parent field, which
`rbtree_transplant` wrote. So the loop carries, besides `Represents`, that the parent pointer
stored for the focus is its context's parent (`FocusHangs`). For a node `Represents` says so;
the sentinel's node is written by none of the recolourings and rotations of a pass
(`leftRot_heap_nil`).

`eraseFixupLoop_represents` runs the loop from a state satisfying `DelInv`, with fuel for every
pass, and `rbtreeEraseFixup_represents` adds the final `node->colour = BLACK`.
-/

namespace Isulad

open ColouredTree

namespace RbTree

variable {κ ν : Type}

/-! ## The branches of a pass -/

section Body

variable {t t₁ t₂ : RbTree κ ν} {node P S SL SR : Ptr} {pc : Colour}

/-- Case 1 for a left child: with a red sibling `S`, the parent `P` turns red, `S` black, and
`P` is rotated left. What follows reads the new sibling, which is black, and so runs as the
whole function does from the rotated tree. -/
lemma doWithLeftNodeNotNull_red (hP : (t.heap node).parent = P) (hS : (t.heap P).right = S)
    (hSc : (t.heap S).colour = .red) (h₁ : leftRot ((t.setColour P .red).setColour S .black) P = t₁)
    (hP₁ : (t₁.heap node).parent = P) (hS₁ : (t₁.heap (t₁.heap P).right).colour ≠ .red) :
    doWithLeftNodeNotNull t node = doWithLeftNodeNotNull t₁ node := by
  unfold doWithLeftNodeNotNull
  simp only [hP, hS, if_pos hSc, parent_setColour, h₁, hP₁, if_neg hS₁]

/-- Case 2: a black sibling with black children turns red; the walk climbs to `P`. -/
lemma doWithLeftNodeNotNull_climb (hP : (t.heap node).parent = P) (hS : (t.heap P).right = S)
    (hSc : (t.heap S).colour ≠ .red) (hL : (t.heap S).left = SL) (hR : (t.heap S).right = SR)
    (hflag : (SL = t.nil ∨ (t.heap SL).colour = .black) ∧
      (SR = t.nil ∨ (t.heap SR).colour = .black)) :
    doWithLeftNodeNotNull t node = (t.setColour S .red, P) := by
  unfold doWithLeftNodeNotNull
  simp only [hP, hS, if_neg hSc, hL, hR, if_pos hflag, parent_setColour]

/-- Case 4: the far child `SR` of the black sibling is red. The sibling takes the parent's
colour, parent and far child turn black, and `P` is rotated left; the walk ends at the root. -/
lemma doWithLeftNodeNotNull_far (hP : (t.heap node).parent = P) (hS : (t.heap P).right = S)
    (hSc : (t.heap S).colour ≠ .red) (hL : (t.heap S).left = SL) (hR : (t.heap S).right = SR)
    (hflag : ¬ ((SL = t.nil ∨ (t.heap SL).colour = .black) ∧
      (SR = t.nil ∨ (t.heap SR).colour = .black)))
    (hfar : ¬ (SR = t.nil ∨ (t.heap SR).colour = .black)) (hPc : (t.heap P).colour = pc)
    (h₂ : leftRot (((t.setColour S pc).setColour P .black).setColour SR .black) P = t₂) :
    doWithLeftNodeNotNull t node = (t₂, t₂.root) := by
  unfold doWithLeftNodeNotNull
  simp only [hP, hS, if_neg hSc, hL, hR, if_neg hflag, if_neg hfar, hPc, parent_setColour,
    right_setColour, h₂]

/-- Case 3 and then case 4: the near child `SL` is red and the far one black. `S` turns red,
`SL` black, `S` is rotated right, and case 4 runs with `SL` as the sibling. -/
lemma doWithLeftNodeNotNull_near (hP : (t.heap node).parent = P) (hS : (t.heap P).right = S)
    (hSc : (t.heap S).colour ≠ .red) (hL : (t.heap S).left = SL) (hR : (t.heap S).right = SR)
    (hflag : ¬ ((SL = t.nil ∨ (t.heap SL).colour = .black) ∧
      (SR = t.nil ∨ (t.heap SR).colour = .black)))
    (hnear : SR = t.nil ∨ (t.heap SR).colour = .black)
    (h₁ : rightRot ((t.setColour S .red).setColour SL .black) S = t₁)
    (hP₁ : (t₁.heap node).parent = P) (hS₁ : (t₁.heap P).right = SL)
    (hPc : (t₁.heap P).colour = pc) (hSL : (t₁.heap SL).right = S)
    (h₂ : leftRot (((t₁.setColour SL pc).setColour P .black).setColour S .black) P = t₂) :
    doWithLeftNodeNotNull t node = (t₂, t₂.root) := by
  unfold doWithLeftNodeNotNull
  simp only [hP, hS, if_neg hSc, hL, hR, if_neg hflag, if_pos hnear, left_setColour, h₁, hP₁,
    hS₁, hPc, parent_setColour, right_setColour, hSL, h₂]

/-- Case 1 for a right child. The code paints the sibling before the parent. -/
lemma doWithLeftNodeNull_red (hP : (t.heap node).parent = P) (hS : (t.heap P).left = S)
    (hSc : (t.heap S).colour = .red) (h₁ : rightRot ((t.setColour S .black).setColour P .red) P = t₁)
    (hP₁ : (t₁.heap node).parent = P) (hS₁ : (t₁.heap (t₁.heap P).left).colour ≠ .red) :
    doWithLeftNodeNull t node = doWithLeftNodeNull t₁ node := by
  unfold doWithLeftNodeNull
  simp only [hP, hS, if_pos hSc, parent_setColour, h₁, hP₁, if_neg hS₁]

lemma doWithLeftNodeNull_climb (hP : (t.heap node).parent = P) (hS : (t.heap P).left = S)
    (hSc : (t.heap S).colour ≠ .red) (hL : (t.heap S).left = SL) (hR : (t.heap S).right = SR)
    (hflag : (SR = t.nil ∨ (t.heap SR).colour = .black) ∧
      (SL = t.nil ∨ (t.heap SL).colour = .black)) :
    doWithLeftNodeNull t node = (t.setColour S .red, P) := by
  unfold doWithLeftNodeNull
  simp only [hP, hS, if_neg hSc, hL, hR, if_pos hflag, parent_setColour]

lemma doWithLeftNodeNull_far (hP : (t.heap node).parent = P) (hS : (t.heap P).left = S)
    (hSc : (t.heap S).colour ≠ .red) (hL : (t.heap S).left = SL) (hR : (t.heap S).right = SR)
    (hflag : ¬ ((SR = t.nil ∨ (t.heap SR).colour = .black) ∧
      (SL = t.nil ∨ (t.heap SL).colour = .black)))
    (hfar : ¬ (SL = t.nil ∨ (t.heap SL).colour = .black)) (hPc : (t.heap P).colour = pc)
    (h₂ : rightRot (((t.setColour S pc).setColour P .black).setColour SL .black) P = t₂) :
    doWithLeftNodeNull t node = (t₂, t₂.root) := by
  unfold doWithLeftNodeNull
  simp only [hP, hS, if_neg hSc, hL, hR, if_neg hflag, if_neg hfar, hPc, parent_setColour,
    left_setColour, h₂]

lemma doWithLeftNodeNull_near (hP : (t.heap node).parent = P) (hS : (t.heap P).left = S)
    (hSc : (t.heap S).colour ≠ .red) (hL : (t.heap S).left = SL) (hR : (t.heap S).right = SR)
    (hflag : ¬ ((SR = t.nil ∨ (t.heap SR).colour = .black) ∧
      (SL = t.nil ∨ (t.heap SL).colour = .black)))
    (hnear : SL = t.nil ∨ (t.heap SL).colour = .black)
    (h₁ : leftRot ((t.setColour S .red).setColour SR .black) S = t₁)
    (hP₁ : (t₁.heap node).parent = P) (hS₁ : (t₁.heap P).left = SR)
    (hPc : (t₁.heap P).colour = pc) (hSR : (t₁.heap SR).left = S)
    (h₂ : rightRot (((t₁.setColour SR pc).setColour P .black).setColour S .black) P = t₂) :
    doWithLeftNodeNull t node = (t₂, t₂.root) := by
  unfold doWithLeftNodeNull
  simp only [hP, hS, if_neg hSc, hL, hR, if_neg hflag, if_pos hnear, right_setColour, h₁, hP₁,
    hS₁, hPc, parent_setColour, left_setColour, hSR, h₂]

end Body

/-! ## The branches on a represented tree -/

section Passes

variable {t : RbTree κ ν} {q : Path (Slot κ ν)} {pc : Colour} {px sx : Slot κ ν}
  {T sl sr : CTree (Slot κ ν)}

theorem represents_delSibL (h : Represents t (Path.plug (.left pc px (.node sl .red sx sr) :: q) T)) :
    Represents (leftRot ((t.setColour px.addr .red).setColour sx.addr .black) px.addr)
      (Path.plug (.left .red px sl :: .left .black sx sr :: q) T) := by
  have h1 := represents_setColour (p := q) .red h
  have h2 := represents_setColour (p := .right T .red px :: q) .black h1
  exact represents_leftRot (p := q) h2

theorem represents_delClimbL
    (h : Represents t (Path.plug (.left pc px (.node sl .black sx sr) :: q) T)) :
    Represents (t.setColour sx.addr .red) (q.plug (.node T pc px (.node sl .red sx sr))) :=
  represents_setColour (p := .right T pc px :: q) .red h

theorem represents_delNearL {a b : CTree (Slot κ ν)} {lx : Slot κ ν}
    (h : Represents t (Path.plug (.left pc px (.node (.node a .red lx b) .black sx sr) :: q) T)) :
    Represents (rightRot ((t.setColour sx.addr .red).setColour lx.addr .black) sx.addr)
      (Path.plug (.left pc px (.node a .black lx (.node b .red sx sr)) :: q) T) := by
  have h1 := represents_setColour (p := .right T pc px :: q) .red h
  have h2 := represents_setColour (p := .left .red sx sr :: .right T pc px :: q) .black h1
  exact represents_rightRot (p := .right T pc px :: q) h2

theorem represents_delFarL {b e : CTree (Slot κ ν)} {y : Slot κ ν}
    (h : Represents t (Path.plug (.left pc px (.node sl .black sx (.node b .red y e)) :: q) T)) :
    Represents (leftRot (((t.setColour sx.addr pc).setColour px.addr .black).setColour y.addr
        .black) px.addr)
      (q.plug (.node (.node T .black px sl) pc sx (.node b .black y e))) := by
  have h1 := represents_setColour (p := .right T pc px :: q) pc h
  have h2 := represents_setColour (p := q) .black h1
  have h3 := represents_setColour (p := .right sl pc sx :: .right T .black px :: q) .black h2
  exact represents_leftRot (p := q) h3

theorem represents_delSibR
    (h : Represents t (Path.plug (.right (.node sl .red sx sr) pc px :: q) T)) :
    Represents (rightRot ((t.setColour sx.addr .black).setColour px.addr .red) px.addr)
      (Path.plug (.right sr .red px :: .right sl .black sx :: q) T) := by
  have h1 := represents_setColour (p := .left pc px T :: q) .black h
  have h2 := represents_setColour (p := q) .red h1
  exact represents_rightRot (p := q) h2

theorem represents_delClimbR
    (h : Represents t (Path.plug (.right (.node sl .black sx sr) pc px :: q) T)) :
    Represents (t.setColour sx.addr .red) (q.plug (.node (.node sl .red sx sr) pc px T)) :=
  represents_setColour (p := .left pc px T :: q) .red h

theorem represents_delNearR {a b : CTree (Slot κ ν)} {lx : Slot κ ν}
    (h : Represents t (Path.plug (.right (.node sl .black sx (.node a .red lx b)) pc px :: q) T)) :
    Represents (leftRot ((t.setColour sx.addr .red).setColour lx.addr .black) sx.addr)
      (Path.plug (.right (.node (.node sl .red sx a) .black lx b) pc px :: q) T) := by
  have h1 := represents_setColour (p := .left pc px T :: q) .red h
  have h2 := represents_setColour (p := .right sl .red sx :: .left pc px T :: q) .black h1
  exact represents_leftRot (p := .left pc px T :: q) h2

theorem represents_delFarR {a b : CTree (Slot κ ν)} {y : Slot κ ν}
    (h : Represents t (Path.plug (.right (.node (.node a .red y b) .black sx sr) pc px :: q) T)) :
    Represents (rightRot (((t.setColour sx.addr pc).setColour px.addr .black).setColour y.addr
        .black) px.addr)
      (q.plug (.node (.node a .black y b) pc sx (.node sr .black px T))) := by
  have h1 := represents_setColour (p := .left pc px T :: q) pc h
  have h2 := represents_setColour (p := q) .black h1
  have h3 := represents_setColour (p := .left pc sx sr :: .left .black px T :: q) .black h2
  exact represents_rightRot (p := q) h3

end Passes

/-! ## What the loop reads -/

/-- The parent pointer stored for the focus is the parent of its hole: for a node this is part
of `Represents`, for a leaf it is the sentinel's parent field. -/
def FocusHangs (t : RbTree κ ν) (p : Path (Slot κ ν)) (T : CTree (Slot κ ν)) : Prop :=
  (t.heap (ptrOf t.nil T)).parent = parentPtr t.nil p

section Reads

variable {t t' : RbTree κ ν} {p p' : Path (Slot κ ν)} {T : CTree (Slot κ ν)}

lemma Represents.focusHangs (h : Represents t (p.plug T)) (hT : T ≠ .nil) : FocusHangs t p T := by
  cases T with
  | nil => exact absurd rfl hT
  | node l c s r => rw [FocusHangs, ptrOf_node, h.heap_focus]

/-- A write that keeps the sentinel's parent field, and the parent of the focus's hole, keeps
`FocusHangs`. -/
lemma FocusHangs.of_heap_nil (hpar : FocusHangs t p T) (h' : Represents t' (p'.plug T))
    (hnil : t'.nil = t.nil) (hpp : parentPtr t.nil p' = parentPtr t.nil p)
    (hkeep : (t'.heap t.nil).parent = (t.heap t.nil).parent) : FocusHangs t' p' T := by
  cases T with
  | nil =>
    unfold FocusHangs at hpar ⊢
    rw [ptrOf_nil, hnil, hkeep, hpp]
    exact hpar
  | node l c s r => exact h'.focusHangs (by simp)

/-- `FocusHangs` read against a sentinel known by another name. -/
lemma FocusHangs.parent_eq {N : Ptr} (hpar : FocusHangs t p T) (hnil : t.nil = N) :
    (t.heap (ptrOf N T)).parent = parentPtr N p := by
  subst hnil
  exact hpar

/-- `node == tree->nil || node->colour == BLACK` reads the focus's colour. -/
lemma Represents.black_iff (h : Represents t (p.plug T)) :
    (ptrOf t.nil T = t.nil ∨ (t.heap (ptrOf t.nil T)).colour = .black) ↔ T.colour = .black := by
  rw [h.colour_ptrOf]
  constructor
  · rintro (h0 | hb)
    · rw [h.ptrOf_eq_nil_iff.1 h0]
      rfl
    · exact hb
  · exact .inr

lemma topPtr_mem_pathAddrs (nil : Ptr) {p : Path (Slot κ ν)} (hp : p ≠ []) (a : Ptr) :
    topPtr nil p a ∈ pathAddrs p := by
  induction p generalizing a with
  | nil => exact absurd rfl hp
  | cons f q ih =>
    rcases q with _ | ⟨g, q⟩
    · exact mem_pathAddrs_cons.2 (.inl rfl)
    · exact mem_pathAddrs_cons.2 (.inr (.inr (ih (List.cons_ne_nil g q) f.payload.addr)))

/-- `node != tree->root` says the focus has a parent. -/
lemma Represents.ptrOf_eq_root_iff (h : Represents t (p.plug T)) :
    ptrOf t.nil T = t.root ↔ p = [] := by
  constructor
  · intro he
    by_contra hp
    -- the root is a node of the context, the focus's pointer one of its own or the sentinel
    have hroot : t.root ∈ pathAddrs p := by
      rw [h.root, ptrOf_plug]
      exact topPtr_mem_pathAddrs _ hp _
    have hrn : t.root ≠ t.nil := (h.addr_valid _ (mem_addrs_plug.2 (.inl hroot))).1
    have hT : ptrOf t.nil T ∈ addrs T := ptrOf_mem_addrs (he ▸ hrn)
    exact (List.nodup_append.1 (nodup_addrs_plug.1 h.nodup)).2.2 _ hroot _ hT he.symm
  · rintro rfl
    exact h.root.symm

/-- The condition of the `while` loop is the walk's: a black focus below the root. -/
lemma Represents.loop_cond (h : Represents t (p.plug T)) :
    ((ptrOf t.nil T = t.nil ∨ (t.heap (ptrOf t.nil T)).colour = .black) ∧ ptrOf t.nil T ≠ t.root)
      ↔ T.colour = .black ∧ p ≠ [] := by
  rw [h.black_iff, Ne, h.ptrOf_eq_root_iff]

/-- A node sibling's pointer is not the focus's. -/
lemma Represents.ptrOf_ne_sibling {f : Frame (Slot κ ν)} (h : Represents t (Path.plug (f :: p) T))
    {sl sr : CTree (Slot κ ν)} {sc : Colour} {sx : Slot κ ν} (hs : f.sibling = .node sl sc sx sr) :
    ptrOf t.nil T ≠ sx.addr := by
  have hsx : sx.addr ∈ addrs f.sibling := by simp [hs]
  by_cases hT : ptrOf t.nil T = t.nil
  · rw [hT]
    exact fun e => (h.addr_valid sx.addr
      (mem_addrs_plug.2 (.inl (mem_pathAddrs_cons.2 (.inr (.inl hsx)))))).1 e.symm
  · have := h.ptrOf_sibling_ne (ptrOf_mem_addrs hT)
    rw [hs, ptrOf_node] at this
    exact Ne.symm this

/-- The last write of `rbtree_erase_fixup`, `node->colour = BLACK`, at the focus. -/
theorem represents_setColour_focus (h : Represents t (p.plug T)) :
    Represents (t.setColour (ptrOf t.nil T) .black) (p.plug (T.setColour .black)) := by
  cases T with
  | nil => exact represents_setColour_nil h
  | node l c s r => exact represents_setColour .black h

end Reads

/-! ## One pass of the loop -/

section Pass

variable {t : RbTree κ ν} {q p' : Path (Slot κ ν)} {pc : Colour} {px sx : Slot κ ν}
  {T sl sr T' : CTree (Slot κ ν)}

/-- Cases 2 to 4 for a left child with a black sibling: `do_with_left_node_not_null` makes the
pass the walk makes. -/
theorem doWithLeftNodeNotNull_pass
    (h : Represents t (Path.plug (.left pc px (.node sl .black sx sr) :: q) T))
    (hpar : FocusHangs t (.left pc px (.node sl .black sx sr) :: q) T)
    (he : EndPass (.left pc px (.node sl .black sx sr) :: q) T p' T') :
    ∃ t', doWithLeftNodeNotNull t (ptrOf t.nil T) = (t', ptrOf t.nil T') ∧ t'.nil = t.nil ∧
      Represents t' (p'.plug T') := by
  -- what the code reads: the parent, the sibling and the sibling's children
  have hP : (t.heap (ptrOf t.nil T)).parent = px.addr := hpar
  have hS : (t.heap px.addr).right = sx.addr := by rw [h.heap_frame_left]; rfl
  have hPc : (t.heap px.addr).colour = pc := by rw [h.heap_frame_left]
  have hsx : Represents t (Path.plug (.right T pc px :: q) (.node sl .black sx sr)) := h
  have hSc : (t.heap sx.addr).colour ≠ .red := by rw [hsx.heap_focus]; simp
  have hsl : Represents t (Path.plug (.left .black sx sr :: .right T pc px :: q) sl) := h
  have hsr : Represents t (Path.plug (.right sl .black sx :: .right T pc px :: q) sr) := h
  cases he with
  | climbL hbl hbr =>
    have hL : (t.heap sx.addr).left = ptrOf t.nil sl := by rw [hsx.heap_focus]
    have hR : (t.heap sx.addr).right = ptrOf t.nil sr := by rw [hsx.heap_focus]
    exact ⟨_, doWithLeftNodeNotNull_climb hP hS hSc hL hR
      ⟨hsl.black_iff.2 hbl, hsr.black_iff.2 hbr⟩, rfl, represents_delClimbL h⟩
  | @innerL _ _ _ _ lx a b _ _ _ hbr =>
    -- case 3 rotates the red near child above the sibling; case 4 finishes from there
    have hL : (t.heap sx.addr).left = lx.addr := by rw [hsx.heap_focus]; rfl
    have hR : (t.heap sx.addr).right = ptrOf t.nil sr := by rw [hsx.heap_focus]
    have hflag : ¬ ((lx.addr = t.nil ∨ (t.heap lx.addr).colour = .black) ∧
        (ptrOf t.nil sr = t.nil ∨ (t.heap (ptrOf t.nil sr)).colour = .black)) :=
      fun hf => absurd (hsl.black_iff.1 hf.1) (by simp)
    have hkeep := rightRot_heap_nil ((t.setColour sx.addr .red).setColour lx.addr .black)
      (by simp only [nil_setColour]; exact hsx.addr_ne_nil)
      (by simp only [left_setColour, nil_setColour, hL]; exact hsl.addr_ne_nil)
    obtain ⟨t₁, ht₁⟩ : ∃ t₁, rightRot ((t.setColour sx.addr .red).setColour lx.addr .black)
        sx.addr = t₁ := ⟨_, rfl⟩
    have h₁ := represents_delNearL h
    rw [ht₁] at h₁
    simp only [nil_setColour, ht₁] at hkeep
    have hnil₁ : t₁.nil = t.nil := by simp [← ht₁]
    have hP₁ := (hpar.of_heap_nil h₁ hnil₁ rfl
      (by rw [hkeep, parent_setColour, parent_setColour])).parent_eq hnil₁
    have hsx₁ : Represents t₁ (Path.plug (.right T pc px :: q)
        (.node a .black lx (.node b .red sx sr))) := h₁
    have hS₁ : (t₁.heap px.addr).right = lx.addr := by rw [h₁.heap_frame_left]; rfl
    have hPc₁ : (t₁.heap px.addr).colour = pc := by rw [h₁.heap_frame_left]
    have hSL₁ : (t₁.heap lx.addr).right = sx.addr := by rw [hsx₁.heap_focus]; rfl
    have h₂ := represents_delFarL h₁
    refine ⟨_, ?_, by simp [hnil₁], h₂⟩
    rw [doWithLeftNodeNotNull_near hP hS hSc hL hR hflag (hsr.black_iff.2 hbr) ht₁ hP₁ hS₁ hPc₁
      hSL₁ rfl, h₂.root]
    simp [hnil₁]
  | rotateL hrr =>
    obtain ⟨b, y, e, rfl⟩ := CTree.eq_node_of_colour_red hrr
    have hL : (t.heap sx.addr).left = ptrOf t.nil sl := by rw [hsx.heap_focus]
    have hR : (t.heap sx.addr).right = y.addr := by rw [hsx.heap_focus]; rfl
    have hfar : ¬ (y.addr = t.nil ∨ (t.heap y.addr).colour = .black) :=
      fun hf => absurd (hsr.black_iff.1 hf) (by simp)
    have h₂ := represents_delFarL h
    refine ⟨_, ?_, by simp, h₂⟩
    rw [doWithLeftNodeNotNull_far hP hS hSc hL hR (fun hf => hfar hf.2) hfar hPc rfl, h₂.root]
    simp

/-- The mirror pass, for a right child: `do_with_left_node_null`. -/
theorem doWithLeftNodeNull_pass
    (h : Represents t (Path.plug (.right (.node sl .black sx sr) pc px :: q) T))
    (hpar : FocusHangs t (.right (.node sl .black sx sr) pc px :: q) T)
    (he : EndPass (.right (.node sl .black sx sr) pc px :: q) T p' T') :
    ∃ t', doWithLeftNodeNull t (ptrOf t.nil T) = (t', ptrOf t.nil T') ∧ t'.nil = t.nil ∧
      Represents t' (p'.plug T') := by
  have hP : (t.heap (ptrOf t.nil T)).parent = px.addr := hpar
  have hS : (t.heap px.addr).left = sx.addr := by rw [h.heap_frame_right]; rfl
  have hPc : (t.heap px.addr).colour = pc := by rw [h.heap_frame_right]
  have hsx : Represents t (Path.plug (.left pc px T :: q) (.node sl .black sx sr)) := h
  have hSc : (t.heap sx.addr).colour ≠ .red := by rw [hsx.heap_focus]; simp
  have hsl : Represents t (Path.plug (.left .black sx sr :: .left pc px T :: q) sl) := h
  have hsr : Represents t (Path.plug (.right sl .black sx :: .left pc px T :: q) sr) := h
  cases he with
  | climbR hbr hbl =>
    have hL : (t.heap sx.addr).left = ptrOf t.nil sl := by rw [hsx.heap_focus]
    have hR : (t.heap sx.addr).right = ptrOf t.nil sr := by rw [hsx.heap_focus]
    exact ⟨_, doWithLeftNodeNull_climb hP hS hSc hL hR
      ⟨hsr.black_iff.2 hbr, hsl.black_iff.2 hbl⟩, rfl, represents_delClimbR h⟩
  | @innerR _ _ _ _ lx _ a b _ _ hbl =>
    have hL : (t.heap sx.addr).left = ptrOf t.nil sl := by rw [hsx.heap_focus]
    have hR : (t.heap sx.addr).right = lx.addr := by rw [hsx.heap_focus]; rfl
    have hflag : ¬ ((lx.addr = t.nil ∨ (t.heap lx.addr).colour = .black) ∧
        (ptrOf t.nil sl = t.nil ∨ (t.heap (ptrOf t.nil sl)).colour = .black)) :=
      fun hf => absurd (hsr.black_iff.1 hf.1) (by simp)
    have hkeep := leftRot_heap_nil ((t.setColour sx.addr .red).setColour lx.addr .black)
      (by simp only [nil_setColour]; exact hsx.addr_ne_nil)
      (by simp only [right_setColour, nil_setColour, hR]; exact hsr.addr_ne_nil)
    obtain ⟨t₁, ht₁⟩ : ∃ t₁, leftRot ((t.setColour sx.addr .red).setColour lx.addr .black)
        sx.addr = t₁ := ⟨_, rfl⟩
    have h₁ := represents_delNearR h
    rw [ht₁] at h₁
    simp only [nil_setColour, ht₁] at hkeep
    have hnil₁ : t₁.nil = t.nil := by simp [← ht₁]
    have hP₁ := (hpar.of_heap_nil h₁ hnil₁ rfl
      (by rw [hkeep, parent_setColour, parent_setColour])).parent_eq hnil₁
    have hsx₁ : Represents t₁ (Path.plug (.left pc px T :: q)
        (.node (.node sl .red sx a) .black lx b)) := h₁
    have hS₁ : (t₁.heap px.addr).left = lx.addr := by rw [h₁.heap_frame_right]; rfl
    have hPc₁ : (t₁.heap px.addr).colour = pc := by rw [h₁.heap_frame_right]
    have hSR₁ : (t₁.heap lx.addr).left = sx.addr := by rw [hsx₁.heap_focus]; rfl
    have h₂ := represents_delFarR h₁
    refine ⟨_, ?_, by simp [hnil₁], h₂⟩
    rw [doWithLeftNodeNull_near hP hS hSc hL hR hflag (hsl.black_iff.2 hbl) ht₁ hP₁ hS₁ hPc₁
      hSR₁ rfl, h₂.root]
    simp [hnil₁]
  | rotateR hrl =>
    obtain ⟨a, y, b, rfl⟩ := CTree.eq_node_of_colour_red hrl
    have hL : (t.heap sx.addr).left = y.addr := by rw [hsx.heap_focus]; rfl
    have hR : (t.heap sx.addr).right = ptrOf t.nil sr := by rw [hsx.heap_focus]
    have hfar : ¬ (y.addr = t.nil ∨ (t.heap y.addr).colour = .black) :=
      fun hf => absurd (hsl.black_iff.1 hf) (by simp)
    have h₂ := represents_delFarR h
    refine ⟨_, ?_, by simp, h₂⟩
    rw [doWithLeftNodeNull_far hP hS hSc hL hR (fun hf => hfar hf.2) hfar hPc rfl, h₂.root]
    simp

end Pass

/-- One pass of the loop body on a represented tree is one pass of the walk. -/
theorem eraseFixupBody_pass {t : RbTree κ ν} {p p' : Path (Slot κ ν)} {T T' : CTree (Slot κ ν)}
    (h : Represents t (p.plug T)) (hpar : FocusHangs t p T) (hinv : DelInv p T)
    (hp : DelPass p T p' T') :
    ∃ t', (if ptrOf t.nil T = (t.heap (t.heap (ptrOf t.nil T)).parent).left
        then doWithLeftNodeNotNull t (ptrOf t.nil T) else doWithLeftNodeNull t (ptrOf t.nil T)) =
        (t', ptrOf t.nil T') ∧ t'.nil = t.nil ∧ Represents t' (p'.plug T') := by
  obtain ⟨⟨n, -, hfits⟩, hroot⟩ := hinv
  rw [hp.black, Colour.weight_black] at hfits
  obtain ⟨-, -, hsib⟩ := fits_sibStep hfits hroot
  rcases p with _ | ⟨f, q⟩
  · have he := hp.pass
    rw [sibStep_nil] at he
    cases he
  obtain ⟨sl, sc, sx, sr, hS⟩ := hfits.2.1.sibling_node
  cases f with
  | left pc px S =>
    simp only [Frame.sibling_left] at hS
    subst hS
    have hP : (t.heap (ptrOf t.nil T)).parent = px.addr := hpar
    rw [if_pos (by rw [hP, h.heap_frame_left])]
    cases sc with
    | black => exact doWithLeftNodeNotNull_pass h hpar hp.pass
    | red =>
      -- case 1 first: the parent turns red below the sibling, whose near child is the new sibling
      obtain ⟨a, ax, b, hsl⟩ := hsib _ rfl
      simp only [Frame.sibling_left] at hsl
      subst hsl
      have hsx : Represents t (Path.plug (.right T pc px :: q)
          (.node (.node a .black ax b) .red sx sr)) := h
      have hS : (t.heap px.addr).right = sx.addr := by rw [h.heap_frame_left]; rfl
      have hkeep := leftRot_heap_nil ((t.setColour px.addr .red).setColour sx.addr .black)
        (by simp only [nil_setColour]; exact h.addr_ne_nil (p := q))
        (by simp only [right_setColour, nil_setColour, hS]; exact hsx.addr_ne_nil)
      obtain ⟨t₁, ht₁⟩ : ∃ t₁, leftRot ((t.setColour px.addr .red).setColour sx.addr .black)
          px.addr = t₁ := ⟨_, rfl⟩
      have h₁ := represents_delSibL h
      rw [ht₁] at h₁
      simp only [nil_setColour, ht₁] at hkeep
      have hnil₁ : t₁.nil = t.nil := by simp [← ht₁]
      have hpar₁ := hpar.of_heap_nil h₁ hnil₁ rfl (by rw [hkeep, parent_setColour, parent_setColour])
      have hax : Represents t₁ (Path.plug (.right T .red px :: .left .black sx sr :: q)
          (.node a .black ax b)) := h₁
      have hS₁ : (t₁.heap px.addr).right = ax.addr := by rw [h₁.heap_frame_left]; rfl
      obtain ⟨t', he, hnil, h'⟩ := doWithLeftNodeNotNull_pass h₁ hpar₁ hp.pass
      refine ⟨t', ?_, hnil.trans hnil₁, h'⟩
      rw [doWithLeftNodeNotNull_red hP hS (by rw [hsx.heap_focus]) ht₁ (hpar₁.parent_eq hnil₁)
        (by rw [hS₁, hax.heap_focus]; simp), ← hnil₁, he]
  | right S pc px =>
    simp only [Frame.sibling_right] at hS
    subst hS
    have hP : (t.heap (ptrOf t.nil T)).parent = px.addr := hpar
    rw [if_neg (by rw [hP, h.heap_frame_right]; exact h.ptrOf_ne_sibling rfl)]
    cases sc with
    | black => exact doWithLeftNodeNull_pass h hpar hp.pass
    | red =>
      obtain ⟨a, ax, b, hsr⟩ := hsib _ rfl
      simp only [Frame.sibling_right] at hsr
      subst hsr
      have hsx : Represents t (Path.plug (.left pc px T :: q)
          (.node sl .red sx (.node a .black ax b))) := h
      have hS : (t.heap px.addr).left = sx.addr := by rw [h.heap_frame_right]; rfl
      have hkeep := rightRot_heap_nil ((t.setColour sx.addr .black).setColour px.addr .red)
        (by simp only [nil_setColour]; exact h.addr_ne_nil (p := q))
        (by simp only [left_setColour, nil_setColour, hS]; exact hsx.addr_ne_nil)
      obtain ⟨t₁, ht₁⟩ : ∃ t₁, rightRot ((t.setColour sx.addr .black).setColour px.addr .red)
          px.addr = t₁ := ⟨_, rfl⟩
      have h₁ := represents_delSibR h
      rw [ht₁] at h₁
      simp only [nil_setColour, ht₁] at hkeep
      have hnil₁ : t₁.nil = t.nil := by simp [← ht₁]
      have hpar₁ := hpar.of_heap_nil h₁ hnil₁ rfl (by rw [hkeep, parent_setColour, parent_setColour])
      have hax : Represents t₁ (Path.plug (.left .red px T :: .right sl .black sx :: q)
          (.node a .black ax b)) := h₁
      have hS₁ : (t₁.heap px.addr).left = ax.addr := by rw [h₁.heap_frame_right]; rfl
      obtain ⟨t', he, hnil, h'⟩ := doWithLeftNodeNull_pass h₁ hpar₁ hp.pass
      refine ⟨t', ?_, hnil.trans hnil₁, h'⟩
      rw [doWithLeftNodeNull_red hP hS (by rw [hsx.heap_focus]) ht₁ (hpar₁.parent_eq hnil₁)
        (by rw [hS₁, hax.heap_focus]; simp), ← hnil₁, he]

/-! ## The loop -/

/-- The loop of `rbtree_erase_fixup`, from a state satisfying the invariant and with fuel for
every pass, stops where the walk stops. -/
theorem eraseFixupLoop_represents (fuel : Nat) {t : RbTree κ ν} {p : Path (Slot κ ν)}
    {T : CTree (Slot κ ν)} (h : Represents t (p.plug T)) (hpar : FocusHangs t p T)
    (hinv : DelInv p T) (hfuel : p.length + T.colour.weight ≤ fuel) :
    ∃ (t' : RbTree κ ν) (p' : Path (Slot κ ν)) (T' : CTree (Slot κ ν)),
      eraseFixupLoop fuel t (ptrOf t.nil T) = (t', ptrOf t.nil T') ∧ t'.nil = t.nil ∧
      Represents t' (p'.plug T') ∧ delFix p T = p'.plug (T'.setColour .black) := by
  -- induction on the fuel: each pass lowers the walk's measure, which bounds the fuel needed
  induction fuel generalizing t p T with
  | zero =>
    have hp : p = [] := List.eq_nil_of_length_eq_zero (by omega)
    exact ⟨t, p, T, rfl, rfl, h, delFix_of_none (delStep_eq_none fun _ => hp)⟩
  | succ fuel ih =>
    rw [eraseFixupLoop]
    by_cases hgo : T.colour = .black ∧ p ≠ []
    · obtain ⟨p', T', hp⟩ := hinv.exists_pass hgo.1 hgo.2
      obtain ⟨t₁, hbody, hnil, h₁⟩ := eraseFixupBody_pass h hpar hinv hp
      have hm := hp.measure_lt
      obtain ⟨t', p'', T'', hloop, hnil', h', hfix⟩ :=
        ih h₁ (h₁.focusHangs hp.focus_ne_nil) (hinv.pass hp) (by omega)
      rw [if_pos (h.loop_cond.2 hgo), hbody]
      rw [hnil] at hloop
      exact ⟨t', p'', T'', hloop, hnil'.trans hnil, h', (delFix_of_pass hp).trans hfix⟩
    · rw [if_neg (fun hc => hgo (h.loop_cond.1 hc))]
      refine ⟨t, p, T, rfl, rfl, h, delFix_of_none (delStep_eq_none fun hb => ?_)⟩
      by_contra hne
      exact hgo ⟨hb, hne⟩

/-- `rbtree_erase_fixup(tree, node)` from a state satisfying the invariant repairs the tree as
the walk does. -/
theorem rbtreeEraseFixup_represents {t : RbTree κ ν} {p : Path (Slot κ ν)} {T : CTree (Slot κ ν)}
    (h : Represents t (p.plug T)) (hpar : FocusHangs t p T) (hinv : DelInv p T) :
    Represents (rbtreeEraseFixup t (ptrOf t.nil T)) (delFix p T) := by
  have hfuel : p.length + T.colour.weight ≤ t.next := by
    have := h.length_lt_next
    have := Colour.weight_le_one T.colour
    omega
  obtain ⟨t', p', T', hloop, hnil, h', hfix⟩ := eraseFixupLoop_represents t.next h hpar hinv hfuel
  rw [rbtreeEraseFixup, hloop, hfix]
  -- `node != NULL` always holds: the last focus is a node or the sentinel
  have h0 : ptrOf t.nil T' ≠ 0 := by
    rw [← hnil]
    exact h'.ptrOf_ne_zero
  simp only [if_pos h0]
  rw [← hnil]
  exact represents_setColour_focus h'

end RbTree

end Isulad
