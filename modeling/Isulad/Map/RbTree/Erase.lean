import Isulad.Map.RbTree.EraseFixup
import Isulad.Map.RbTree.Splice
import Isulad.Framework.RbMap

/-!
# `rbtree_erase` and `rbtree_remove` follow the textbook removal

`rbtree_erase(tree, node)` is `eraseAt` of `EraseFixup.lean` at the zipper of `node`
(`rbtreeErase_represents`). Its three branches are the three cases of `eraseAt`:

* `node->left == nil` and `node->right == nil`: `rbtree_transplant` puts the other child in its
  place (`Represents.transplant`), and the fix-up starts there;
* two children: `rbtree_minimum` walks to the successor `y` (`rbtreeMinimum_minView`), which
  is unlinked from where it stands (`eraseDetachSuccessor`, two cases: `y` is `node`'s right
  child or deeper) and linked where `node` stood, with `node`'s left subtree and colour
  (`eraseAttachSuccessor`). The fix-up starts at `y`'s old right child `x`.

`x` may be the sentinel. Both branches leave in its parent field the parent of its hole
(`FocusHangs`), which is what `rbtree_erase_fixup` needs.

`rbtree_remove` finds the node with `rbtree_find` and erases it: on a red-black search tree it
is `eraseRb` (`rbtreeRemove_of_present`), and it refuses an absent key
(`rbtreeRemove_of_absent`).
-/

namespace Isulad

open ColouredTree

namespace RbTree

variable {κ ν : Type}

/-! ## The successor -/

/-- The loop of `rbtree_minimum` from a node walks to its leftmost node, as `minView` does. -/
theorem rbtreeMinimumLoop_minView {t : RbTree κ ν} {P q : Path (Slot κ ν)}
    {a b yr : CTree (Slot κ ν)} {c yc : Colour} {x y : Slot κ ν} (fuel : Nat)
    (h : Represents t (P.plug (.node a c x b))) (hfuel : (addrs a).length ≤ fuel)
    (hm : minView a c x b = (q, yc, y, yr)) : rbtreeMinimumLoop t fuel x.addr = y.addr := by
  -- induction on the left spine, the fuel going down with it
  induction a generalizing P c x b q fuel with
  | nil =>
    simp only [minView, Prod.mk.injEq] at hm
    obtain ⟨-, -, rfl, -⟩ := hm
    cases fuel with
    | zero => rfl
    | succ fuel => simp [rbtreeMinimumLoop, h.heap_focus]
  | node a' c' x' b' ih _ =>
    rcases hm' : minView a' c' x' b' with ⟨q', yc', y', yr'⟩
    simp only [minView, hm', Prod.mk.injEq] at hm
    obtain ⟨-, rfl, rfl, rfl⟩ := hm
    have hlen : (addrs a').length + 1 ≤ fuel := by
      simp only [addrs_node, List.length_append, List.length_cons] at hfuel
      omega
    obtain ⟨fuel, rfl⟩ : ∃ f, fuel = f + 1 := Nat.exists_eq_add_one.2 (by omega)
    have hx' : Represents t (Path.plug (.left c x b :: P) (.node a' c' x' b')) := h
    rw [rbtreeMinimumLoop, h.heap_focus, ptrOf_node, if_pos hx'.addr_ne_nil]
    exact ih fuel hx' (by omega) hm'

/-- `rbtree_minimum` of a node's root pointer is its leftmost node. -/
theorem rbtreeMinimum_minView {t : RbTree κ ν} {P q : Path (Slot κ ν)}
    {a b yr : CTree (Slot κ ν)} {c yc : Colour} {x y : Slot κ ν}
    (h : Represents t (P.plug (.node a c x b))) (hm : minView a c x b = (q, yc, y, yr)) :
    rbtreeMinimum t x.addr = y.addr := by
  rw [rbtreeMinimum, if_neg h.addr_ne_nil]
  refine rbtreeMinimumLoop_minView t.next h ?_ hm
  have := h.length_addrs_lt
  rw [(perm_addrs_plug P _).length_eq, List.length_append, addrs_node, List.length_append] at this
  omega

/-! ## What `rbtree_transplant` writes -/

section Transplant

variable {t : RbTree κ ν} {u v P : Ptr}

@[simp] lemma nil_rbtreeTransplant : (rbtreeTransplant t u v).nil = t.nil := by
  unfold rbtreeTransplant
  split_ifs <;> rfl

@[simp] lemma next_rbtreeTransplant : (rbtreeTransplant t u v).next = t.next := by
  unfold rbtreeTransplant
  split_ifs <;> rfl

/-- `rbtree_transplant` writes only `v` and the cell of `u`'s parent. -/
lemma heap_rbtreeTransplant (hu : (t.heap u).parent = P) {a : Ptr} (hav : a ≠ v)
    (haP : a ≠ P ∨ P = t.nil) : (rbtreeTransplant t u v).heap a = t.heap a := by
  rw [rbtreeTransplant_eq hu, heap_setParent, if_neg hav]
  split_ifs with h1 h2
  · rfl
  · rw [heap_setLeft, if_neg (haP.resolve_right h1)]
  · rw [heap_setRight, if_neg (haP.resolve_right h1)]

lemma colour_rbtreeTransplant (a : Ptr) :
    ((rbtreeTransplant t u v).heap a).colour = (t.heap a).colour := by
  unfold rbtreeTransplant
  split_ifs <;> simp only [colour_setParent, colour_setLeft, colour_setRight, heap_setRoot]

end Transplant

/-! ## Re-aiming the focus's parent pointer -/

/-- `x->parent = y` with `y` the parent `x` already has: nothing changes for a node, and for the
sentinel its parent field now names the hole's parent. -/
theorem represents_setParent_focus {t : RbTree κ ν} {P : Path (Slot κ ν)} {T : CTree (Slot κ ν)}
    (h : Represents t (P.plug T)) :
    Represents (t.setParent (ptrOf t.nil T) (parentPtr t.nil P)) (P.plug T) ∧
      FocusHangs (t.setParent (ptrOf t.nil T) (parentPtr t.nil P)) P T := by
  have hfh : FocusHangs (t.setParent (ptrOf t.nil T) (parentPtr t.nil P)) P T := by
    rw [FocusHangs, nil_setParent, heap_setParent, if_pos rfl]
  refine ⟨?_, hfh⟩
  cases T with
  | nil =>
    -- the sentinel is no node of the tree, and keeps its colour
    have hagree : ∀ z ∈ addrs (P.plug .nil), (t.setParent t.nil (parentPtr t.nil P)).heap z =
        t.heap z := fun z hz => by rw [heap_setParent, if_neg (h.addr_valid z hz).1]
    exact ⟨(realises_congr hagree).2 h.realises, h.root, h.nodup, h.addr_valid, h.nil_ne_null,
      h.nil_lt, by rw [colour_setParent]; exact h.nil_black⟩
  | node l c s r =>
    have hs := h.heap_focus
    have hself : t.setParent s.addr (parentPtr t.nil P) = t := by
      have hn : { t.heap s.addr with parent := parentPtr t.nil P } = t.heap s.addr := by
        rw [hs]
      simp only [setParent, write, hn, Function.update_eq_self]
    rw [ptrOf_node, hself]
    exact h

/-! ## The branches of `rbtree_erase` -/

/-- The first half of the two-children branch of `rbtree_erase`: the successor `y` is unlinked
from where it stands and, when it lies deeper than `node`'s right child, takes that child
over. -/
def eraseDetachSuccessor (t : RbTree κ ν) (node y : Ptr) : RbTree κ ν :=
  if (t.heap y).parent = node then t.setParent (t.heap y).right y
  else
    let t := rbtreeTransplant t y (t.heap y).right
    let t := t.setRight y (t.heap node).right
    t.setParent (t.heap y).right y

/-- The second half: `y` takes `node`'s place, left subtree and colour. -/
def eraseAttachSuccessor (t : RbTree κ ν) (node y : Ptr) : RbTree κ ν :=
  let t := rbtreeTransplant t node y
  let t := t.setLeft y (t.heap node).left
  let t := t.setParent (t.heap y).left y
  t.setColour y (t.heap node).colour

@[simp] lemma nil_eraseDetachSuccessor (t : RbTree κ ν) (node y : Ptr) :
    (eraseDetachSuccessor t node y).nil = t.nil := by
  unfold eraseDetachSuccessor
  split_ifs <;> simp

@[simp] lemma nil_eraseAttachSuccessor (t : RbTree κ ν) (node y : Ptr) :
    (eraseAttachSuccessor t node y).nil = t.nil := by
  simp [eraseAttachSuccessor]

section Branches

variable {t : RbTree κ ν} {node y : Ptr}

attribute [local simp] rbtreeErase in
lemma rbtreeErase_of_left_nil (hl : (t.heap node).left = t.nil) :
    rbtreeErase t node =
      if (t.heap node).colour = .black then
        rbtreeEraseFixup (rbtreeTransplant t node (t.heap node).right) (t.heap node).right
      else rbtreeTransplant t node (t.heap node).right := by
  simp only [rbtreeErase, if_pos hl]

lemma rbtreeErase_of_right_nil (hl : (t.heap node).left ≠ t.nil)
    (hr : (t.heap node).right = t.nil) :
    rbtreeErase t node =
      if (t.heap node).colour = .black then
        rbtreeEraseFixup (rbtreeTransplant t node (t.heap node).left) (t.heap node).left
      else rbtreeTransplant t node (t.heap node).left := by
  simp only [rbtreeErase, if_neg hl, if_pos hr]

lemma rbtreeErase_of_children (hl : (t.heap node).left ≠ t.nil)
    (hr : (t.heap node).right ≠ t.nil) (hy : rbtreeMinimum t (t.heap node).right = y) :
    rbtreeErase t node =
      if (t.heap y).colour = .black then
        rbtreeEraseFixup (eraseAttachSuccessor (eraseDetachSuccessor t node y) node y)
          (t.heap y).right
      else eraseAttachSuccessor (eraseDetachSuccessor t node y) node y := by
  unfold rbtreeErase
  rw [if_neg hl, if_neg hr]
  subst hy
  rfl

end Branches

/-- Every branch ends with the fix-up, run when the node taken out of the tree was black. -/
theorem represents_fixFrom {t : RbTree κ ν} {q : Path (Slot κ ν)} {b : CTree (Slot κ ν)}
    {cy : Colour} (h : Represents t (q.plug b)) (hpar : FocusHangs t q b)
    (hinv : cy = .black → DelInv q b) :
    Represents (if cy = .black then rbtreeEraseFixup t (ptrOf t.nil b) else t) (fixFrom cy q b) := by
  unfold fixFrom
  split_ifs with hb
  · exact rbtreeEraseFixup_represents h hpar (hinv hb)
  · exact h

/-! ## Moving the successor -/

/-- What the second half of the two-children branch needs of the heap `t'` that the first half
leaves: the context of `node` (`z`), `z` and its left subtree `l` stored as in `t`, which
represents the tree, and the successor `y` stored apart over `R`, its future right subtree,
whose nodes are those of `z`'s right subtree `r`. -/
structure SuccessorDetached (t t' : RbTree κ ν) (p : Path (Slot κ ν)) (l r : CTree (Slot κ ν))
    (c : Colour) (z : Slot κ ν) (yc : Colour) (y : Slot κ ν) (R : CTree (Slot κ ν)) : Prop where
  represents : Represents t (p.plug (.node l c z r))
  nil_eq : t'.nil = t.nil
  next_eq : t'.next = t.next
  root_eq : t'.root = t.root
  nil_black : (t'.heap t.nil).colour = .black
  agree : ∀ b, b ∈ pathAddrs p ∨ b = z.addr ∨ b ∈ addrs l → t'.heap b = t.heap b
  realises : ∃ a, Realises t'.heap t.nil a (.node .nil yc y R)
  perm : (addrs (.node .nil yc y R)).Perm (addrs r)

/-- `eraseAttachSuccessor`: the successor, with its subtree `R`, takes `node`'s place, left
subtree and colour. The sentinel's cell is left as it was. -/
theorem SuccessorDetached.attach {t t' : RbTree κ ν} {p : Path (Slot κ ν)}
    {l r R : CTree (Slot κ ν)} {c yc : Colour} {z y : Slot κ ν}
    (hd : SuccessorDetached t t' p l r c z yc y R) (hl : l ≠ .nil) :
    Represents (eraseAttachSuccessor t' z.addr y.addr) (p.plug (.node l c y R)) ∧
      (eraseAttachSuccessor t' z.addr y.addr).heap t.nil = t'.heap t.nil := by
  have h := hd.represents
  obtain ⟨hpath, hzs, hlr, -⟩ := (realises_plug _ _ p _).1 h.realises
  obtain ⟨a, hX⟩ := hd.realises
  -- the context, `l`, `z` and the successor's subtree have distinct valid addresses
  have hnd : (pathAddrs p ++ (addrs l ++ z.addr :: addrs (.node .nil yc y R))).Nodup := by
    have := nodup_addrs_plug.1 h.nodup
    rw [addrs_node] at this
    exact (((hd.perm.cons z.addr).append_left (addrs l)).append_left (pathAddrs p)).nodup_iff.2 this
  have hvalid : ∀ b ∈ pathAddrs p ++ (addrs l ++ z.addr :: addrs (.node .nil yc y R)),
      b ≠ t.nil ∧ b ≠ 0 ∧ b < t.next := by
    intro b hb
    refine h.addr_valid b (mem_addrs_plug.2 ?_)
    simp only [List.mem_append, List.mem_cons] at hb
    rcases hb with hb | hb | rfl | hb
    · exact .inl hb
    · exact .inr (by simp [hb])
    · exact .inr (by simp)
    · exact .inr (by simp [hd.perm.mem_iff.1 hb])
  obtain ⟨-, hndlzY, hdisjp⟩ := List.nodup_append.1 hnd
  obtain ⟨hndl, hndzY, hdisjl⟩ := List.nodup_append.1 hndlzY
  have hyY : y.addr ∈ addrs (.node .nil yc y R) := by simp
  have hRY : ∀ b ∈ addrs R, b ∈ addrs (.node .nil yc y R) := fun b hb => by simp [hb]
  have hzY : z.addr ∉ addrs (.node .nil yc y R) := (List.nodup_cons.1 hndzY).1
  have hzp : z.addr ∉ pathAddrs p := fun hm => hdisjp _ hm _ (by simp) rfl
  have hyl : ∀ b ∈ addrs l, b ≠ y.addr := fun b hb e => hdisjl _ hb _ (by simp [e]) rfl
  have hlp : ∀ b ∈ addrs l, b ∉ pathAddrs p := fun b hb hm => hdisjp _ hm _ (by simp [hb]) rfl
  have hvl : ∀ b ∈ addrs l, b ≠ t.nil ∧ b ≠ 0 ∧ b < t.next := fun b hb =>
    hvalid b (by simp [hb])
  -- `rbtree_transplant(tree, node, y)`
  have hsub : (pathAddrs p ++ addrs (.node .nil yc y R)).Sublist
      (pathAddrs p ++ (addrs l ++ z.addr :: addrs (.node .nil yc y R))) :=
    ((List.sublist_cons_self _ _).trans (List.sublist_append_right _ _)).append_left _
  have hz' : t'.heap z.addr = t.heap z.addr := hd.agree _ (.inr (.inl rfl))
  have hu : (t'.heap z.addr).parent = parentPtr t.nil p := by rw [hz', hzs]
  obtain ⟨h₃, -⟩ := represents_transplant (p := p) (u := z.addr) (a := a)
    (by rw [hd.nil_eq]; exact (realisesPath_congr fun b hb => hd.agree b (.inl hb)).2 hpath)
    (by rw [hd.root_eq, hd.nil_eq, h.root, ptrOf_plug, ptrOf_node])
    (by rw [hu, hd.nil_eq]) (by rw [hd.nil_eq]; exact hX) (hnd.sublist hsub)
    (fun b hb => by rw [hd.nil_eq, hd.next_eq]; exact hvalid b (hsub.subset hb)) hzp
    (by rw [hd.nil_eq]; exact h.addr_ne_nil) (by rw [hd.nil_eq]; exact h.nil_ne_null)
    (by rw [hd.nil_eq, hd.next_eq]; exact h.nil_lt) (by rw [hd.nil_eq]; exact hd.nil_black)
  obtain ⟨t₃, ht₃⟩ : ∃ t₃, rbtreeTransplant t' z.addr y.addr = t₃ := ⟨_, rfl⟩
  rw [ptrOf_node, ht₃] at h₃
  have hn₃ : t₃.nil = t.nil := by rw [← ht₃, nil_rbtreeTransplant, hd.nil_eq]
  have hx₃ : t₃.next = t.next := by rw [← ht₃, next_rbtreeTransplant, hd.next_eq]
  -- it writes `y` and `node`'s parent only
  have hk₃ : ∀ b, b ≠ y.addr → b ∉ pathAddrs p → t₃.heap b = t'.heap b := by
    intro b hby hbp
    rw [← ht₃]
    refine heap_rbtreeTransplant hu hby ?_
    rcases parentPtr_eq_or_mem t.nil p with e | e
    · exact .inr (by rw [e, hd.nil_eq])
    · exact .inl fun hb => hbp (hb ▸ e)
  have hz₃ : t₃.heap z.addr = t.heap z.addr :=
    (hk₃ z.addr (fun e => hzY (e ▸ hyY)) hzp).trans hz'
  have hl₃ : Realises t₃.heap t₃.nil z.addr l := by
    rw [hn₃]
    refine (realises_congr fun b hb => ?_).2 hlr
    exact (hk₃ b (hyl b hb) (hlp b hb)).trans (hd.agree b (.inr (.inr hb)))
  -- `y->left = node->left; y->left->parent = y; y->colour = node->colour`
  have hlm : ptrOf t.nil l ∈ addrs l := by
    cases l with
    | nil => exact absurd rfl hl
    | node => simp
  have hly : ptrOf t.nil l ≠ y.addr := hyl _ hlm
  have hE : eraseAttachSuccessor t' z.addr y.addr =
      ((t₃.setLeft y.addr (ptrOf t.nil l)).setParent (ptrOf t.nil l) y.addr).setColour y.addr c := by
    dsimp only [eraseAttachSuccessor]
    rw [ht₃, hz₃, hzs, heap_setLeft, if_pos rfl, colour_setParent, colour_setLeft, hz₃, hzs]
  have h₅ : Represents ((t₃.setLeft y.addr (ptrOf t.nil l)).setParent (ptrOf t.nil l) y.addr)
      (Path.plug (.left yc y R :: p) l) := by
    refine represents_graft (a := z.addr) h₃ hl₃ hl hndl (fun b hb hm => ?_) (fun b hb => ?_) rfl
      (Nat.le_refl _) ⟨?_, fun f hf => ?_⟩ ?_ (fun b hb hbf => ?_)
    · rcases mem_pathAddrs_cons.1 hm with e | hm | hm
      · exact hyl b hb e
      · exact hdisjl _ hb _ (List.mem_cons_of_mem _ (hRY b hm)) rfl
      · exact hlp b hb hm
    · rw [hn₃, next_setParent, next_setLeft, hx₃]
      exact hvl b hb
    · exact h₃.root.trans (ptrOf_plug _ _ _)
    · simp only [List.head?_cons, Option.mem_def, Option.some.injEq] at hf
      subst hf
      rw [hn₃, Frame.payload_left, heap_setParent, if_neg hly.symm, heap_setLeft, if_pos rfl]
      rfl
    · rw [hn₃, heap_setParent, if_pos rfl, heap_setLeft, if_neg hly]
      rfl
    · have hby : b ≠ y.addr := hbf _ rfl
      rw [hn₃] at hb
      rw [heap_setParent, if_neg hb, heap_setLeft, if_neg hby]
  refine ⟨hE ▸ represents_setColour (p := p) c h₅, ?_⟩
  -- the sentinel is neither `y`, nor `y`'s new left child, nor a node of the context
  have hny : t.nil ≠ y.addr := fun e => (hvalid y.addr (by simp)).1 e.symm
  have hnp : t.nil ∉ pathAddrs p := fun hm => (hvalid t.nil (List.mem_append_left _ hm)).1 rfl
  rw [hE, heap_setColour, if_neg hny, heap_setParent, if_neg (hvl _ hlm).1.symm,
    heap_setLeft, if_neg hny, hk₃ t.nil hny hnp]
/-- `y` is `node`'s right child: `x->parent = y` changes nothing of the tree, and when `x` is
the sentinel its parent field names `y`. -/
theorem eraseDetachSuccessor_adjacent {t : RbTree κ ν} {p : Path (Slot κ ν)}
    {l yr : CTree (Slot κ ν)} {c yc : Colour} {z y : Slot κ ν}
    (h : Represents t (p.plug (.node l c z (.node .nil yc y yr)))) :
    SuccessorDetached (eraseDetachSuccessor t z.addr y.addr) (eraseDetachSuccessor t z.addr y.addr)
        p l (.node .nil yc y yr) c z yc y yr ∧
      FocusHangs (eraseDetachSuccessor t z.addr y.addr) (.right .nil yc y :: .right l c z :: p) yr := by
  have hy : Represents t (Path.plug (.right l c z :: p) (.node .nil yc y yr)) := h
  have hE : eraseDetachSuccessor t z.addr y.addr = t.setParent (ptrOf t.nil yr) y.addr := by
    rw [eraseDetachSuccessor, if_pos (by rw [hy.heap_focus, parentPtr_right]), hy.heap_focus]
  obtain ⟨h₁, hfh⟩ := represents_setParent_focus (P := .right .nil yc y :: .right l c z :: p) h
  rw [hE]
  refine ⟨⟨h₁, rfl, rfl, rfl, h₁.nil_black, fun _ _ => rfl, ⟨z.addr, ?_⟩, List.Perm.refl _⟩, hfh⟩
  exact ((realises_plug _ _ (.right l c z :: p) _).1 h₁.realises).2

/-- `y` lies deeper: `rbtree_transplant(tree, y, y->right)` puts `x` in its place, and `y` takes
over `node`'s right subtree, now `R`. When `x` is the sentinel its parent field names the
parent `y` had. -/
theorem eraseDetachSuccessor_far {t : RbTree κ ν} {p q : Path (Slot κ ν)}
    {l r yr : CTree (Slot κ ν)} {c yc : Colour} {z y : Slot κ ν}
    (h : Represents t (p.plug (.node l c z r))) (hq : q ≠ [])
    (hr : q.plug (.node .nil yc y yr) = r) :
    SuccessorDetached t (eraseDetachSuccessor t z.addr y.addr) p l r c z yc y (q.plug yr) ∧
      (yr = .nil →
        ((eraseDetachSuccessor t z.addr y.addr).heap t.nil).parent = parentPtr t.nil q) := by
  have h₀ : Represents t ((q ++ .right l c z :: p).plug (.node .nil yc y yr)) := by
    rw [Path.plug_append, hr]
    exact h
  obtain ⟨f, q', rfl⟩ := List.exists_cons_of_ne_nil hq
  have hys := h₀.heap_focus
  -- `r`'s nodes, which alone are written, lie outside the context, `z` and `l`
  have hnd := nodup_addrs_plug.1 h.nodup
  rw [addrs_node] at hnd
  obtain ⟨-, hndT, hdisjp⟩ := List.nodup_append.1 hnd
  obtain ⟨-, hndzr, hdisjl⟩ := List.nodup_append.1 hndT
  have hout : ∀ b, b ∈ pathAddrs p ∨ b = z.addr ∨ b ∈ addrs l → b ∉ addrs r := by
    rintro b (hb | rfl | hb) hbr
    · exact hdisjp _ hb _ (by simp [hbr]) rfl
    · exact (List.nodup_cons.1 hndzr).1 hbr
    · exact hdisjl _ hb _ (List.mem_cons_of_mem _ hbr) rfl
  have hvr : ∀ b ∈ addrs r, b ≠ t.nil := fun b hb =>
    (h.addr_valid b (mem_addrs_plug.2 (.inr (by simp [hb])))).1
  have hqr : ∀ b ∈ pathAddrs (f :: q'), b ∈ addrs r := fun b hb => hr ▸ mem_addrs_plug.2 (.inl hb)
  have hyr : y.addr ∈ addrs r := hr ▸ mem_addrs_plug.2 (.inr (by simp))
  have hyrr : ∀ b ∈ addrs yr, b ∈ addrs r := fun b hb => hr ▸ mem_addrs_plug.2 (.inr (by simp [hb]))
  -- inside `r`: the successor's context, `y` and `yr` are apart
  have hndr : (pathAddrs (f :: q') ++ y.addr :: addrs yr).Nodup := by
    have := (List.nodup_cons.1 hndzr).2
    rw [← hr, nodup_addrs_plug, addrs_node, addrs_nil, List.nil_append] at this
    exact this
  obtain ⟨-, hndyr, hdisjq⟩ := List.nodup_append.1 hndr
  have hyq : y.addr ∉ pathAddrs (f :: q') := fun hm => hdisjq _ hm _ (.head _) rfl
  have hyyr : y.addr ∉ addrs yr := (List.nodup_cons.1 hndyr).1
  have hqyr : ∀ b ∈ pathAddrs (f :: q'), b ≠ ptrOf t.nil yr := by
    intro b hb e
    cases yr with
    | nil => exact hvr b (hqr b hb) e
    | node => exact hdisjq _ hb _ (List.mem_cons_of_mem _ (e ▸ by simp)) rfl
  have hfq : f.payload.addr ∈ pathAddrs (f :: q') := mem_pathAddrs_cons.2 (.inl rfl)
  have hρq := topPtr_mem_pathAddrs t.nil (List.cons_ne_nil f q') (ptrOf t.nil yr)
  -- `rbtree_transplant(tree, y, y->right)`
  have hyX : Realises t.heap t.nil y.addr yr :=
    ((realises_plug _ _ _ _).1 h₀.realises).2.2.2
  obtain ⟨h₁, hpar₁⟩ := Represents.transplant h₀ (by simp) hyX
    (by rw [addrs_node, addrs_nil, List.nil_append]; exact List.sublist_cons_self _ _)
  obtain ⟨t₁, ht₁⟩ : ∃ t₁, rbtreeTransplant t y.addr (ptrOf t.nil yr) = t₁ := ⟨_, rfl⟩
  rw [ptrOf_node, ht₁, Path.plug_append] at h₁
  rw [ptrOf_node, ht₁] at hpar₁
  have hn₁ : t₁.nil = t.nil := by rw [← ht₁, nil_rbtreeTransplant]
  have hk₁ : ∀ b, b ≠ ptrOf t.nil yr → b ≠ f.payload.addr → t₁.heap b = t.heap b := by
    intro b hbx hbf
    rw [← ht₁]
    exact heap_rbtreeTransplant (by rw [hys]; rfl) hbx (.inl hbf)
  -- `y->right = node->right; y->right->parent = y`, with `node->right` now the root of `R`
  have hzR : (t₁.heap z.addr).right = ptrOf t.nil (Path.plug (f :: q') yr) := by
    rw [(h₁ : Represents t₁ (p.plug (.node l c z (Path.plug (f :: q') yr)))).heap_focus, hn₁]
  have hE : eraseDetachSuccessor t z.addr y.addr =
      (t₁.setRight y.addr (ptrOf t.nil (Path.plug (f :: q') yr))).setParent
        (ptrOf t.nil (Path.plug (f :: q') yr)) y.addr := by
    have hfz : f.payload.addr ≠ z.addr := fun e => hout _ (.inr (.inl rfl)) (e ▸ hqr _ hfq)
    unfold eraseDetachSuccessor
    rw [if_neg (by rw [hys]; exact hfz)]
    dsimp only
    rw [hys, ht₁, hzR, heap_setRight, if_pos rfl]
  rw [ptrOf_plug] at hE hzR
  have hρy : topPtr t.nil (f :: q') (ptrOf t.nil yr) ≠ y.addr := fun e => hyq (e ▸ hρq)
  have hk : ∀ b, b ∉ addrs r → b ≠ t.nil → (eraseDetachSuccessor t z.addr y.addr).heap b = t.heap b := by
    intro b hbr hbn
    have hbρ : b ≠ topPtr t.nil (f :: q') (ptrOf t.nil yr) := fun e => hbr (e ▸ hqr _ hρq)
    have hby : b ≠ y.addr := fun e => hbr (e ▸ hyr)
    rw [hE, heap_setParent, if_neg hbρ, heap_setRight, if_neg hby]
    refine hk₁ b ?_ (fun e => hbr (e ▸ hqr _ hfq))
    cases yr with
    | nil => exact hbn
    | node => exact fun e => hbr (e ▸ hyrr _ (by simp))
  have hyx : y.addr ≠ ptrOf t.nil yr := by
    cases yr with
    | nil => exact hvr _ hyr
    | node => exact fun e => hyyr (e ▸ by simp)
  have hyf : y.addr ≠ f.payload.addr := fun e => hyq (e ▸ hfq)
  have hRy : ∀ b ∈ addrs (Path.plug (f :: q') yr), b ≠ y.addr := by
    intro b hb e
    rcases List.mem_append.1 ((perm_addrs_plug _ _).mem_iff.1 hb) with hb | hb
    · exact hyq (e ▸ hb)
    · exact hyyr (e ▸ hb)
  have hR₁ : Realises t₁.heap t.nil z.addr (Path.plug (f :: q') yr) := by
    rw [← hn₁]
    exact ((realises_plug _ _ (.right l c z :: p) _).1 h₁.realises).2
  refine ⟨⟨h, ?_, ?_, ?_, ?_, fun b hb => hk b (hout b hb) ?_, ⟨f.payload.addr, ?_, trivial, ?_⟩,
    ?_⟩, ?_⟩
  · rw [hE, nil_setParent, nil_setRight, hn₁]
  · rw [hE, next_setParent, next_setRight, ← ht₁, next_rbtreeTransplant]
  · rw [hE, root_setParent, root_setRight, h₁.root, h.root, hn₁, ptrOf_plug, ptrOf_plug,
      ptrOf_plug]
    rfl
  · rw [hE, colour_setParent, colour_setRight, ← ht₁, colour_rbtreeTransplant]
    exact h.nil_black
  · refine (h.addr_valid b (mem_addrs_plug.2 ?_)).1
    rcases hb with hb | rfl | hb
    · exact .inl hb
    · exact .inr (by simp)
    · exact .inr (by simp [hb])
  -- `y` with its new right child, under the parent it had
  · rw [ptrOf_plug, hE, heap_setParent, if_neg hρy.symm, heap_setRight, if_pos rfl,
      hk₁ y.addr hyx hyf, hys]
    rfl
  -- `R` hangs from `y`
  · refine realises_rehang hR₁ ((perm_addrs_plug _ _).nodup_iff.2
      (hndr.sublist ((List.sublist_cons_self _ _).append_left _))) ?_ fun b hb hbρ => ?_
    · rintro b - rfl
      rw [ptrOf_plug, hE, heap_setParent, if_pos rfl, heap_setRight, if_neg hρy]
    · rw [ptrOf_plug] at hbρ
      rw [hE, heap_setParent, if_neg hbρ, heap_setRight, if_neg (hRy b hb)]
  -- `y` over `R` has `r`'s nodes: `y` moves from below the successor's context to above it
  · have hr' := perm_addrs_plug (f :: q') (.node .nil yc y yr)
    rw [hr, addrs_node, addrs_nil, List.nil_append] at hr'
    rw [addrs_node, addrs_nil, List.nil_append]
    exact ((perm_addrs_plug _ yr).cons _).trans (List.perm_middle.symm.trans hr'.symm)
  · rintro rfl
    have hnρ : t.nil ≠ topPtr t.nil (f :: q') t.nil := fun e => hvr _ (hqr _ hρq) e.symm
    rw [hE, ptrOf_nil, heap_setParent, if_neg hnρ, heap_setRight, if_neg (Ne.symm (hvr _ hyr))]
    exact hpar₁

/-- The two-children branch from a detached successor: `y` is attached in `node`'s place and the
fix-up runs from `x`, which now hangs below `y`'s old parent, or below `y` itself. -/
theorem SuccessorDetached.erase {t t' : RbTree κ ν} {p q : Path (Slot κ ν)}
    {l r yr : CTree (Slot κ ν)} {c yc : Colour} {z y : Slot κ ν}
    (hd : SuccessorDetached t t' p l r c z yc y (q.plug yr)) (hl : l ≠ .nil)
    (hnilp : yr = .nil → (t'.heap t.nil).parent = parentPtr t.nil (q ++ .right l c y :: p))
    (hinv : yc = .black → DelInv (q ++ .right l c y :: p) yr) :
    Represents (if yc = .black then
        rbtreeEraseFixup (eraseAttachSuccessor t' z.addr y.addr) (ptrOf t.nil yr)
      else eraseAttachSuccessor t' z.addr y.addr) (fixFrom yc (q ++ .right l c y :: p) yr) := by
  obtain ⟨h₂, hkeep⟩ := hd.attach hl
  have hn₂ : (eraseAttachSuccessor t' z.addr y.addr).nil = t.nil := by
    rw [nil_eraseAttachSuccessor, hd.nil_eq]
  have h₂' : Represents (eraseAttachSuccessor t' z.addr y.addr)
      ((q ++ .right l c y :: p).plug yr) := by
    rw [Path.plug_append]
    exact h₂
  have hfh : FocusHangs (eraseAttachSuccessor t' z.addr y.addr) (q ++ .right l c y :: p) yr := by
    cases yr with
    | nil =>
      rw [FocusHangs, ptrOf_nil, hn₂, hkeep]
      exact hnilp rfl
    | node => exact h₂'.focusHangs (by simp)
  rw [← hn₂]
  exact represents_fixFrom h₂' hfh hinv

/-- A node with a leaf child: the other child `b`, the sentinel included, takes its place, and
the fix-up starts there. -/
theorem represents_erase_child {t : RbTree κ ν} {p : Path (Slot κ ν)} {U b : CTree (Slot κ ν)}
    {c : Colour} {a : Ptr} (h : Represents t (p.plug U)) (hU : U ≠ .nil)
    (hb : Realises t.heap t.nil a b) (hsub : (addrs b).Sublist (addrs U))
    (hinv : c = .black → DelInv p b) :
    Represents (if c = .black then
        rbtreeEraseFixup (rbtreeTransplant t (ptrOf t.nil U) (ptrOf t.nil b)) (ptrOf t.nil b)
      else rbtreeTransplant t (ptrOf t.nil U) (ptrOf t.nil b)) (fixFrom c p b) := by
  obtain ⟨h₁, hpar₁⟩ := h.transplant hU hb hsub
  have hfh : FocusHangs (rbtreeTransplant t (ptrOf t.nil U) (ptrOf t.nil b)) p b := by
    rw [FocusHangs, nil_rbtreeTransplant]
    exact hpar₁
  have := represents_fixFrom h₁ hfh hinv
  rwa [nil_rbtreeTransplant] at this

/-! ## `rbtree_erase` -/

/-- `rbtree_erase` of a node of a represented red-black tree is removal at its zipper. -/
theorem rbtreeErase_represents {t : RbTree κ ν} {p : Path (Slot κ ν)} {l r : CTree (Slot κ ν)}
    {c : Colour} {z : Slot κ ν} {N : Nat} (h : Represents t (p.plug (.node l c z r)))
    (hbal : CTree.Balanced (p.plug (.node l c z r)) .black N) :
    Represents (rbtreeErase t z.addr) (eraseAt p l c r) := by
  have hz := h.heap_focus
  have hzc : (t.heap z.addr).colour = c := by rw [hz]
  obtain ⟨hlr, hrr⟩ := ((realises_plug _ _ p _).1 h.realises).2.2
  match l, r with
  | .nil, r =>
    -- `node->left == nil`: the right child takes its place
    rw [rbtreeErase_of_left_nil (by rw [hz]; rfl), hzc, show (t.heap z.addr).right = ptrOf t.nil r
      by rw [hz]]
    refine represents_erase_child h (by simp) hrr ?_ fun hb => ?_
    · rw [addrs_node, addrs_nil, List.nil_append]
      exact List.sublist_cons_self _ _
    · subst hb
      exact delInv_of_left_nil hbal
  | .node ll lc lx lr, .nil =>
    -- `node->right == nil`: the left child takes its place
    rw [rbtreeErase_of_right_nil (by rw [hz]; exact h.addr_valid lx.addr (mem_addrs_plug.2
      (.inr (by simp))) |>.1) (by rw [hz]; rfl), hzc,
      show (t.heap z.addr).left = ptrOf t.nil (.node ll lc lx lr) by rw [hz]]
    refine represents_erase_child h (by simp) hlr ?_ fun hb => ?_
    · rw [addrs_node (.node ll lc lx lr) .nil c z]
      exact List.sublist_append_left _ _
    · subst hb
      exact delInv_of_right_nil hbal
  | .node ll lc lx lr, .node a rc rx rb =>
    -- two children: the successor `y` takes `node`'s place
    rcases hm : minView a rc rx rb with ⟨q, yc, y, yr⟩
    obtain ⟨hplug, -⟩ := minView_spec hm
    have hy : rbtreeMinimum t (t.heap z.addr).right = y.addr := by
      rw [hz]
      exact rbtreeMinimum_minView (P := .right (.node ll lc lx lr) c z :: p) h hm
    have h₀ : Represents t ((q ++ .right (.node ll lc lx lr) c z :: p).plug (.node .nil yc y yr)) := by
      rw [Path.plug_append, hplug]
      exact h
    have hys := h₀.heap_focus
    rw [rbtreeErase_of_children (by rw [hz]; exact (h.addr_valid lx.addr (mem_addrs_plug.2
        (.inr (by simp)))).1) (by rw [hz]; exact (h.addr_valid rx.addr (mem_addrs_plug.2
        (.inr (by simp)))).1) hy,
      show (t.heap y.addr).colour = yc by rw [hys],
      show (t.heap y.addr).right = ptrOf t.nil yr by rw [hys]]
    simp only [eraseAt, hm]
    have hinv : yc = .black → DelInv (q ++ .right (.node ll lc lx lr) c y :: p) yr := by
      rintro rfl
      exact delInv_of_left_nil (balanced_successor_plug hbal hm)
    rcases q with _ | ⟨f, q'⟩
    · -- `y` is `node`'s right child
      rw [← hplug] at h
      obtain ⟨hd, hfh⟩ := eraseDetachSuccessor_adjacent h
      rw [← nil_eraseDetachSuccessor t z.addr y.addr]
      exact hd.erase (q := []) (by simp) (fun hyr => by subst hyr; exact hfh) hinv
    · -- `y` lies deeper in the right subtree
      obtain ⟨hd, hnil⟩ := eraseDetachSuccessor_far h (List.cons_ne_nil f q') hplug
      exact hd.erase (by simp) hnil hinv

/-! ## `rbtree_remove` -/

section Remove

variable (cmp : κ → κ → Int) {t : RbTree κ ν} {T : CTree (Slot κ ν)} (hc : CmpSpec cmp)
  (h : Represents t T) (hT : T.IsRbSearch Slot.key cmp) (key : κ)
include hc h hT

attribute [local simp] rbtreeRemove in
/-- `rbtree_remove` of an absent key fails and leaves the tree alone. -/
theorem rbtreeRemove_of_absent (habsent : lookup Slot.key cmp key T = none) :
    rbtreeRemove cmp t key = (t, false) := by
  rw [rbtreeRemove, if_pos ((rbtreeFind_eq_nil_iff_lookup cmp hc key h hT.ordered).2 habsent)]

/-- `rbtree_remove` of a present key succeeds, and the tree left is the abstract removal. -/
theorem rbtreeRemove_of_present (hpresent : lookup Slot.key cmp key T ≠ none) :
    (rbtreeRemove cmp t key).2 = true ∧
      Represents (rbtreeRemove cmp t key).1 (eraseRb Slot.key cmp key T) := by
  obtain ⟨p, l, c, s, r, hzoom, hF, hfind⟩ := rbtreeFind_of_present cmp hc h hT.ordered hpresent
  obtain ⟨n, hbal⟩ := hT.balanced
  have hplug : p.plug (.node l c s r) = T := by
    simpa [hzoom] using zoom_plug Slot.key cmp key [] T
  rw [rbtreeRemove, hfind, if_neg hF.addr_ne_nil, eraseRb_of_zoom hzoom]
  exact ⟨rfl, rbtreeErase_represents hF (by rw [hplug]; exact hbal)⟩

end Remove

end RbTree

end Isulad
