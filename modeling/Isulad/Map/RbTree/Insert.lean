import Isulad.Map.RbTree.Splice
import Isulad.Map.RbTree.Search
import Isulad.Map.RbTree.InsertFixup
import Isulad.Framework.RbMap

/-!
# `rbtree_insert` and `rbtree_replace`

`insert_node` descends from the root to a leaf, keeping the last node it passed in `previous`;
for a key that is not in the tree this is the walk `zoom` (`insertNodeDescend_zoom`), which
ends at a leaf, and `previous` is the leaf's parent. The new node is linked there, painted red,
and `rbtree_insert_fixup` repairs the tree from it (`insertNode_represents`).

`rbtreeInsert_of_absent` and `rbtreeInsert_of_present` give the two outcomes of
`rbtree_insert`: on an absent key the new tree is a red-black search tree whose in-order
sequence has the new node inserted; on a present key nothing changes. `rbtreeReplace_of_present`
rewrites the value in place.
-/

namespace Isulad

open ColouredTree

namespace RbTree

variable {κ ν : Type} (cmp : κ → κ → Int)

/-- For a key compared unequal to every node, the descent of `insert_node` walks as `zoom` does,
and `previous` ends at the parent of the leaf `zoom` reaches. -/
theorem insertNodeDescend_zoom {t : RbTree κ ν} {p : Path (Slot κ ν)} {T : CTree (Slot κ ν)}
    (key : κ) (fuel : Nat) (h : Represents t (p.plug T)) (hfuel : (addrs T).length ≤ fuel)
    (habsent : ∀ x ∈ T.toList, cmp key x.key ≠ 0) :
    insertNodeDescend cmp t key fuel (parentPtr t.nil p) (ptrOf t.nil T) =
      parentPtr t.nil (zoom Slot.key cmp key p T).1 := by
  induction T generalizing p fuel with
  | nil => cases fuel <;> simp [insertNodeDescend, zoom]
  | node l c s r ihl ihr =>
    simp only [CTree.toList_node, List.mem_append, List.mem_cons] at habsent
    have hlen : (addrs l).length + ((addrs r).length + 1) ≤ fuel := by
      simpa only [addrs_node, List.length_append, List.length_cons] using hfuel
    obtain ⟨fuel, rfl⟩ : ∃ f, fuel = f + 1 := Nat.exists_eq_add_one.2 (by omega)
    have hne : s.addr ≠ t.nil := (h.ptrOf_eq_nil_iff.not.2 (by simp))
    rw [ptrOf_node, insertNodeDescend, if_neg hne, h.heap_focus, zoom,
      if_neg (habsent s (.inr (.inl rfl)))]
    split_ifs
    · exact ihl (p := .left c s r :: p) fuel h (by omega) fun x hx => habsent x (.inl hx)
    · exact ihr (p := .right l c s :: p) fuel h (by omega) fun x hx => habsent x (.inr (.inr hx))

/-- The walk to an absent key ends at a leaf, in a context that bounds the key. -/
lemma zoom_absent {T : CTree (Slot κ ν)} {key : κ} (hc : CmpSpec cmp)
    (hord : T.Ordered Slot.key cmp) (habsent : ∀ x ∈ T.toList, cmp key x.key ≠ 0) :
    (zoom Slot.key cmp key [] T).1.plug .nil = T ∧
      (zoom Slot.key cmp key [] T).1.Bounds Slot.key cmp key := by
  refine ⟨?_, Path.Bounds.zoom hc (by simp [Path.Bounds, Path.before, Path.after]) hord⟩
  have := zoom_plug Slot.key cmp key [] T
  rwa [zoom_eq_nil_of_forall habsent] at this

/-- `insert_node` on a node stored apart, black with sentinel pointers, whose key is absent:
the tree becomes the abstract insertion of its slot. -/
theorem insertNode_represents {t : RbTree κ ν} {T : CTree (Slot κ ν)} {s : Slot κ ν} {n : Nat}
    (hc : CmpSpec cmp) (h : Represents t T) (hord : T.Ordered Slot.key cmp)
    (hbal : CTree.Balanced T .black n)
    (hs : t.heap s.addr = ⟨s.key, s.value, .black, t.nil, t.nil, t.nil⟩)
    (hfresh : s.addr ∉ addrs T) (hvalid : s.addr ≠ t.nil ∧ s.addr ≠ 0 ∧ s.addr < t.next)
    (habsent : ∀ x ∈ T.toList, cmp s.key x.key ≠ 0) :
    Represents (insertNode cmp t s.addr) (insertRb Slot.key cmp s T) := by
  rw [insertRb]
  have hprev : insertNodeDescend cmp t s.key t.next t.nil t.root =
      parentPtr t.nil (zoom Slot.key cmp s.key [] T).1 := by
    rw [h.root]
    exact insertNodeDescend_zoom cmp s.key t.next (p := []) h (Nat.le_of_lt h.length_addrs_lt)
      habsent
  obtain ⟨hT, hb⟩ := zoom_absent cmp hc hord habsent
  generalize (zoom Slot.key cmp s.key [] T).1 = pD at hT hb hprev ⊢
  subst hT
  unfold insertNode
  extract_lets previous t₂ t₃ t₄ t₅ t₆
  have hP : previous = parentPtr t.nil pD := by simp only [previous, hs, hprev]
  have hU : Realises t.heap t.nil t.nil (.node .nil .black s .nil) := ⟨hs, trivial, trivial⟩
  have hUvalid : ∀ z ∈ addrs (.node .nil .black s .nil), z ≠ t.nil ∧ z ≠ 0 ∧ z < t.next := by
    intro z hz
    simp only [addrs_node, addrs_nil, List.nil_append, List.mem_singleton] at hz
    exact hz ▸ hvalid
  have hdisj : ∀ z ∈ addrs (.node .nil .black s .nil), z ∉ pathAddrs pD := by
    intro z hz hzp
    simp only [addrs_node, addrs_nil, List.nil_append, List.mem_singleton] at hz
    exact hfresh (mem_addrs_plug.2 (.inl (hz ▸ hzp)))
  -- the new node, still black, linked at the leaf
  have hn₃ : t₃.nil = t.nil := by simp only [t₃, t₂]; split_ifs <;> rfl
  have hx₃ : t₃.next = t.next := by simp only [t₃, t₂]; split_ifs <;> rfl
  have h₃ : Represents t₃ (pD.plug (.node .nil .black s .nil)) := by
    have hgraft := @represents_graft κ ν t t₃ pD t.nil _ h hU (by simp) (by simp) hdisj (hx₃ ▸ hUvalid) hn₃
      (Nat.le_of_eq hx₃.symm)
    cases pD with
    | nil =>
      -- an empty tree: the new node becomes the root
      have ht₃ : t₃ = t₂.setRoot s.addr := by
        simp only [t₃, hP, parentPtr_nil, nil_setParent, t₂, if_true]
      refine hgraft ⟨by rw [ht₃]; rfl, by simp⟩ ?_ fun z hz _ => ?_
      · rw [ptrOf_node, ht₃, heap_setRoot, heap_setParent, if_pos rfl, hP, parentPtr_nil]
      · rw [ht₃, heap_setRoot, heap_setParent, if_neg (show z ≠ s.addr from hz)]
    | cons f q =>
      have hPm : f.payload.addr ∈ addrs (Path.plug (f :: q) .nil) :=
        mem_addrs_plug.2 (.inl (mem_pathAddrs_cons.2 (.inl rfl)))
      have hPnil : f.payload.addr ≠ t.nil := (h.addr_valid _ hPm).1
      have hPs : f.payload.addr ≠ s.addr := fun e => hfresh (e ▸ hPm)
      have hkey : (t₂.heap f.payload.addr).key = f.payload.key := by
        simp only [t₂, heap_setParent, if_neg hPs, h.heap_frame]
        cases f <;> rfl
      have hskey : (t₂.heap s.addr).key = s.key := by simp [t₂, hs]
      -- the comparison with the parent's key goes the way the walk went
      have ht₃ : t₃ = t₂.write f.payload.addr fun n => relinkHole n f s.addr := by
        have hn₂ : t₂.nil = t.nil := rfl
        simp only [t₃, hP, parentPtr, hn₂, if_neg hPnil, hskey, hkey]
        cases f with
        | left c x r =>
          rw [Frame.payload_left, if_pos (hb.2 x (by simp [Path.after]))]
          rfl
        | right l c x =>
          have := (hc.neg_iff _ _).1 (hb.1 x (by simp [Path.before]))
          rw [Frame.payload_right, if_neg (by omega)]
          rfl
      refine hgraft ⟨?_, fun g hg => ?_⟩ ?_ fun z hz hzP => ?_
      · rw [ht₃, root_write, root_setParent, h.root, ptrOf_plug]
        rfl
      · simp only [List.head?_cons, Option.mem_def, Option.some.injEq] at hg
        subst hg
        rw [ht₃, heap_write, if_pos rfl, heap_setParent, if_neg hPs]
        rfl
      · rw [ptrOf_node, ht₃, heap_write, if_neg hPs.symm, heap_setParent, if_pos rfl, hP]
      · rw [ht₃, heap_write, if_neg (hzP f rfl), heap_setParent, if_neg (show z ≠ s.addr from hz)]
  -- `node->left = node->right = tree->nil` rewrite what is there already; then paint it red
  have h₅ : t₅ = t₃ := by
    have hl : (t₃.heap s.addr).left = t₃.nil := by rw [h₃.heap_focus]; rfl
    have hr : (t₃.heap s.addr).right = t₃.nil := by rw [h₃.heap_focus]; rfl
    have h₄ : t₄ = t₃ := setLeft_self hl
    simp only [t₅]
    rw [h₄]
    exact setRight_self hr
  have h₆ : Represents t₆ (pD.plug (.node .nil .red s .nil)) := by
    simp only [t₆]
    rw [h₅]
    exact represents_setColour .red h₃
  have hinv : InsInv pD (.node .nil .red s .nil) :=
    insInv_leaf s (Path.fits_leaf hbal) fun f hf => (Path.colour_plug hf .nil).symm.trans hbal.colour_eq
  exact rbtreeInsertFixup_represents h₆ hinv

/-! ## `rbtree_insert` and `rbtree_replace` -/

section Operations

variable {t : RbTree κ ν} {T : CTree (Slot κ ν)} (hc : CmpSpec cmp) (h : Represents t T)
  (hT : T.IsRbSearch Slot.key cmp) (key : κ) (value : ν)
include hc h hT

attribute [local simp] rbtreeInsert in
/-- `rbtree_insert` of an absent key succeeds and inserts a node allocated at `next`. -/
theorem rbtreeInsert_of_absent (habsent : lookup Slot.key cmp key T = none) :
    (rbtreeInsert cmp t key value).2 = true ∧
      Represents (rbtreeInsert cmp t key value).1 (insertRb Slot.key cmp ⟨t.next, key, value⟩ T) := by
  have hfind : rbtreeFind cmp t key = t.nil :=
    (rbtreeFind_eq_nil_iff_lookup cmp hc key h hT.ordered).2 habsent
  obtain ⟨n, hbal⟩ := hT.balanced
  have hnew := insertNode_represents cmp (s := ⟨t.next, key, value⟩) hc
    (represents_createNode key value t.nil t.nil t.nil h) hT.ordered hbal
    (by rw [heap_rbtreeCreateNode, if_pos rfl]; rfl)
    (fun hm => Nat.lt_irrefl _ (h.addr_valid _ hm).2.2)
    ⟨(Nat.ne_of_lt h.nil_lt).symm, Nat.ne_of_gt (Nat.lt_of_le_of_lt (Nat.zero_le _) h.nil_lt),
      Nat.lt_succ_self _⟩
    (fun x hx => by simpa using List.find?_eq_none.1 habsent x hx)
  rw [rbtreeInsert, if_neg (not_not.2 hfind)]
  exact ⟨rfl, hnew⟩

/-- `rbtree_insert` of a present key fails and leaves the tree alone. -/
theorem rbtreeInsert_of_present (hpresent : lookup Slot.key cmp key T ≠ none) :
    rbtreeInsert cmp t key value = (t, false) := by
  have hfind : rbtreeFind cmp t key ≠ t.nil :=
    fun e => hpresent ((rbtreeFind_eq_nil_iff_lookup cmp hc key h hT.ordered).1 e)
  rw [rbtreeInsert, if_pos hfind]

attribute [local simp] rbtreeReplace in
/-- `rbtree_replace` of an absent key is `rbtree_insert`. -/
theorem rbtreeReplace_of_absent (habsent : lookup Slot.key cmp key T = none) :
    rbtreeReplace cmp t key value = rbtreeInsert cmp t key value := by
  rw [rbtreeReplace, if_pos ((rbtreeFind_eq_nil_iff_lookup cmp hc key h hT.ordered).2 habsent)]

/-- `rbtree_replace` of a present key rewrites the value in place; the stored key stays. -/
theorem rbtreeReplace_of_present (hpresent : lookup Slot.key cmp key T ≠ none) :
    (rbtreeReplace cmp t key value).2 = true ∧
      Represents (rbtreeReplace cmp t key value).1
        (modifyRb Slot.key cmp (fun s => { s with value := value }) key T) := by
  obtain ⟨pF, l, c, s, r, hzoom, hF, hfind⟩ := rbtreeFind_of_present cmp hc h hT.ordered hpresent
  rw [rbtreeReplace, hfind, if_neg hF.addr_ne_nil, modifyRb_of_zoom hzoom]
  exact ⟨rfl, represents_setValue value hF⟩

end Operations

end RbTree

end Isulad
