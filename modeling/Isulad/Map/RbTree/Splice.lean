import Isulad.Map.RbTree.Rotation

/-!
# Allocating, linking and unlinking nodes

The pointer surgery of `insert_node` and `rbtree_erase`, stated once on a zipper.

* `represents_createNode`: `rbtree_create_node` stores the new node past every allocated
  address and leaves the tree alone.
* `represents_of_relinks`: the one shape all linking has. The pointer to the hole of a context
  (the parent's child field, or `tree->root` at the top: `Relinks`) is re-aimed at a subtree
  stored apart, and that subtree's root is given the hole's parent; then the heap represents
  the context with the subtree in its hole.
* `represents_graft`: the linking of `insert_node`, and `y->left = node->left` in
  `rbtree_erase`: a subtree hung at a leaf.
* `represents_transplant`: `rbtree_transplant(tree, u, v)` hangs the subtree at `v` where `u`
  hung. When `v` is the sentinel it writes the sentinel's parent field, which
  `rbtree_erase_fixup` reads back; the lemma says what it holds.
-/

namespace Isulad

open ColouredTree

namespace RbTree

variable {κ ν : Type}

/-! ## Writes that change nothing -/

section Self

variable {t : RbTree κ ν} {a p : Ptr}

lemma setLeft_self (h : (t.heap a).left = p) : t.setLeft a p = t := by
  have hn : { t.heap a with left := p } = t.heap a := by rw [← h]
  simp only [setLeft, write, hn, Function.update_eq_self]

lemma setRight_self (h : (t.heap a).right = p) : t.setRight a p = t := by
  have hn : { t.heap a with right := p } = t.heap a := by rw [← h]
  simp only [setRight, write, hn, Function.update_eq_self]

end Self

/-! ## Allocation -/

section Create

variable (t : RbTree κ ν) (key : κ) (value : ν) (l r p : Ptr)

@[simp] lemma snd_rbtreeCreateNode : (rbtreeCreateNode t key value l r p).2 = t.next := rfl
@[simp] lemma nil_rbtreeCreateNode : (rbtreeCreateNode t key value l r p).1.nil = t.nil := rfl
@[simp] lemma root_rbtreeCreateNode : (rbtreeCreateNode t key value l r p).1.root = t.root := rfl
@[simp] lemma next_rbtreeCreateNode :
    (rbtreeCreateNode t key value l r p).1.next = t.next + 1 := rfl

lemma heap_rbtreeCreateNode (z : Ptr) : (rbtreeCreateNode t key value l r p).1.heap z =
    if z = t.next then ⟨key, value, .black, l, r, p⟩ else t.heap z := by
  simp [rbtreeCreateNode, Function.update_apply]

variable {t}

/-- Allocation leaves a represented tree represented: every node of it lies below `next`. -/
theorem represents_createNode {T : CTree (Slot κ ν)} (h : Represents t T) :
    Represents (rbtreeCreateNode t key value l r p).1 T := by
  have hagree : ∀ z ∈ addrs T, (rbtreeCreateNode t key value l r p).1.heap z = t.heap z :=
    fun z hz => by rw [heap_rbtreeCreateNode, if_neg (Nat.ne_of_lt (h.addr_valid z hz).2.2)]
  refine ⟨(realises_congr hagree).2 h.realises, h.root, h.nodup, fun z hz => ?_, h.nil_ne_null,
    by simp only [next_rbtreeCreateNode]; exact Nat.lt_succ_of_lt h.nil_lt, ?_⟩
  · obtain ⟨h1, h2, h3⟩ := h.addr_valid z hz
    exact ⟨h1, h2, Nat.lt_succ_of_lt h3⟩
  · rw [nil_rbtreeCreateNode, heap_rbtreeCreateNode, if_neg (Nat.ne_of_lt h.nil_lt)]
    exact h.nil_black

end Create

/-! ## Re-aiming the pointer to a hole -/

/-- `t'` re-aims at `V` the pointer of `t` to the hole of `p`: the parent's child field, or
`tree->root` when the hole is the whole tree. -/
def Relinks (t t' : RbTree κ ν) (p : Path (Slot κ ν)) (V : Ptr) : Prop :=
  t'.root = topPtr t.nil p V ∧
    ∀ f ∈ p.head?, t'.heap f.payload.addr = relinkHole (t.heap f.payload.addr) f V

/-- Re-aiming the hole's pointer at a subtree stored apart, and giving that subtree's root the
hole's parent, puts the subtree in the hole. Every other cell of the context and of the
subtree is left as it was. -/
theorem represents_of_relinks {t t' : RbTree κ ν} {p : Path (Slot κ ν)} {old a : Ptr}
    {X : CTree (Slot κ ν)} (hp : RealisesPath t.heap t.nil p old)
    (hX : Realises t.heap t.nil a X) (hnd : (pathAddrs p ++ addrs X).Nodup)
    (hvalid : ∀ z ∈ pathAddrs p ++ addrs X, z ≠ t.nil ∧ z ≠ 0 ∧ z < t'.next)
    (hnil : t'.nil = t.nil) (hnil0 : t.nil ≠ 0) (hnillt : t.nil < t'.next)
    (hnilb : (t'.heap t.nil).colour = .black) (hlink : Relinks t t' p (ptrOf t.nil X))
    (hV : X ≠ .nil →
      t'.heap (ptrOf t.nil X) = { t.heap (ptrOf t.nil X) with parent := parentPtr t.nil p })
    (hkeep : ∀ z, z ≠ ptrOf t.nil X → (∀ f ∈ p.head?, z ≠ f.payload.addr) →
      t'.heap z = t.heap z) :
    Represents t' (p.plug X) := by
  obtain ⟨hndp, hndX, hdisj⟩ := List.nodup_append.1 hnd
  -- a cell of the context is neither the subtree's root nor, unless it is the parent, written
  have hpX : ∀ z ∈ pathAddrs p, z ≠ ptrOf t.nil X := by
    rintro z hz rfl
    exact hdisj _ hz _ (ptrOf_mem_addrs (hvalid _ (List.mem_append_left _ hz)).1) rfl
  refine ⟨?_, ?_, nodup_addrs_plug.2 hnd, fun z hz => ?_, hnil ▸ hnil0, hnil ▸ hnillt,
    hnil ▸ hnilb⟩
  · rw [hnil, realises_plug]
    refine ⟨?_, ?_⟩
    · cases p with
      | nil => trivial
      | cons f q =>
        refine realisesPath_relink hp hndp (hlink.2 f rfl) fun z hz hzP => hkeep z (hpX z hz) ?_
        simpa using hzP
    · cases X with
      | nil => trivial
      | node l c s r =>
        refine realises_rehang hX hndX (fun z _ hz => hz ▸ hV (by simp)) fun z hz hzV =>
          hkeep z hzV fun f hf e => hdisj _ ?_ z hz e.symm
        cases p with
        | nil => simp at hf
        | cons g q =>
          simp only [List.head?_cons, Option.mem_def, Option.some.injEq] at hf
          exact hf ▸ mem_pathAddrs_cons.2 (.inl rfl)
  · rw [hlink.1, ptrOf_plug, hnil]
  · rw [hnil]
    rcases mem_addrs_plug.1 hz with hz | hz
    · exact hvalid z (List.mem_append_left _ hz)
    · exact hvalid z (List.mem_append_right _ hz)

/-! ## Linking a subtree at a leaf -/

/-- A subtree stored apart, hung at a leaf of a represented tree. -/
theorem represents_graft {t t' : RbTree κ ν} {p : Path (Slot κ ν)} {a : Ptr}
    {U : CTree (Slot κ ν)} (h : Represents t (p.plug .nil)) (hU : Realises t.heap t.nil a U)
    (hU0 : U ≠ .nil) (hUnd : (addrs U).Nodup) (hdisj : ∀ z ∈ addrs U, z ∉ pathAddrs p)
    (hvalid : ∀ z ∈ addrs U, z ≠ t.nil ∧ z ≠ 0 ∧ z < t'.next) (hnil : t'.nil = t.nil)
    (hnext : t.next ≤ t'.next) (hlink : Relinks t t' p (ptrOf t.nil U))
    (hV : t'.heap (ptrOf t.nil U) = { t.heap (ptrOf t.nil U) with parent := parentPtr t.nil p })
    (hkeep : ∀ z, z ≠ ptrOf t.nil U → (∀ f ∈ p.head?, z ≠ f.payload.addr) →
      t'.heap z = t.heap z) :
    Represents t' (p.plug U) := by
  have hpvalid : ∀ z ∈ pathAddrs p, z ≠ t.nil ∧ z ≠ 0 ∧ z < t.next := fun z hz =>
    h.addr_valid z (mem_addrs_plug.2 (.inl hz))
  have hnd : (pathAddrs p ++ addrs U).Nodup := by
    refine List.nodup_append.2 ⟨?_, hUnd, fun x hx y hy e => hdisj y hy (e ▸ hx)⟩
    simpa using nodup_addrs_plug.1 h.nodup
  -- the sentinel is neither the subtree's root nor a node of the context
  have hUnil : ptrOf t.nil U ≠ t.nil := by
    cases U with
    | nil => exact absurd rfl hU0
    | node l c s r => exact (hvalid s.addr (by simp)).1.symm ∘ Eq.symm
  have hnilkeep : t'.heap t.nil = t.heap t.nil := by
    refine hkeep t.nil hUnil.symm fun f hf e => ?_
    cases p with
    | nil => simp at hf
    | cons g q =>
      simp only [List.head?_cons, Option.mem_def, Option.some.injEq] at hf
      exact (hpvalid _ (hf ▸ mem_pathAddrs_cons.2 (.inl rfl))).1 e.symm
  refine represents_of_relinks ((realises_plug _ _ p _).1 h.realises).1 hU hnd
    (fun z hz => ?_) hnil h.nil_ne_null (Nat.lt_of_lt_of_le h.nil_lt hnext)
    (hnilkeep ▸ h.nil_black) hlink (fun _ => hV) hkeep
  rcases List.mem_append.1 hz with hz | hz
  · obtain ⟨h1, h2, h3⟩ := hpvalid z hz
    exact ⟨h1, h2, Nat.lt_of_lt_of_le h3 hnext⟩
  · exact hvalid z hz

/-! ## `rbtree_transplant` -/

/-- `rbtree_transplant` reads `u->parent` before its first write and again after it; the
write leaves it alone. -/
lemma rbtreeTransplant_eq {t : RbTree κ ν} {u v P : Ptr} (hu : (t.heap u).parent = P) :
    rbtreeTransplant t u v = (if P = t.nil then t.setRoot v
      else if u = (t.heap P).left then t.setLeft P v else t.setRight P v).setParent v P := by
  unfold rbtreeTransplant
  simp only [hu]
  split_ifs <;> simp only [parent_setLeft, parent_setRight, heap_setRoot, hu]

/-- `rbtree_transplant(tree, u, v)` with `u` the root of the hole of a stored context and `v`
the root of a subtree stored apart: the subtree takes the hole, and its root pointer, the
sentinel included, has the hole's parent for parent. -/
theorem represents_transplant {t : RbTree κ ν} {p : Path (Slot κ ν)} {u a : Ptr}
    {X : CTree (Slot κ ν)} (hp : RealisesPath t.heap t.nil p u) (hroot : t.root = topPtr t.nil p u)
    (hu : (t.heap u).parent = parentPtr t.nil p) (hX : Realises t.heap t.nil a X)
    (hnd : (pathAddrs p ++ addrs X).Nodup)
    (hvalid : ∀ z ∈ pathAddrs p ++ addrs X, z ≠ t.nil ∧ z ≠ 0 ∧ z < t.next)
    (hup : u ∉ pathAddrs p) (hunil : u ≠ t.nil) (hnil0 : t.nil ≠ 0) (hnillt : t.nil < t.next)
    (hnilb : (t.heap t.nil).colour = .black) :
    Represents (rbtreeTransplant t u (ptrOf t.nil X)) (p.plug X) ∧
      ((rbtreeTransplant t u (ptrOf t.nil X)).heap (ptrOf t.nil X)).parent =
        parentPtr t.nil p := by
  set V := ptrOf t.nil X
  set P := parentPtr t.nil p
  rw [rbtreeTransplant_eq hu]
  -- the first write: the parent's child field, or the root
  set t₁ : RbTree κ ν := if P = t.nil then t.setRoot V
    else if u = (t.heap P).left then t.setLeft P V else t.setRight P V with ht₁
  have hn₁ : t₁.nil = t.nil := by simp only [t₁]; split_ifs <;> rfl
  have hx₁ : t₁.next = t.next := by simp only [t₁]; split_ifs <;> rfl
  -- only the parent's cell changes in the first write
  have hkeep₁ : ∀ z, z ≠ P ∨ P = t.nil → t₁.heap z = t.heap z := by
    intro z hz
    simp only [t₁]
    split_ifs with h1 h2
    · rfl
    · rw [heap_setLeft, if_neg (hz.resolve_right h1)]
    · rw [heap_setRight, if_neg (hz.resolve_right h1)]
  have hlink₁ : Relinks t t₁ p V := by
    cases p with
    | nil =>
      refine ⟨?_, by simp⟩
      simp only [t₁, P, parentPtr_nil, if_true]
      rfl
    | cons f q =>
      have hPf : P = f.payload.addr := rfl
      have hPnil : P ≠ t.nil := (hvalid P (List.mem_append_left _
        (mem_pathAddrs_cons.2 (.inl hPf)))).1
      have hfs : t.heap f.payload.addr = frameNode t.nil f u (parentPtr t.nil q) := hp.1
      refine ⟨?_, fun g hg => ?_⟩
      · simp only [t₁, if_neg hPnil]
        split_ifs <;> exact hroot
      · simp only [List.head?_cons, Option.mem_def, Option.some.injEq] at hg
        subst hg
        rw [← hPf]
        simp only [t₁, if_neg hPnil]
        cases f with
        | left fc fs fr =>
          have hl : u = (t.heap P).left := by rw [hPf, hfs]; rfl
          rw [if_pos hl, heap_setLeft, if_pos rfl]
          rfl
        | right fl fc fs =>
          -- the sibling's root is not `u`: `u` is no node of the context, and not the sentinel
          have hl : u ≠ (t.heap P).left := by
            rw [hPf, hfs]
            exact (ptrOf_ne_of_not_mem hunil fun h =>
              hup (mem_pathAddrs_cons.2 (.inr (.inl h)))).symm
          rw [if_neg hl, heap_setRight, if_pos rfl]
          rfl
  have hVP : V ≠ P ∨ P = t.nil := by
    cases p with
    | nil => exact .inr rfl
    | cons f q =>
      refine .inl fun e => ?_
      have hPm : P ∈ pathAddrs (f :: q) := mem_pathAddrs_cons.2 (.inl rfl)
      cases X with
      | nil =>
        exact (hvalid P (List.mem_append_left _ hPm)).1 e.symm
      | node l c s r =>
        exact List.disjoint_of_nodup_append hnd hPm (e ▸ (by simp : s.addr ∈ addrs (.node l c s r)))
  refine ⟨?_, ?_⟩
  · refine represents_of_relinks hp hX hnd (by simpa only [next_setParent, hx₁] using hvalid)
      (by rw [nil_setParent, hn₁]) hnil0 (by simpa only [next_setParent, hx₁] using hnillt) ?_
      ⟨by rw [root_setParent, hlink₁.1], fun f hf => ?_⟩ (fun _ => ?_) (fun z hzV hzP => ?_)
    · rw [colour_setParent, hkeep₁ t.nil ?_]
      · exact hnilb
      · cases p with
        | nil => exact .inr rfl
        | cons f q => exact .inl fun e => (hvalid P (List.mem_append_left _
            (mem_pathAddrs_cons.2 (.inl rfl)))).1 e.symm
    · rw [heap_setParent, if_neg ?_, hlink₁.2 f hf]
      cases p with
      | nil => simp at hf
      | cons g q =>
        simp only [List.head?_cons, Option.mem_def, Option.some.injEq] at hf
        subst hf
        exact fun e => (hVP.resolve_right fun h => (hvalid P (List.mem_append_left _
          (mem_pathAddrs_cons.2 (.inl rfl)))).1 h) e.symm
    · rw [heap_setParent, if_pos rfl, hkeep₁ V hVP]
    · rw [heap_setParent, if_neg hzV]
      refine hkeep₁ z ?_
      cases p with
      | nil => exact .inr rfl
      | cons f q => exact .inl (hzP f rfl)
  · rw [heap_setParent, if_pos rfl]

/-- `rbtree_transplant` at the focus, with a subtree stored among the focus's own nodes: that
subtree takes the focus's place. -/
theorem Represents.transplant {t : RbTree κ ν} {p : Path (Slot κ ν)} {U X : CTree (Slot κ ν)}
    {a : Ptr} (h : Represents t (p.plug U)) (hU : U ≠ .nil) (hX : Realises t.heap t.nil a X)
    (hsub : (addrs X).Sublist (addrs U)) :
    Represents (rbtreeTransplant t (ptrOf t.nil U) (ptrOf t.nil X)) (p.plug X) ∧
      ((rbtreeTransplant t (ptrOf t.nil U) (ptrOf t.nil X)).heap (ptrOf t.nil X)).parent =
        parentPtr t.nil p := by
  obtain ⟨hpath, hUr⟩ := (realises_plug _ _ p U).1 h.realises
  have hnd := nodup_addrs_plug.1 h.nodup
  cases U with
  | nil => exact absurd rfl hU
  | node l c s r =>
    have hs : s.addr ∈ addrs (.node l c s r) := by simp
    refine represents_transplant hpath (h.root.trans (ptrOf_plug _ _ _)) hUr.parent_eq hX
      (hnd.sublist (hsub.append_left _)) (fun z hz => h.addr_valid z ?_)
      (fun hp => List.disjoint_of_nodup_append hnd hp hs)
      (h.addr_valid s.addr (mem_addrs_plug.2 (.inr hs))).1 h.nil_ne_null h.nil_lt h.nil_black
    rcases List.mem_append.1 hz with hz | hz
    · exact mem_addrs_plug.2 (.inl hz)
    · exact mem_addrs_plug.2 (.inr (hsub.subset hz))

end RbTree

end Isulad
