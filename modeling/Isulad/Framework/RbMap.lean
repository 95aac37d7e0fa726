import Isulad.Framework.SearchTree
import Isulad.Framework.InsertFixup
import Isulad.Framework.EraseFixup

/-!
# Red-black search trees as maps

`IsRbSearch key cmp t` is the invariant of a red-black search tree: in-order keys strictly
increase under `cmp`, the tree is balanced (the same number of black nodes on every path from
the root to a leaf, no red node with a red child) and the root is black. The operations are
the textbook ones, on the zipper of `SearchTree.lean`:

* `insertRb x t`: walk to the leaf for `key x`, hang `x` there red, repair upwards
  (`insFix`), blacken the root;
* `modifyRb g k t`: rewrite the payload whose key compares equal to `k`;
* `eraseRb k t`: take that payload out (`eraseAt`, with the removal fix-up `delFix`).

For each, the invariant is kept (`IsRbSearch.insertRb`, `IsRbSearch.modifyRb`,
`IsRbSearch.eraseRb`), the in-order sequence changes by one payload (`toList_insertRb`,
`toList_modifyRb`, `toList_eraseRb`), and so `lookup`, the map the tree stands for, changes at
one key only (`lookup_insertRb`, `lookup_modifyRb`, `lookup_eraseRb`).
-/

namespace ColouredTree

universe u v

variable {α : Type u} {κ : Type v} (key : α → κ) (cmp : κ → κ → Int)

/-- The invariant of a red-black search tree. -/
structure CTree.IsRbSearch (t : CTree α) : Prop where
  ordered : t.Ordered key cmp
  balanced : ∃ n, CTree.Balanced t .black n

/-- Textbook insertion of `x`. -/
def insertRb (x : α) (t : CTree α) : CTree α :=
  (insFix (zoom key cmp (key x) [] t).1 (.node .nil .red x .nil)).setColour .black

/-- Take out the payload whose key compares equal to `k`, if there is one. -/
def eraseRb (k : κ) (t : CTree α) : CTree α :=
  match zoom key cmp k [] t with
  | (p, .node l c _ r) => eraseAt p l c r
  | (_, .nil) => t

/-- Rewrite with `g` the payload whose key compares equal to `k`, if there is one. -/
def modifyRb (g : α → α) (k : κ) (t : CTree α) : CTree α :=
  match zoom key cmp k [] t with
  | (p, .node l c x r) => p.plug (.node l c (g x) r)
  | (p, .nil) => p.plug .nil

variable {key cmp}

/-- Order only sees the in-order sequence of keys. -/
lemma ordered_iff_keys {t : CTree α} :
    t.Ordered key cmp ↔ (t.toList.map key).Pairwise fun a b => cmp a b < 0 := by
  rw [CTree.Ordered, List.pairwise_map]

/-! ## Insertion -/

section Insert

variable {x : α} {t : CTree α}

attribute [local simp] insertRb in
/-- Inserting an absent key puts its payload between the payloads the walk passed. -/
theorem toList_insertRb (habsent : ∀ y ∈ t.toList, cmp (key x) (key y) ≠ 0) :
    t.toList = (zoom key cmp (key x) [] t).1.before ++ (zoom key cmp (key x) [] t).1.after ∧
      (insertRb key cmp x t).toList =
        (zoom key cmp (key x) [] t).1.before ++ x :: (zoom key cmp (key x) [] t).1.after := by
  have hplug := zoom_plug key cmp (key x) [] t
  rw [zoom_eq_nil_of_forall habsent, Path.plug_nil] at hplug
  constructor
  · have := congrArg CTree.toList hplug
    rw [Path.toList_plug, CTree.toList_nil, List.append_nil] at this
    exact this.symm
  · rw [insertRb, CTree.toList_setColour, toList_insFix, Path.toList_plug]
    simp

variable (hc : CmpSpec cmp)
include hc

/-- Insertion of an absent key keeps a red-black search tree one. -/
theorem CTree.IsRbSearch.insertRb (ht : t.IsRbSearch key cmp)
    (habsent : ∀ y ∈ t.toList, cmp (key x) (key y) ≠ 0) : (insertRb key cmp x t).IsRbSearch key cmp := by
  obtain ⟨n, hbal⟩ := ht.balanced
  have hplug := zoom_plug key cmp (key x) [] t
  rw [zoom_eq_nil_of_forall habsent, Path.plug_nil] at hplug
  have hb : (zoom key cmp (key x) [] t).1.Bounds key cmp (key x) :=
    Path.Bounds.zoom hc (by simp [Path.Bounds, Path.before, Path.after]) ht.ordered
  rw [← hplug] at hbal
  have hinv : InsInv (zoom key cmp (key x) [] t).1 (.node .nil .red x .nil) :=
    insInv_leaf x (Path.fits_leaf hbal) fun f hf =>
      (Path.colour_plug hf .nil).symm.trans hbal.colour_eq
  refine ⟨?_, balanced_insFix hinv⟩
  have hord := ordered_plug_leaf .red hb (by rw [hplug]; exact ht.ordered)
  unfold CTree.Ordered at hord ⊢
  rwa [ColouredTree.insertRb, CTree.toList_setColour, toList_insFix]

/-- Insertion of an absent key adds one binding to the map. -/
theorem lookup_insertRb (ht : t.IsRbSearch key cmp)
    (habsent : ∀ y ∈ t.toList, cmp (key x) (key y) ≠ 0) (k : κ) :
    lookup key cmp k (insertRb key cmp x t) =
      if cmp k (key x) = 0 then some x else lookup key cmp k t := by
  obtain ⟨h1, h2⟩ := toList_insertRb habsent
  rw [lookup_of_toList hc k (ht.insertRb hc habsent).ordered h2, lookup, h1]

end Insert

/-! ## Rewriting a payload -/

section Modify

variable {g : α → α} {k : κ} {t : CTree α} {p : Path α} {l r : CTree α} {c : Colour} {x : α}

lemma modifyRb_of_zoom (h : zoom key cmp k [] t = (p, .node l c x r)) :
    modifyRb key cmp g k t = p.plug (.node l c (g x) r) := by
  simp [modifyRb, h]

lemma toList_of_zoom (h : zoom key cmp k [] t = (p, .node l c x r)) :
    t.toList = p.before ++ l.toList ++ x :: (r.toList ++ p.after) := by
  have hplug := zoom_plug key cmp k [] t
  simp only [h, Path.plug_nil] at hplug
  have := congrArg CTree.toList hplug
  rw [Path.toList_plug, CTree.toList_node] at this
  rw [← this]
  simp

lemma toList_modifyRb (h : zoom key cmp k [] t = (p, .node l c x r)) :
    (modifyRb key cmp g k t).toList = p.before ++ l.toList ++ g x :: (r.toList ++ p.after) := by
  rw [modifyRb_of_zoom h, Path.toList_plug, CTree.toList_node]
  simp

/-- A rewrite that keeps the key keeps a red-black search tree one. -/
theorem CTree.IsRbSearch.modifyRb (ht : t.IsRbSearch key cmp)
    (h : zoom key cmp k [] t = (p, .node l c x r)) (hg : key (g x) = key x) :
    (modifyRb key cmp g k t).IsRbSearch key cmp := by
  obtain ⟨n, hbal⟩ := ht.balanced
  have hplug := zoom_plug key cmp k [] t
  simp only [h, Path.plug_nil] at hplug
  refine ⟨?_, ?_⟩
  · have hord := ordered_iff_keys.1 ht.ordered
    rw [ordered_iff_keys, toList_modifyRb h]
    rw [toList_of_zoom h] at hord
    simpa [hg] using hord
  · rw [← hplug] at hbal
    exact ⟨n, modifyRb_of_zoom h ▸ Path.balanced_plug_congr (fun _ _ => CTree.Balanced.node_payload) hbal⟩

variable (hc : CmpSpec cmp)
include hc

/-- A rewrite that keeps the key changes the map at that key only. -/
theorem lookup_modifyRb (ht : t.IsRbSearch key cmp) (h : zoom key cmp k [] t = (p, .node l c x r))
    (hg : key (g x) = key x) (k' : κ) :
    lookup key cmp k' (modifyRb key cmp g k t) =
      if cmp k' (key x) = 0 then some (g x) else lookup key cmp k' t := by
  have h1 := toList_of_zoom h
  have h2 := toList_modifyRb (g := g) h
  rw [lookup_of_toList hc k' (ht.modifyRb h hg).ordered h2, hg, lookup_of_toList hc k' ht.ordered h1]
  split_ifs with h0
  · rfl
  · rfl

end Modify

/-! ## Removal -/

section Erase

variable {k : κ} {t : CTree α} {p : Path α} {l r : CTree α} {c : Colour} {x : α}

lemma eraseRb_of_zoom (h : zoom key cmp k [] t = (p, .node l c x r)) :
    eraseRb key cmp k t = eraseAt p l c r := by
  simp [eraseRb, h]

lemma eraseRb_of_zoom_nil (h : (zoom key cmp k [] t).2 = .nil) : eraseRb key cmp k t = t := by
  unfold eraseRb
  rcases hz : zoom key cmp k [] t with ⟨p, _ | _⟩
  · rfl
  · simp [hz] at h

lemma toList_eraseRb (h : zoom key cmp k [] t = (p, .node l c x r)) :
    (eraseRb key cmp k t).toList = p.before ++ l.toList ++ (r.toList ++ p.after) := by
  rw [eraseRb_of_zoom h, toList_eraseAt]
  simp

/-- Removal keeps a red-black search tree one. -/
theorem CTree.IsRbSearch.eraseRb (ht : t.IsRbSearch key cmp) :
    (eraseRb key cmp k t).IsRbSearch key cmp := by
  rcases hz : zoom key cmp k [] t with ⟨p, _ | ⟨l, c, x, r⟩⟩
  · rwa [eraseRb_of_zoom_nil (by rw [hz])]
  · obtain ⟨n, hbal⟩ := ht.balanced
    have hplug := zoom_plug key cmp k [] t
    simp only [hz, Path.plug_nil] at hplug
    refine ⟨?_, ?_⟩
    · -- the new in-order sequence is the old one less one payload
      have hord := ht.ordered
      unfold CTree.Ordered at hord ⊢
      rw [toList_eraseRb hz]
      rw [toList_of_zoom hz] at hord
      refine hord.sublist ?_
      simp only [List.append_assoc]
      exact List.Sublist.append_left (List.Sublist.append_left
        (List.sublist_cons_self _ _) _) _
    · rw [eraseRb_of_zoom hz]
      rw [← hplug] at hbal
      exact balanced_eraseAt hbal

variable (hc : CmpSpec cmp)
include hc

/-- Removal of a present key takes its binding out of the map. -/
theorem lookup_eraseRb (ht : t.IsRbSearch key cmp) (h : zoom key cmp k [] t = (p, .node l c x r))
    (k' : κ) :
    lookup key cmp k' (eraseRb key cmp k t) =
      if cmp k' (key x) = 0 then none else lookup key cmp k' t := by
  have h1 := toList_of_zoom h
  rw [lookup_of_toList hc k' ht.ordered h1, lookup, toList_eraseRb h]
  split_ifs with h0
  · simpa only [List.append_assoc] using find?_eq_none_of_toList hc ht.ordered h1 h0
  · simp only [List.append_assoc]

end Erase

end ColouredTree
