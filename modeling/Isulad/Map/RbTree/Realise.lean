import Isulad.Map.RbTree.Heap
import Mathlib.Data.List.Nodup
import Mathlib.Data.List.Perm.Subperm

/-!
# Which abstract tree a heap stores

The heap of an `RbTree` is related to an abstract coloured tree whose payloads are `Slot`s:
the address a node lives at, its key and its value. `Realises h nil p T` says that every node
of `T` is stored at its address with its key, value and colour, with child pointers to the
roots of its subtrees (`nil` for a leaf) and with parent pointer to its parent, `p` for the
root of `T`. This relation carries the whole pointer discipline of `rb_tree.c`: a parent
pointer that does not point back makes it fail.

A subtree in context is handled through `ColouredTree.Path`: `realises_plug` splits the
relation for `plug p T` into `RealisesPath` for the context and `Realises` for `T`, so an
operation that rewrites a few nodes around one position is checked against the context
once. `realises_congr` and `realisesPath_congr` are the frame rules: only the nodes at the
tree's own addresses matter.

`Represents t T` adds what every operation relies on besides the pointers: the addresses of
`T` are distinct, allocated, and neither `NULL` nor the sentinel, the sentinel is allocated
and black, and `root` points at the root of `T`.
-/

namespace Isulad

open ColouredTree

/-- The payload of an abstract node: where it lives, its key and its value. -/
structure Slot (κ ν : Type) where
  addr : Ptr
  key : κ
  value : ν
  deriving DecidableEq, Repr

namespace RbTree

variable {κ ν : Type}

/-! ## Reads after writes -/

section Writes

variable (t : RbTree κ ν) (a x p : Ptr) (c : Colour) (v : ν)

attribute [local simp] write in
@[simp] lemma heap_write (f : RbNode κ ν → RbNode κ ν) :
    (t.write a f).heap x = if x = a then f (t.heap a) else t.heap x := by
  simp [write, Function.update_apply]

@[simp] lemma heap_setLeft :
    (t.setLeft a p).heap x = if x = a then { t.heap a with left := p } else t.heap x :=
  heap_write ..

@[simp] lemma heap_setRight :
    (t.setRight a p).heap x = if x = a then { t.heap a with right := p } else t.heap x :=
  heap_write ..

@[simp] lemma heap_setParent :
    (t.setParent a p).heap x = if x = a then { t.heap a with parent := p } else t.heap x :=
  heap_write ..

@[simp] lemma heap_setColour :
    (t.setColour a c).heap x = if x = a then { t.heap a with colour := c } else t.heap x :=
  heap_write ..

@[simp] lemma heap_setValue :
    (t.setValue a v).heap x = if x = a then { t.heap a with value := v } else t.heap x :=
  heap_write ..

@[simp] lemma heap_setRoot : (t.setRoot a).heap = t.heap := rfl

/-- Recolouring leaves every pointer field in place. -/
@[simp] lemma parent_setColour : ((t.setColour a c).heap x).parent = (t.heap x).parent := by
  by_cases hx : x = a <;> simp [hx]
@[simp] lemma left_setColour : ((t.setColour a c).heap x).left = (t.heap x).left := by
  by_cases hx : x = a <;> simp [hx]
@[simp] lemma right_setColour : ((t.setColour a c).heap x).right = (t.heap x).right := by
  by_cases hx : x = a <;> simp [hx]
@[simp] lemma parent_setLeft : ((t.setLeft a p).heap x).parent = (t.heap x).parent := by
  by_cases hx : x = a <;> simp [hx]
@[simp] lemma parent_setRight : ((t.setRight a p).heap x).parent = (t.heap x).parent := by
  by_cases hx : x = a <;> simp [hx]
@[simp] lemma colour_setParent : ((t.setParent a p).heap x).colour = (t.heap x).colour := by
  by_cases hx : x = a <;> simp [hx]
@[simp] lemma colour_setLeft : ((t.setLeft a p).heap x).colour = (t.heap x).colour := by
  by_cases hx : x = a <;> simp [hx]
@[simp] lemma colour_setRight : ((t.setRight a p).heap x).colour = (t.heap x).colour := by
  by_cases hx : x = a <;> simp [hx]
lemma colour_setColour :
    ((t.setColour a c).heap x).colour = if x = a then c else (t.heap x).colour := by
  rw [heap_setColour]; split <;> rfl

@[simp] lemma root_write (f : RbNode κ ν → RbNode κ ν) : (t.write a f).root = t.root := rfl
@[simp] lemma nil_write (f : RbNode κ ν → RbNode κ ν) : (t.write a f).nil = t.nil := rfl
@[simp] lemma next_write (f : RbNode κ ν → RbNode κ ν) : (t.write a f).next = t.next := rfl
@[simp] lemma root_setLeft : (t.setLeft a p).root = t.root := rfl
@[simp] lemma nil_setLeft : (t.setLeft a p).nil = t.nil := rfl
@[simp] lemma next_setLeft : (t.setLeft a p).next = t.next := rfl
@[simp] lemma root_setRight : (t.setRight a p).root = t.root := rfl
@[simp] lemma nil_setRight : (t.setRight a p).nil = t.nil := rfl
@[simp] lemma next_setRight : (t.setRight a p).next = t.next := rfl
@[simp] lemma root_setParent : (t.setParent a p).root = t.root := rfl
@[simp] lemma nil_setParent : (t.setParent a p).nil = t.nil := rfl
@[simp] lemma next_setParent : (t.setParent a p).next = t.next := rfl
@[simp] lemma root_setColour : (t.setColour a c).root = t.root := rfl
@[simp] lemma nil_setColour : (t.setColour a c).nil = t.nil := rfl
@[simp] lemma next_setColour : (t.setColour a c).next = t.next := rfl
@[simp] lemma root_setValue : (t.setValue a v).root = t.root := rfl
@[simp] lemma nil_setValue : (t.setValue a v).nil = t.nil := rfl
@[simp] lemma next_setValue : (t.setValue a v).next = t.next := rfl
@[simp] lemma root_setRoot : (t.setRoot a).root = a := rfl
@[simp] lemma nil_setRoot : (t.setRoot a).nil = t.nil := rfl
@[simp] lemma next_setRoot : (t.setRoot a).next = t.next := rfl

end Writes

/-! ## The realisation relation -/

/-- The pointer to the root of an abstract subtree: its address, or `nil` for a leaf. -/
def ptrOf (nil : Ptr) : CTree (Slot κ ν) → Ptr
  | .nil => nil
  | .node _ _ s _ => s.addr

/-- The addresses of the nodes of a tree, in order. -/
def addrs (T : CTree (Slot κ ν)) : List Ptr := T.toList.map Slot.addr

/-- The addresses of the nodes of a context. -/
def pathAddrs (p : Path (Slot κ ν)) : List Ptr := (p.before ++ p.after).map Slot.addr

/-- The parent pointer of whatever sits in the hole of `p`. -/
def parentPtr (nil : Ptr) : Path (Slot κ ν) → Ptr
  | [] => nil
  | f :: _ => f.payload.addr

@[simp] lemma ptrOf_nil (nil : Ptr) : ptrOf nil (.nil : CTree (Slot κ ν)) = nil := rfl
@[simp] lemma ptrOf_node (nil : Ptr) (l r : CTree (Slot κ ν)) (c : Colour) (s : Slot κ ν) :
    ptrOf nil (.node l c s r) = s.addr := rfl
@[simp] lemma addrs_nil : addrs (.nil : CTree (Slot κ ν)) = [] := rfl
attribute [local simp] addrs in
@[simp] lemma addrs_node (l r : CTree (Slot κ ν)) (c : Colour) (s : Slot κ ν) :
    addrs (.node l c s r) = addrs l ++ s.addr :: addrs r := by
  simp [addrs]
@[simp] lemma parentPtr_nil (nil : Ptr) : parentPtr nil ([] : Path (Slot κ ν)) = nil := rfl
@[simp] lemma parentPtr_left (nil : Ptr) (c : Colour) (s : Slot κ ν) (r : CTree (Slot κ ν))
    (p : Path (Slot κ ν)) : parentPtr nil (.left c s r :: p) = s.addr := rfl
@[simp] lemma parentPtr_right (nil : Ptr) (c : Colour) (s : Slot κ ν) (l : CTree (Slot κ ν))
    (p : Path (Slot κ ν)) : parentPtr nil (.right l c s :: p) = s.addr := rfl

lemma addrs_plug (p : Path (Slot κ ν)) (T : CTree (Slot κ ν)) :
    addrs (p.plug T) = p.before.map Slot.addr ++ addrs T ++ p.after.map Slot.addr := by
  simp [addrs, Path.toList_plug]

attribute [local simp] pathAddrs ColouredTree.Frame.payload ColouredTree.Frame.sibling in
lemma mem_pathAddrs_cons {a : Ptr} {f : Frame (Slot κ ν)} {p : Path (Slot κ ν)} :
    a ∈ pathAddrs (f :: p) ↔ a = f.payload.addr ∨ a ∈ addrs f.sibling ∨ a ∈ pathAddrs p := by
  cases f <;>
    simp only [pathAddrs, Path.before, Path.after, addrs, Frame.payload, Frame.sibling,
      List.map_append, List.map_cons, List.mem_append, List.mem_cons, List.map_nil,
      List.not_mem_nil] <;> tauto

lemma perm_pathAddrs_cons (f : Frame (Slot κ ν)) (q : Path (Slot κ ν)) :
    (pathAddrs (f :: q)).Perm (f.payload.addr :: (addrs f.sibling ++ pathAddrs q)) := by
  cases f with
  | left c s r =>
    simp only [pathAddrs, Path.before, Path.after, addrs, Frame.payload, Frame.sibling,
      List.map_append, List.map_cons, List.cons_append]
    refine List.perm_middle.trans (List.Perm.cons _ ?_)
    exact List.perm_append_comm_assoc _ _ _
  | right l c s =>
    simp only [pathAddrs, Path.before, Path.after, addrs, Frame.payload, Frame.sibling,
      List.map_append, List.map_cons, List.append_assoc, List.cons_append, List.nil_append]
    rw [← List.append_assoc]
    refine List.perm_middle.trans (List.Perm.cons _ ?_)
    rw [List.append_assoc]
    exact List.perm_append_comm_assoc _ _ _

lemma nodup_pathAddrs_cons {f : Frame (Slot κ ν)} {q : Path (Slot κ ν)} :
    (pathAddrs (f :: q)).Nodup ↔
      f.payload.addr ∉ addrs f.sibling ∧ f.payload.addr ∉ pathAddrs q ∧
        (addrs f.sibling ++ pathAddrs q).Nodup := by
  rw [(perm_pathAddrs_cons f q).nodup_iff, List.nodup_cons, List.mem_append]
  tauto

lemma mem_addrs_plug {z : Ptr} {p : Path (Slot κ ν)} {T : CTree (Slot κ ν)} :
    z ∈ addrs (p.plug T) ↔ z ∈ pathAddrs p ∨ z ∈ addrs T := by
  simp only [addrs_plug, pathAddrs, List.map_append, List.mem_append]
  tauto

lemma perm_addrs_plug (p : Path (Slot κ ν)) (T : CTree (Slot κ ν)) :
    (addrs (p.plug T)).Perm (pathAddrs p ++ addrs T) := by
  rw [addrs_plug, pathAddrs, List.map_append, List.append_assoc, List.append_assoc]
  exact List.Perm.append_left _ List.perm_append_comm

lemma nodup_addrs_plug {p : Path (Slot κ ν)} {T : CTree (Slot κ ν)} :
    (addrs (p.plug T)).Nodup ↔ (pathAddrs p ++ addrs T).Nodup :=
  (perm_addrs_plug p T).nodup_iff

/-- The parent of the hole is the sentinel at the top, and a node of the context below it. -/
lemma parentPtr_eq_or_mem (nil : Ptr) (p : Path (Slot κ ν)) :
    parentPtr nil p = nil ∨ parentPtr nil p ∈ pathAddrs p := by
  cases p with
  | nil => exact .inl rfl
  | cons f p => exact .inr (mem_pathAddrs_cons.2 (.inl rfl))

/-- The root pointer of a non-leaf lies among the tree's addresses. -/
lemma ptrOf_mem_addrs {nil : Ptr} {T : CTree (Slot κ ν)} (h : ptrOf nil T ≠ nil) :
    ptrOf nil T ∈ addrs T := by
  cases T with
  | nil => exact absurd rfl h
  | node l c s r => simp

lemma ptrOf_frame_plug (nil : Ptr) (f : Frame (Slot κ ν)) (T : CTree (Slot κ ν)) :
    ptrOf nil (f.plug T) = f.payload.addr := by
  cases f <;> rfl

/-- The root pointer of a tree whose hole in context `p` holds a subtree with root pointer
`hole`. -/
def topPtr (nil : Ptr) : Path (Slot κ ν) → Ptr → Ptr
  | [], hole => hole
  | f :: p, _ => topPtr nil p f.payload.addr

lemma ptrOf_plug (nil : Ptr) (p : Path (Slot κ ν)) (T : CTree (Slot κ ν)) :
    ptrOf nil (p.plug T) = topPtr nil p (ptrOf nil T) := by
  induction p generalizing T with
  | nil => rfl
  | cons f p ih => rw [Path.plug_cons, ih, ptrOf_frame_plug]; rfl

/-- `Realises h nil p T`: the heap stores `T`, whose root has parent pointer `p`. -/
def Realises (h : Ptr → RbNode κ ν) (nil : Ptr) : Ptr → CTree (Slot κ ν) → Prop
  | _, .nil => True
  | p, .node l c s r =>
    h s.addr = ⟨s.key, s.value, c, ptrOf nil l, ptrOf nil r, p⟩ ∧
      Realises h nil s.addr l ∧ Realises h nil s.addr r

/-- The node a frame's parent is stored as, around a hole with root pointer `hole`. -/
def frameNode (nil : Ptr) (f : Frame (Slot κ ν)) (hole parent : Ptr) : RbNode κ ν :=
  match f with
  | .left c s r => ⟨s.key, s.value, c, hole, ptrOf nil r, parent⟩
  | .right l c s => ⟨s.key, s.value, c, ptrOf nil l, hole, parent⟩

@[simp] lemma parent_frameNode (nil : Ptr) (f : Frame (Slot κ ν)) (hole parent : Ptr) :
    (frameNode nil f hole parent).parent = parent := by
  cases f <;> rfl

@[simp] lemma colour_frameNode (nil : Ptr) (f : Frame (Slot κ ν)) (hole parent : Ptr) :
    (frameNode nil f hole parent).colour = f.colour := by
  cases f <;> rfl

/-- `RealisesPath h nil p hole`: the heap stores the context `p` around a hole whose root
pointer is `hole`; the topmost frame's parent pointer is `nil`. -/
def RealisesPath (h : Ptr → RbNode κ ν) (nil : Ptr) : Path (Slot κ ν) → Ptr → Prop
  | [], _ => True
  | f :: p, hole =>
    h f.payload.addr = frameNode nil f hole (parentPtr nil p) ∧
      Realises h nil f.payload.addr f.sibling ∧ RealisesPath h nil p f.payload.addr

@[simp] lemma realises_nil (h : Ptr → RbNode κ ν) (nil p : Ptr) : Realises h nil p .nil :=
  trivial

lemma realises_node (h : Ptr → RbNode κ ν) (nil p : Ptr) (l r : CTree (Slot κ ν))
    (c : Colour) (s : Slot κ ν) : Realises h nil p (.node l c s r) ↔
      h s.addr = ⟨s.key, s.value, c, ptrOf nil l, ptrOf nil r, p⟩ ∧
        Realises h nil s.addr l ∧ Realises h nil s.addr r := Iff.rfl

attribute [local simp] RealisesPath topPtr in
/-- The relation for a subtree in context splits into the context and the subtree. -/
theorem realises_plug (h : Ptr → RbNode κ ν) (nil : Ptr) (p : Path (Slot κ ν))
    (T : CTree (Slot κ ν)) :
    Realises h nil nil (p.plug T) ↔
      RealisesPath h nil p (ptrOf nil T) ∧ Realises h nil (parentPtr nil p) T := by
  induction p generalizing T with
  | nil => simp [RealisesPath]
  | cons f p ih =>
    rw [Path.plug_cons, ih]
    cases f with
    | left c s r =>
      simp only [Frame.plug_left, ptrOf_node, realises_node, RealisesPath, parentPtr_left,
        Frame.payload_left, Frame.sibling_left, frameNode]
      tauto
    | right l c s =>
      simp only [Frame.plug_right, ptrOf_node, realises_node, RealisesPath, parentPtr_right,
        Frame.payload_right, Frame.sibling_right, frameNode]
      tauto

/-- Frame rule: `Realises` only reads the heap at the tree's own addresses. -/
theorem realises_congr {h h' : Ptr → RbNode κ ν} {nil p : Ptr} {T : CTree (Slot κ ν)}
    (agree : ∀ a ∈ addrs T, h' a = h a) : Realises h' nil p T ↔ Realises h nil p T := by
  induction T generalizing p with
  | nil => simp
  | node l c s r ihl ihr =>
    simp only [realises_node]
    rw [agree s.addr (by simp),
      ihl fun a ha => agree a (by simp [ha]), ihr fun a ha => agree a (by simp [ha])]

/-- Frame rule for contexts. -/
theorem realisesPath_congr {h h' : Ptr → RbNode κ ν} {nil hole : Ptr} {p : Path (Slot κ ν)}
    (agree : ∀ a ∈ pathAddrs p, h' a = h a) :
    RealisesPath h' nil p hole ↔ RealisesPath h nil p hole := by
  induction p generalizing hole with
  | nil => simp [RealisesPath]
  | cons f p ih =>
    have hs : h' f.payload.addr = h f.payload.addr := agree _ (mem_pathAddrs_cons.2 (.inl rfl))
    have hsib : ∀ a ∈ addrs f.sibling, h' a = h a := fun a ha =>
      agree a (mem_pathAddrs_cons.2 (.inr (.inl ha)))
    have hp : ∀ a ∈ pathAddrs p, h' a = h a := fun a ha =>
      agree a (mem_pathAddrs_cons.2 (.inr (.inr ha)))
    simp only [RealisesPath]
    rw [hs, realises_congr hsib, ih hp]

/-- The heap determines the tree hanging from a pointer: two trees realised at the same root
pointer, neither holding the sentinel, are equal. -/
theorem realises_unique {h : Ptr → RbNode κ ν} {nil p p' : Ptr} {T T' : CTree (Slot κ ν)}
    (hT : Realises h nil p T) (hT' : Realises h nil p' T') (hptr : ptrOf nil T = ptrOf nil T')
    (hv : ∀ a ∈ addrs T, a ≠ nil) (hv' : ∀ a ∈ addrs T', a ≠ nil) : T = T' := by
  -- induction on `T`, the other tree split alongside it
  induction T generalizing T' p p' with
  | nil =>
    cases T' with
    | nil => rfl
    | node l' c' s' r' => exact absurd hptr.symm (hv' _ (by simp))
  | node l c s r ihl ihr =>
    cases T' with
    | nil => exact absurd hptr (hv _ (by simp))
    | node l' c' s' r' =>
      obtain ⟨hs, hl, hr⟩ := hT
      obtain ⟨hs', hl', hr'⟩ := hT'
      rw [ptrOf_node, ptrOf_node] at hptr
      rw [← hptr, hs, RbNode.mk.injEq] at hs'
      obtain ⟨hk, hval, rfl, hpl, hpr, -⟩ := hs'
      obtain rfl : s = s' := by
        cases s
        cases s'
        simp_all
      rw [ihl hl hl' hpl (fun a ha => hv a (by simp [ha])) (fun a ha => hv' a (by simp [ha])),
        ihr hr hr' hpr (fun a ha => hv a (by simp [ha])) (fun a ha => hv' a (by simp [ha]))]

/-- The parent pointer of a realised root is the one `Realises` names. -/
lemma Realises.parent_eq {h : Ptr → RbNode κ ν} {nil p : Ptr} {l r : CTree (Slot κ ν)}
    {c : Colour} {s : Slot κ ν} (hT : Realises h nil p (.node l c s r)) :
    (h s.addr).parent = p := by
  rw [hT.1]

/-- Re-pointing the parent field of a subtree's root re-hangs the whole subtree. -/
lemma realises_rehang {h h' : Ptr → RbNode κ ν} {nil p q : Ptr} {T : CTree (Slot κ ν)}
    (hT : Realises h nil p T) (hnd : (addrs T).Nodup)
    (hroot : ∀ z ∈ addrs T, z = ptrOf nil T → h' z = { h z with parent := q })
    (hagree : ∀ z ∈ addrs T, z ≠ ptrOf nil T → h' z = h z) : Realises h' nil q T := by
  cases T with
  | nil => trivial
  | node l c s r =>
    obtain ⟨hs, hl, hr⟩ := hT
    simp only [addrs_node, List.nodup_append, List.nodup_cons, List.mem_cons] at hnd
    have hsl : s.addr ∉ addrs l := fun hm => hnd.2.2 _ hm _ (.inl rfl) rfl
    have hsr : s.addr ∉ addrs r := hnd.2.1.1
    refine ⟨?_, (realises_congr fun z hz => ?_).2 hl, (realises_congr fun z hz => ?_).2 hr⟩
    · rw [hroot s.addr (by simp) rfl, hs]
    · exact hagree z (by simp [hz]) fun e => hsl (by simpa [e] using hz)
    · exact hagree z (by simp [hz]) fun e => hsr (by simpa [e] using hz)

/-- The node of a frame's parent with its pointer to the hole re-aimed at `new`. -/
def relinkHole (n : RbNode κ ν) (f : Frame (Slot κ ν)) (new : Ptr) : RbNode κ ν :=
  match f with
  | .left .. => { n with left := new }
  | .right .. => { n with right := new }

/-- Re-aiming the parent's child pointer hangs a new subtree in the same hole. -/
lemma realisesPath_relink {h h' : Ptr → RbNode κ ν} {nil old new : Ptr} {f : Frame (Slot κ ν)}
    {q : Path (Slot κ ν)} (hp : RealisesPath h nil (f :: q) old)
    (hnd : (pathAddrs (f :: q)).Nodup)
    (hP : h' f.payload.addr = relinkHole (h f.payload.addr) f new)
    (hagree : ∀ z ∈ pathAddrs (f :: q), z ≠ f.payload.addr → h' z = h z) :
    RealisesPath h' nil (f :: q) new := by
  obtain ⟨hfs, hfq, -⟩ := nodup_pathAddrs_cons.1 hnd
  have hsib : ∀ z ∈ addrs f.sibling, h' z = h z := fun z hz => hagree z
    (mem_pathAddrs_cons.2 (.inr (.inl hz))) fun e => hfs (e ▸ hz)
  have hq : ∀ z ∈ pathAddrs q, h' z = h z := fun z hz => hagree z
    (mem_pathAddrs_cons.2 (.inr (.inr hz))) fun e => hfq (e ▸ hz)
  obtain ⟨hs, hsib', hqp⟩ := hp
  refine ⟨?_, (realises_congr hsib).2 hsib', (realisesPath_congr hq).2 hqp⟩
  rw [hP, hs]
  cases f <;> rfl

/-! ## Representation -/

/-- `t` represents the abstract tree `T`. -/
structure Represents (t : RbTree κ ν) (T : CTree (Slot κ ν)) : Prop where
  realises : Realises t.heap t.nil t.nil T
  root : t.root = ptrOf t.nil T
  nodup : (addrs T).Nodup
  addr_valid : ∀ a ∈ addrs T, a ≠ t.nil ∧ a ≠ 0 ∧ a < t.next
  nil_ne_null : t.nil ≠ 0
  nil_lt : t.nil < t.next
  nil_black : (t.heap t.nil).colour = .black

namespace Represents

variable {t : RbTree κ ν} {p : Path (Slot κ ν)}

/-- The focus node is stored as the tree says. -/
lemma heap_focus {l r : CTree (Slot κ ν)} {c : Colour} {s : Slot κ ν}
    (h : Represents t (p.plug (.node l c s r))) :
    t.heap s.addr = ⟨s.key, s.value, c, ptrOf t.nil l, ptrOf t.nil r, parentPtr t.nil p⟩ :=
  ((realises_plug _ _ p _).1 h.realises).2.1

/-- A heap represents at most one tree. -/
theorem unique {T T' : CTree (Slot κ ν)} (h : Represents t T)
    (h' : Represents t T') : T = T' :=
  realises_unique h.realises h'.realises (h.root.symm.trans h'.root)
    (fun a ha => (h.addr_valid a ha).1) (fun a ha => (h'.addr_valid a ha).1)

/-- The nodes of a tree are not the sentinel. -/
lemma addr_ne_nil {l r : CTree (Slot κ ν)} {c : Colour} {s : Slot κ ν}
    (h : Represents t (p.plug (.node l c s r))) : s.addr ≠ t.nil :=
  (h.addr_valid s.addr (mem_addrs_plug.2 (.inr (by simp)))).1

/-- The colour stored at a subtree's root pointer is the subtree's colour; the sentinel is
black, as a leaf is. -/
lemma colour_ptrOf {T : CTree (Slot κ ν)} (h : Represents t (p.plug T)) :
    (t.heap (ptrOf t.nil T)).colour = T.colour := by
  cases T with
  | nil => exact h.nil_black
  | node l c s r => rw [ptrOf_node, h.heap_focus]; rfl

/-- A frame of the context is stored as its parent node around the hole. -/
lemma heap_frame {f : Frame (Slot κ ν)} {T : CTree (Slot κ ν)}
    (h : Represents t (Path.plug (f :: p) T)) :
    t.heap f.payload.addr = frameNode t.nil f (ptrOf t.nil T) (parentPtr t.nil p) :=
  ((realises_plug _ _ _ _).1 h.realises).1.1

lemma heap_frame_left {c : Colour} {x : Slot κ ν} {r T : CTree (Slot κ ν)}
    (h : Represents t (Path.plug (.left c x r :: p) T)) :
    t.heap x.addr = ⟨x.key, x.value, c, ptrOf t.nil T, ptrOf t.nil r, parentPtr t.nil p⟩ :=
  h.heap_frame

lemma heap_frame_right {c : Colour} {x : Slot κ ν} {l T : CTree (Slot κ ν)}
    (h : Represents t (Path.plug (.right l c x :: p) T)) :
    t.heap x.addr = ⟨x.key, x.value, c, ptrOf t.nil l, ptrOf t.nil T, parentPtr t.nil p⟩ :=
  h.heap_frame

/-- No root pointer of a subtree is `NULL`: a leaf is the sentinel. -/
lemma ptrOf_ne_zero {T : CTree (Slot κ ν)} (h : Represents t (p.plug T)) :
    ptrOf t.nil T ≠ 0 := by
  cases T with
  | nil => exact h.nil_ne_null
  | node l c s r => exact (h.addr_valid s.addr (mem_addrs_plug.2 (.inr (by simp)))).2.1

/-- The nodes of a tree, and `NULL`, have distinct addresses below the allocation counter, so a
tree has fewer nodes than `t.next`: enough fuel for any walk down it. -/
lemma length_addrs_lt {T : CTree (Slot κ ν)} (h : Represents t T) : (addrs T).length < t.next := by
  have hnd : (0 :: addrs T).Nodup :=
    List.nodup_cons.2 ⟨fun h0 => (h.addr_valid 0 h0).2.1 rfl, h.nodup⟩
  have hsub : (0 :: addrs T) ⊆ List.range t.next := by
    intro z hz
    rcases List.mem_cons.1 hz with rfl | hz
    · exact List.mem_range.2 (Nat.zero_lt_of_lt h.nil_lt)
    · exact List.mem_range.2 (h.addr_valid z hz).2.2
  have := (hnd.subperm hsub).length_le
  simp only [List.length_cons, List.length_range] at this
  omega

/-- Every frame of a context has its own allocated address, so a context is shorter than the
allocation counter: `t.next` is enough fuel for any walk up the tree. -/
lemma length_lt_next {T : CTree (Slot κ ν)} (h : Represents t (p.plug T)) : p.length < t.next := by
  have hlen : p.length ≤ (pathAddrs p).length := by
    clear h
    induction p with
    | nil => simp
    | cons f q ih =>
      rw [(perm_pathAddrs_cons f q).length_eq, List.length_cons, List.length_cons,
        List.length_append]
      omega
  have := h.length_addrs_lt
  rw [(perm_addrs_plug p T).length_eq, List.length_append] at this
  omega

end Represents

/-! ## Mirror images -/

/-- A node with its children swapped. -/
def mirrorNode (n : RbNode κ ν) : RbNode κ ν := { n with left := n.right, right := n.left }

/-- The heap with every node's children swapped. It represents the mirror image of the tree
(`Represents.mirror`), and `right_rot` is `left_rot` seen in this mirror. -/
def mirror (t : RbTree κ ν) : RbTree κ ν := { t with heap := fun z => mirrorNode (t.heap z) }

section Mirror

variable (t : RbTree κ ν) (a p : Ptr) (c : Colour)

@[simp] lemma heap_mirror (z : Ptr) : t.mirror.heap z = mirrorNode (t.heap z) := rfl
@[simp] lemma nil_mirror : t.mirror.nil = t.nil := rfl
@[simp] lemma root_mirror : t.mirror.root = t.root := rfl
@[simp] lemma next_mirror : t.mirror.next = t.next := rfl
@[simp] lemma mirror_mirror : t.mirror.mirror = t := rfl
@[simp] lemma left_mirrorNode (n : RbNode κ ν) : (mirrorNode n).left = n.right := rfl
@[simp] lemma right_mirrorNode (n : RbNode κ ν) : (mirrorNode n).right = n.left := rfl
@[simp] lemma parent_mirrorNode (n : RbNode κ ν) : (mirrorNode n).parent = n.parent := rfl
@[simp] lemma colour_mirrorNode (n : RbNode κ ν) : (mirrorNode n).colour = n.colour := rfl
@[simp] lemma mirrorNode_mirrorNode (n : RbNode κ ν) : mirrorNode (mirrorNode n) = n := rfl

/-- A write commutes with the mirror when the field it writes is mirrored. -/
lemma write_mirror (f g : RbNode κ ν → RbNode κ ν) (hfg : ∀ n, f (mirrorNode n) = mirrorNode (g n)) :
    t.mirror.write a f = (t.write a g).mirror := by
  simp only [write, mirror]
  congr 1
  funext z
  by_cases hz : z = a
  · subst hz
    simp [hfg]
  · simp [Function.update_of_ne hz]

lemma setLeft_mirror : t.mirror.setLeft a p = (t.setRight a p).mirror :=
  write_mirror t a _ _ fun _ => rfl
lemma setRight_mirror : t.mirror.setRight a p = (t.setLeft a p).mirror :=
  write_mirror t a _ _ fun _ => rfl
lemma setParent_mirror : t.mirror.setParent a p = (t.setParent a p).mirror :=
  write_mirror t a _ _ fun _ => rfl
lemma setColour_mirror : t.mirror.setColour a c = (t.setColour a c).mirror :=
  write_mirror t a _ _ fun _ => rfl
lemma setRoot_mirror : t.mirror.setRoot a = (t.setRoot a).mirror := rfl

lemma ite_mirror (P : Prop) [Decidable P] (u v : RbTree κ ν) :
    (if P then u.mirror else v.mirror) = (if P then u else v).mirror := by
  split <;> rfl

end Mirror

@[simp] lemma ptrOf_mirror (nil : Ptr) (T : CTree (Slot κ ν)) : ptrOf nil T.mirror = ptrOf nil T := by
  cases T <;> rfl

lemma addrs_mirror (T : CTree (Slot κ ν)) : addrs T.mirror = (addrs T).reverse := by
  simp [addrs]

lemma mirrorNode_eq_mk {n : RbNode κ ν} {k : κ} {v : ν} {c : Colour} {l r p : Ptr} :
    mirrorNode n = ⟨k, v, c, l, r, p⟩ ↔ n = ⟨k, v, c, r, l, p⟩ := by
  cases n
  simp only [mirrorNode, RbNode.mk.injEq]
  tauto

/-- The mirrored heap realises the mirrored tree. -/
theorem realises_mirror {h : Ptr → RbNode κ ν} {nil p : Ptr} {T : CTree (Slot κ ν)} :
    Realises (fun z => mirrorNode (h z)) nil p T.mirror ↔ Realises h nil p T := by
  induction T generalizing p with
  | nil => simp
  | node l c s r ihl ihr =>
    simp only [CTree.mirror_node, realises_node, mirrorNode_eq_mk, ptrOf_mirror, ihl, ihr]
    constructor <;> rintro ⟨hs, h1, h2⟩ <;> exact ⟨hs, h2, h1⟩

theorem Represents.mirror {t : RbTree κ ν} {T : CTree (Slot κ ν)} (h : Represents t T) :
    Represents t.mirror T.mirror where
  realises := realises_mirror.2 h.realises
  root := by rw [root_mirror, nil_mirror, ptrOf_mirror, h.root]
  nodup := by
    rw [addrs_mirror]
    exact List.nodup_reverse.2 h.nodup
  addr_valid := fun a ha => h.addr_valid a (by simpa [addrs_mirror] using ha)
  nil_ne_null := h.nil_ne_null
  nil_lt := h.nil_lt
  nil_black := h.nil_black

@[simp] theorem represents_mirror_iff {t : RbTree κ ν} {T : CTree (Slot κ ν)} :
    Represents t.mirror T.mirror ↔ Represents t T :=
  ⟨fun h => by simpa using h.mirror, Represents.mirror⟩

end RbTree

end Isulad
