import Isulad.Framework.ColouredTree

/-!
# `map/rb_tree.c`: the red-black tree as the code builds it

This module is a statement-by-statement translation of `src/src/map/rb_tree.c`. A tree is its
`rb_tree_t` header together with the heap its pointers reach: `heap : Ptr → RbNode κ ν` is
memory, `0` is `NULL`, and `next` is the address `util_common_calloc_s` hands out next. Every
field read goes through the current heap, so the order of reads and writes is the code's.

Three things are not modelled. `kvfreer` only frees memory, and freed nodes are never reached
again, so it has no observable effect here. The `NULL` checks on the tree, the key and the
value are dropped: a key of type `κ` or a value of type `ν` is never `NULL`. Allocation does
not fail.

The loops of the code (`rbtree_recursive_search`, `insert_node`'s descent, `rbtree_minimum`,
the two fix-up loops and `number_of_nodes`) run on fuel. Every operation gives them
`t.next`, one step per address ever allocated; on every tree the operations can reach this
is more than any of the loops needs (`Isulad.RbTree.Correctness`), so the fall-back value
returned on exhaustion never shows.
-/

namespace Isulad

open ColouredTree

/-- Heap addresses; `0` is `NULL` and is never allocated. -/
abbrev Ptr := Nat

/-- `rb_node_t`. `key` and `value` stand for what the `void *` fields point to. -/
structure RbNode (κ ν : Type) where
  key : κ
  value : ν
  colour : Colour
  left : Ptr
  right : Ptr
  parent : Ptr

/-- Zeroed memory: `RED` is `0` and every pointer is `NULL`. -/
instance {κ ν : Type} [Inhabited κ] [Inhabited ν] : Inhabited (RbNode κ ν) :=
  ⟨⟨default, default, .red, 0, 0, 0⟩⟩

/-- `rb_tree_t` and the heap its pointers live in. -/
structure RbTree (κ ν : Type) where
  root : Ptr
  nil : Ptr
  heap : Ptr → RbNode κ ν
  next : Ptr

namespace RbTree

variable {κ ν : Type}

/-! ## Field writes -/

/-- Rewrite the node stored at `a`. -/
def write (t : RbTree κ ν) (a : Ptr) (f : RbNode κ ν → RbNode κ ν) : RbTree κ ν :=
  { t with heap := Function.update t.heap a (f (t.heap a)) }

/-- `a->left = p`. -/
def setLeft (t : RbTree κ ν) (a p : Ptr) : RbTree κ ν := t.write a fun n => { n with left := p }

/-- `a->right = p`. -/
def setRight (t : RbTree κ ν) (a p : Ptr) : RbTree κ ν := t.write a fun n => { n with right := p }

/-- `a->parent = p`. -/
def setParent (t : RbTree κ ν) (a p : Ptr) : RbTree κ ν :=
  t.write a fun n => { n with parent := p }

/-- `a->colour = c`. -/
def setColour (t : RbTree κ ν) (a : Ptr) (c : Colour) : RbTree κ ν :=
  t.write a fun n => { n with colour := c }

/-- `a->value = v`. -/
def setValue (t : RbTree κ ν) (a : Ptr) (v : ν) : RbTree κ ν :=
  t.write a fun n => { n with value := v }

/-- `tree->root = a`. -/
def setRoot (t : RbTree κ ν) (a : Ptr) : RbTree κ ν := { t with root := a }

/-! ## Allocation -/

/-- `rbtree_create_node`: a fresh black node at `next`. -/
def rbtreeCreateNode (t : RbTree κ ν) (key : κ) (value : ν) (left right parent : Ptr) :
    RbTree κ ν × Ptr :=
  ({ t with heap := Function.update t.heap t.next ⟨key, value, .black, left, right, parent⟩,
            next := t.next + 1 }, t.next)

/-- `rbtree_new`: an empty tree whose `root` is the `nil` sentinel, a black node with `NULL`
key, value and pointers, allocated first. -/
def rbtreeNew [Inhabited κ] [Inhabited ν] : RbTree κ ν :=
  let t : RbTree κ ν := ⟨0, 0, fun _ => default, 1⟩
  let (t, nil) := rbtreeCreateNode t default default 0 0 0
  { t with nil := nil, root := nil }

/-! ## Rotations -/

/-- `left_rot(tree, node)`. -/
def leftRot (t : RbTree κ ν) (node : Ptr) : RbTree κ ν :=
  let y := (t.heap node).right
  -- turn y's left subtree into node's right subtree
  let t := t.setRight node (t.heap y).left
  let t := if (t.heap y).left ≠ t.nil then t.setParent (t.heap y).left node else t
  -- link node's parent to y
  let t := t.setParent y (t.heap node).parent
  let t := if (t.heap node).parent = t.nil then t.setRoot y
    else if node = (t.heap (t.heap node).parent).left then t.setLeft (t.heap node).parent y
    else t.setRight (t.heap node).parent y
  -- put node on y's left
  let t := t.setLeft y node
  t.setParent node y

/-- `right_rot(tree, node)`. -/
def rightRot (t : RbTree κ ν) (node : Ptr) : RbTree κ ν :=
  let y := (t.heap node).left
  -- turn y's right subtree into node's left subtree
  let t := t.setLeft node (t.heap y).right
  let t := if (t.heap y).right ≠ t.nil then t.setParent (t.heap y).right node else t
  -- link node's parent to y
  let t := t.setParent y (t.heap node).parent
  let t := if (t.heap node).parent = t.nil then t.setRoot y
    else if node = (t.heap (t.heap node).parent).right then t.setRight (t.heap node).parent y
    else t.setLeft (t.heap node).parent y
  -- put node on y's right
  let t := t.setRight y node
  t.setParent node y

variable (cmp : κ → κ → Int)

/-! ## Search -/

/-- `rbtree_recursive_search`, on fuel. -/
def rbtreeRecursiveSearch (t : RbTree κ ν) (key : κ) : Nat → Ptr → Ptr
  | 0, node => node
  | fuel + 1, node =>
    if node = t.nil then node
    else if cmp key (t.heap node).key = 0 then node
    else if cmp key (t.heap node).key < 0 then
      rbtreeRecursiveSearch t key fuel (t.heap node).left
    else rbtreeRecursiveSearch t key fuel (t.heap node).right

/-- `rbtree_find`: the node holding `key`, or `nil`. -/
def rbtreeFind (t : RbTree κ ν) (key : κ) : Ptr :=
  rbtreeRecursiveSearch cmp t key t.next t.root

/-- `rbtree_search`: the value stored under `key`; `none` is `NULL`. -/
def rbtreeSearch (t : RbTree κ ν) (key : κ) : Option ν :=
  let find := rbtreeFind cmp t key
  if find = t.nil then none else some (t.heap find).value

/-! ## Insertion -/

/-- How the loop of `rbtree_insert_fixup` was left: its condition failed, or the body took
the early `return` on a `NULL` uncle (which skips the final blackening of the root). -/
inductive FixupExit
  | loopDone
  | returned
  deriving DecidableEq, Repr

/-- One pass of the `while` body of `rbtree_insert_fixup`: the new tree and the new `node`, or
`none` for the `return` on a `NULL` uncle. -/
def insertFixupBody (t : RbTree κ ν) (node : Ptr) : Option (RbTree κ ν × Ptr) :=
  if (t.heap node).parent = (t.heap (t.heap (t.heap node).parent).parent).left then
    -- parent node is grandparent node's left child
    let y := (t.heap (t.heap (t.heap node).parent).parent).right
    if y = 0 then none
    else if (t.heap y).colour = .red then
      let t := t.setColour (t.heap node).parent .black
      let t := t.setColour y .black
      let t := t.setColour (t.heap (t.heap node).parent).parent .red
      some (t, (t.heap (t.heap node).parent).parent)
    else
      -- uncle node colour is black; a right child is first rotated into a left one
      let (t, node) : RbTree κ ν × Ptr :=
        if node = (t.heap (t.heap node).parent).right then
          (leftRot t (t.heap node).parent, (t.heap node).parent)
        else (t, node)
      let t := t.setColour (t.heap node).parent .black
      let t := t.setColour (t.heap (t.heap node).parent).parent .red
      some (rightRot t (t.heap (t.heap node).parent).parent, node)
  else
    -- parent node is grandparent node's right child
    let y := (t.heap (t.heap (t.heap node).parent).parent).left
    if y = 0 then none
    else if (t.heap y).colour = .red then
      let t := t.setColour (t.heap node).parent .black
      let t := t.setColour y .black
      let t := t.setColour (t.heap (t.heap node).parent).parent .red
      some (t, (t.heap (t.heap node).parent).parent)
    else
      let (t, node) : RbTree κ ν × Ptr :=
        if node = (t.heap (t.heap node).parent).left then
          (rightRot t (t.heap node).parent, (t.heap node).parent)
        else (t, node)
      let t := t.setColour (t.heap node).parent .black
      let t := t.setColour (t.heap (t.heap node).parent).parent .red
      some (leftRot t (t.heap (t.heap node).parent).parent, node)

/-- The `while (node->parent->colour == RED)` loop of `rbtree_insert_fixup`, on fuel. -/
def insertFixupLoop : Nat → RbTree κ ν → Ptr → RbTree κ ν × FixupExit
  | 0, t, _ => (t, .loopDone)
  | fuel + 1, t, node =>
    if (t.heap (t.heap node).parent).colour = .red then
      match insertFixupBody t node with
      | none => (t, .returned)
      | some (t', node') => insertFixupLoop fuel t' node'
    else (t, .loopDone)

/-- `rbtree_insert_fixup`. -/
def rbtreeInsertFixup (t : RbTree κ ν) (node : Ptr) : RbTree κ ν :=
  match insertFixupLoop t.next t node with
  | (t, .loopDone) => t.setColour t.root .black
  | (t, .returned) => t

/-- The descent loop of `insert_node`: `previous` trails `index` down to the `nil` leaf where
`key` belongs. Ties go right, as in the code. -/
def insertNodeDescend (t : RbTree κ ν) (key : κ) : Nat → Ptr → Ptr → Ptr
  | 0, previous, _ => previous
  | fuel + 1, previous, index =>
    if index = t.nil then previous
    else if cmp key (t.heap index).key < 0 then
      insertNodeDescend t key fuel index (t.heap index).left
    else insertNodeDescend t key fuel index (t.heap index).right

/-- `insert_node`: hang `node` below the leaf its key leads to, paint it red, repair. -/
def insertNode (t : RbTree κ ν) (node : Ptr) : RbTree κ ν :=
  let previous := insertNodeDescend cmp t (t.heap node).key t.next t.nil t.root
  let t := t.setParent node previous
  let t := if previous = t.nil then t.setRoot node
    else if cmp (t.heap node).key (t.heap previous).key < 0 then t.setLeft previous node
    else t.setRight previous node
  let t := t.setLeft node t.nil
  let t := t.setRight node t.nil
  let t := t.setColour node .red
  rbtreeInsertFixup t node

/-- `rbtree_insert`: refuses a key that is already present. -/
def rbtreeInsert (t : RbTree κ ν) (key : κ) (value : ν) : RbTree κ ν × Bool :=
  if rbtreeFind cmp t key ≠ t.nil then (t, false)
  else
    let (t, node) := rbtreeCreateNode t key value t.nil t.nil t.nil
    (insertNode cmp t node, true)

/-- `rbtree_replace`: overwrite the value of a present key (the stored key stays), else
insert. -/
def rbtreeReplace (t : RbTree κ ν) (key : κ) (value : ν) : RbTree κ ν × Bool :=
  let node := rbtreeFind cmp t key
  if node = t.nil then rbtreeInsert cmp t key value
  else (t.setValue node value, true)

/-! ## Removal -/

/-- The `while (node->left != tree->nil)` loop of `rbtree_minimum`, on fuel. -/
def rbtreeMinimumLoop (t : RbTree κ ν) : Nat → Ptr → Ptr
  | 0, node => node
  | fuel + 1, node =>
    if (t.heap node).left ≠ t.nil then rbtreeMinimumLoop t fuel (t.heap node).left else node

/-- `rbtree_minimum`. -/
def rbtreeMinimum (t : RbTree κ ν) (node : Ptr) : Ptr :=
  if node = t.nil then t.nil else rbtreeMinimumLoop t t.next node

/-- `do_with_left_node_not_null`: one pass of `rbtree_erase_fixup` for a `node` that is its
parent's left child. Returns the tree and the new `*node`. -/
def doWithLeftNodeNotNull (t : RbTree κ ν) (node : Ptr) : RbTree κ ν × Ptr :=
  let sibling := (t.heap (t.heap node).parent).right
  let (t, sibling) : RbTree κ ν × Ptr :=
    if (t.heap sibling).colour = .red then
      let t := t.setColour (t.heap node).parent .red
      let t := t.setColour sibling .black
      let t := leftRot t (t.heap node).parent
      (t, (t.heap (t.heap node).parent).right)
    else (t, sibling)
  if ((t.heap sibling).left = t.nil ∨ (t.heap (t.heap sibling).left).colour = .black) ∧
      ((t.heap sibling).right = t.nil ∨ (t.heap (t.heap sibling).right).colour = .black) then
    let t := t.setColour sibling .red
    (t, (t.heap node).parent)
  else
    let (t, sibling) : RbTree κ ν × Ptr :=
      if (t.heap sibling).right = t.nil ∨ (t.heap (t.heap sibling).right).colour = .black then
        let t := t.setColour sibling .red
        let t := t.setColour (t.heap sibling).left .black
        let t := rightRot t sibling
        (t, (t.heap (t.heap node).parent).right)
      else (t, sibling)
    let t := t.setColour sibling (t.heap (t.heap node).parent).colour
    let t := t.setColour (t.heap node).parent .black
    let t := t.setColour (t.heap sibling).right .black
    let t := leftRot t (t.heap node).parent
    (t, t.root)

/-- `do_with_left_node_null`: the mirror pass, for a `node` that is not its parent's left
child. -/
def doWithLeftNodeNull (t : RbTree κ ν) (node : Ptr) : RbTree κ ν × Ptr :=
  let sibling := (t.heap (t.heap node).parent).left
  let (t, sibling) : RbTree κ ν × Ptr :=
    if (t.heap sibling).colour = .red then
      let t := t.setColour sibling .black
      let t := t.setColour (t.heap node).parent .red
      let t := rightRot t (t.heap node).parent
      (t, (t.heap (t.heap node).parent).left)
    else (t, sibling)
  if ((t.heap sibling).right = t.nil ∨ (t.heap (t.heap sibling).right).colour = .black) ∧
      ((t.heap sibling).left = t.nil ∨ (t.heap (t.heap sibling).left).colour = .black) then
    let t := t.setColour sibling .red
    (t, (t.heap node).parent)
  else
    let (t, sibling) : RbTree κ ν × Ptr :=
      if (t.heap sibling).left = t.nil ∨ (t.heap (t.heap sibling).left).colour = .black then
        let t := t.setColour sibling .red
        let t := t.setColour (t.heap sibling).right .black
        let t := leftRot t sibling
        (t, (t.heap (t.heap node).parent).left)
      else (t, sibling)
    let t := t.setColour sibling (t.heap (t.heap node).parent).colour
    let t := t.setColour (t.heap node).parent .black
    let t := t.setColour (t.heap sibling).left .black
    let t := rightRot t (t.heap node).parent
    (t, t.root)

/-- The `while` loop of `rbtree_erase_fixup`, on fuel. -/
def eraseFixupLoop : Nat → RbTree κ ν → Ptr → RbTree κ ν × Ptr
  | 0, t, node => (t, node)
  | fuel + 1, t, node =>
    if (node = t.nil ∨ (t.heap node).colour = .black) ∧ node ≠ t.root then
      let (t', node') := if node = (t.heap (t.heap node).parent).left
        then doWithLeftNodeNotNull t node else doWithLeftNodeNull t node
      eraseFixupLoop fuel t' node'
    else (t, node)

/-- `rbtree_erase_fixup`. -/
def rbtreeEraseFixup (t : RbTree κ ν) (node : Ptr) : RbTree κ ν :=
  let (t, node) := eraseFixupLoop t.next t node
  if node ≠ 0 then t.setColour node .black else t

/-- `rbtree_transplant(tree, u, v)`: put `v` where `u` hangs. `v` may be `nil`, whose parent
field is then written: `rbtree_erase_fixup` reads it back. -/
def rbtreeTransplant (t : RbTree κ ν) (u v : Ptr) : RbTree κ ν :=
  let t := if (t.heap u).parent = t.nil then t.setRoot v
    else if u = (t.heap (t.heap u).parent).left then t.setLeft (t.heap u).parent v
    else t.setRight (t.heap u).parent v
  t.setParent v (t.heap u).parent

/-- `rbtree_erase`: unlink `node`; with two children its in-order successor `y` takes its place
and colour, and the fix-up starts from `y`'s old right child `x`. -/
def rbtreeErase (t : RbTree κ ν) (node : Ptr) : RbTree κ ν :=
  if (t.heap node).left = t.nil then
    let x := (t.heap node).right
    let yOriginalColour := (t.heap node).colour
    let t := rbtreeTransplant t node (t.heap node).right
    if yOriginalColour = .black then rbtreeEraseFixup t x else t
  else if (t.heap node).right = t.nil then
    let x := (t.heap node).left
    let yOriginalColour := (t.heap node).colour
    let t := rbtreeTransplant t node (t.heap node).left
    if yOriginalColour = .black then rbtreeEraseFixup t x else t
  else
    let y := rbtreeMinimum t (t.heap node).right
    let yOriginalColour := (t.heap y).colour
    let x := (t.heap y).right
    let t := if (t.heap y).parent = node then t.setParent x y
      else
        let t := rbtreeTransplant t y (t.heap y).right
        let t := t.setRight y (t.heap node).right
        t.setParent (t.heap y).right y
    let t := rbtreeTransplant t node y
    let t := t.setLeft y (t.heap node).left
    let t := t.setParent (t.heap y).left y
    let t := t.setColour y (t.heap node).colour
    if yOriginalColour = .black then rbtreeEraseFixup t x else t

/-- `rbtree_remove`: fails on an absent key. -/
def rbtreeRemove (t : RbTree κ ν) (key : κ) : RbTree κ ν × Bool :=
  let node := rbtreeFind cmp t key
  if node = t.nil then (t, false) else (rbtreeErase t node, true)

/-! ## Size -/

/-- `number_of_nodes`, on fuel. -/
def numberOfNodes (t : RbTree κ ν) : Nat → Ptr → Nat
  | 0, _ => 0
  | fuel + 1, node =>
    if node = t.nil then 0
    else 1 + numberOfNodes t fuel (t.heap node).left + numberOfNodes t fuel (t.heap node).right

/-- `rbtree_size`. -/
def rbtreeSize (t : RbTree κ ν) : Nat := numberOfNodes t t.next t.root

end RbTree

end Isulad
