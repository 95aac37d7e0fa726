import Mathlib.Data.List.Basic

/-!
# Coloured binary trees, their zippers, and the red-black shape

A small library for reasoning about red-black trees that are manipulated in place, one
rotation or recolouring at a time, rather than rebuilt by a functional `balance`.

* `CTree α` is a binary tree whose nodes carry a `Colour` and a payload of type `α`; `nil` is
  the leaf and counts as black.
* A `Path α` is a list of `Frame`s, innermost first: the context of a subtree, i.e. everything
  an in-place algorithm reaches through parent pointers. `plug p t` puts `t` back.
* `Balanced t c n` is the red-black shape: `t` has root colour `c`, no red node has a red
  child, and every root-to-leaf path crosses `n` black nodes. `balanced_iff` relates it to the
  literal formulation through `RedRedFree` and `blackCounts`.
* `Path.Fits p c n` is the condition on a context under which a balanced subtree of colour `c`
  and black height `n` may be plugged in: `balanced_plug` and `fits_of_balanced_plug` are the
  two directions. Algorithms that repair the shape bottom-up keep an invariant of the form
  "the focus is balanced and the context fits it, up to one named defect".
-/

namespace ColouredTree

universe u

/-- Node colours of a red-black tree. -/
inductive Colour
  | red
  | black
  deriving DecidableEq, Repr, Inhabited

/-- The number of black nodes a node of colour `c` adds to a path. -/
def Colour.weight : Colour → Nat
  | .red => 0
  | .black => 1

@[simp] lemma Colour.weight_red : Colour.red.weight = 0 := rfl
@[simp] lemma Colour.weight_black : Colour.black.weight = 1 := rfl

/-- Binary trees with coloured nodes. -/
inductive CTree (α : Type u)
  | nil
  | node (l : CTree α) (c : Colour) (x : α) (r : CTree α)
  deriving DecidableEq, Repr

namespace CTree

variable {α : Type u}

/-- The colour of the root; a leaf is black. -/
def colour : CTree α → Colour
  | nil => .black
  | node _ c _ _ => c

/-- Repaint the root (a leaf stays a leaf). -/
def setColour : CTree α → Colour → CTree α
  | nil, _ => nil
  | node l _ x r, k => node l k x r

/-- The in-order sequence of payloads. -/
def toList : CTree α → List α
  | nil => []
  | node l _ x r => l.toList ++ x :: r.toList

/-- Longest root-to-leaf path, counted in nodes. -/
def height : CTree α → Nat
  | nil => 0
  | node l _ _ r => max l.height r.height + 1

@[simp] lemma colour_nil : (nil : CTree α).colour = .black := rfl
@[simp] lemma colour_node (l r : CTree α) (c : Colour) (x : α) :
    (node l c x r).colour = c := rfl
@[simp] lemma setColour_nil (k : Colour) : (nil : CTree α).setColour k = nil := rfl
@[simp] lemma setColour_node (l r : CTree α) (c k : Colour) (x : α) :
    (node l c x r).setColour k = node l k x r := rfl
@[simp] lemma toList_nil : (nil : CTree α).toList = [] := rfl
@[simp] lemma toList_node (l r : CTree α) (c : Colour) (x : α) :
    (node l c x r).toList = l.toList ++ x :: r.toList := rfl
@[simp] lemma height_nil : (nil : CTree α).height = 0 := rfl
@[simp] lemma height_node (l r : CTree α) (c : Colour) (x : α) :
    (node l c x r).height = max l.height r.height + 1 := rfl

/-- A red tree is a red node: the empty tree is black. -/
lemma eq_node_of_colour_red {t : CTree α} (h : t.colour = .red) :
    ∃ l x r, t = node l .red x r := by
  cases t with
  | nil => exact absurd h (by simp)
  | node l c x r => exact ⟨l, x, r, by rw [show c = .red from h]⟩

@[simp] lemma toList_setColour (t : CTree α) (k : Colour) :
    (t.setColour k).toList = t.toList := by
  cases t <;> rfl

lemma setColour_of_colour_eq {t : CTree α} {k : Colour} (h : t.colour = k) : t.setColour k = t := by
  cases t with
  | nil => rfl
  | node l c x r =>
    simp only [colour_node] at h
    rw [h, setColour_node]

/-! ## Mirror images -/

/-- Swap left and right children everywhere. Each symmetric pair of cases of a red-black
algorithm is one case and its mirror image. -/
def mirror : CTree α → CTree α
  | nil => nil
  | node l c x r => node r.mirror c x l.mirror

@[simp] lemma mirror_nil : (nil : CTree α).mirror = nil := rfl
@[simp] lemma mirror_node (l r : CTree α) (c : Colour) (x : α) :
    (node l c x r).mirror = node r.mirror c x l.mirror := rfl

@[simp] lemma mirror_mirror (t : CTree α) : t.mirror.mirror = t := by
  induction t with
  | nil => rfl
  | node l c x r ihl ihr => rw [mirror_node, mirror_node, ihl, ihr]

@[simp] lemma colour_mirror (t : CTree α) : t.mirror.colour = t.colour := by
  cases t <;> rfl

@[simp] lemma toList_mirror (t : CTree α) : t.mirror.toList = t.toList.reverse := by
  induction t with
  | nil => rfl
  | node l c x r ihl ihr => simp [ihl, ihr]

@[simp] lemma setColour_mirror (t : CTree α) (c : Colour) :
    (t.setColour c).mirror = t.mirror.setColour c := by
  cases t <;> rfl

/-! ## The red-black shape -/

/-- `Balanced t c n`: `t` has root colour `c`, no red node of `t` has a red child, and every
path from the root of `t` to a leaf crosses exactly `n` black nodes. -/
inductive Balanced : CTree α → Colour → Nat → Prop
  | nil : Balanced nil .black 0
  | red {l r : CTree α} {x : α} {n : Nat} :
      Balanced l .black n → Balanced r .black n → Balanced (node l .red x r) .red n
  | black {l r : CTree α} {x : α} {cl cr : Colour} {n : Nat} :
      Balanced l cl n → Balanced r cr n → Balanced (node l .black x r) .black (n + 1)

/-- No red node has a red child. -/
def RedRedFree : CTree α → Prop
  | nil => True
  | node l c _ r => (c = .red → l.colour = .black ∧ r.colour = .black) ∧
      l.RedRedFree ∧ r.RedRedFree

/-- The number of black nodes on each root-to-leaf path, one entry per path, left to right. -/
def blackCounts : CTree α → List Nat
  | nil => [0]
  | node l c _ r => (l.blackCounts ++ r.blackCounts).map (· + c.weight)

namespace Balanced

variable {t l r : CTree α} {c c' : Colour} {n n' : Nat} {x : α}

lemma colour_eq (h : Balanced t c n) : t.colour = c := by
  cases h <;> rfl

/-- Colour and black height of a balanced tree are determined by the tree. -/
lemma unique (h : Balanced t c n) (h' : Balanced t c' n') : c = c' ∧ n = n' := by
  induction h generalizing c' n' with
  | nil => cases h'; exact ⟨rfl, rfl⟩
  | red _ _ ihl _ => cases h' with
    | red hl' _ => exact ⟨rfl, (ihl hl').2⟩
  | black _ _ ihl _ => cases h' with
    | black hl' _ => exact ⟨rfl, by rw [(ihl hl').2]⟩

lemma node_inv (h : Balanced (node l c x r) c' n) :
    c' = c ∧ ∃ m cl cr, n = m + c.weight ∧ Balanced l cl m ∧ Balanced r cr m ∧
      (c = .red → cl = .black ∧ cr = .black) := by
  cases h with
  | red hl hr => exact ⟨rfl, n, _, _, rfl, hl, hr, fun _ => ⟨rfl, rfl⟩⟩
  | black hl hr => exact ⟨rfl, _, _, _, rfl, hl, hr, fun h => nomatch h⟩

/-- Build a node from balanced children; the colour condition only bites for red. -/
lemma node_of {cl cr : Colour} {m : Nat} (hl : Balanced l cl m) (hr : Balanced r cr m)
    (hc : c = .red → cl = .black ∧ cr = .black) : Balanced (node l c x r) c (m + c.weight) := by
  cases c with
  | red => obtain ⟨rfl, rfl⟩ := hc rfl; exact .red hl hr
  | black => exact .black hl hr

/-- Balance only sees colours and shape, not the payload of a node. -/
lemma node_payload {y : α} (h : Balanced (node l c x r) c' n) : Balanced (node l c y r) c' n := by
  obtain ⟨rfl, m, cl, cr, rfl, hl, hr, hc⟩ := node_inv h
  exact node_of hl hr hc

/-- Blackening a balanced red root raises the black height by one. -/
lemma blacken_red (h : Balanced t .red n) : Balanced (t.setColour .black) .black (n + 1) := by
  cases h with
  | red hl hr => exact .black hl hr

attribute [local simp] blackCounts in
/-- The literal reading of `Balanced`: paths all count `n` black nodes. -/
lemma blackCounts_eq (h : Balanced t c n) : ∀ m ∈ t.blackCounts, m = n := by
  induction h with
  | nil => simp [blackCounts]
  | red _ _ ihl ihr =>
    intro m hm
    simp only [blackCounts, List.map_append, List.mem_append, List.mem_map] at hm
    rcases hm with ⟨k, hk, rfl⟩ | ⟨k, hk, rfl⟩
    · simpa using ihl k hk
    · simpa using ihr k hk
  | black _ _ ihl ihr =>
    intro m hm
    simp only [blackCounts, List.map_append, List.mem_append, List.mem_map] at hm
    rcases hm with ⟨k, hk, rfl⟩ | ⟨k, hk, rfl⟩
    · simp [ihl k hk]
    · simp [ihr k hk]

lemma redRedFree (h : Balanced t c n) : t.RedRedFree := by
  induction h with
  | nil => trivial
  | red hl hr ihl ihr => exact ⟨fun _ => ⟨hl.colour_eq, hr.colour_eq⟩, ihl, ihr⟩
  | black _ _ ihl ihr => exact ⟨(fun h => nomatch h), ihl, ihr⟩

end Balanced

lemma blackCounts_ne_nil (t : CTree α) : t.blackCounts ≠ [] := by
  induction t with
  | nil => simp [blackCounts]
  | node l c x r ihl _ => simp [blackCounts, ihl]

/-- `Balanced` is exactly "no red-red edge and one black count on every path". -/
theorem balanced_iff (t : CTree α) :
    (∃ n, Balanced t t.colour n) ↔ t.RedRedFree ∧ ∃ n, ∀ m ∈ t.blackCounts, m = n := by
  constructor
  · rintro ⟨n, h⟩
    exact ⟨h.redRedFree, n, h.blackCounts_eq⟩
  · induction t with
    | nil => exact fun _ => ⟨0, .nil⟩
    | node l c x r ihl ihr =>
      rintro ⟨⟨hc, hl, hr⟩, n, hn⟩
      have hcounts : ∀ s ∈ l.blackCounts ++ r.blackCounts, s + c.weight = n := fun s hs =>
        hn _ (List.mem_map_of_mem hs)
      obtain ⟨nl, hbl⟩ := ihl ⟨hl, n - c.weight, fun s hs =>
        by have := hcounts s (List.mem_append_left _ hs); omega⟩
      obtain ⟨nr, hbr⟩ := ihr ⟨hr, n - c.weight, fun s hs =>
        by have := hcounts s (List.mem_append_right _ hs); omega⟩
      -- both children's heights are read off one of their (nonempty) path counts
      obtain ⟨sl, hsl⟩ := List.exists_mem_of_ne_nil _ (blackCounts_ne_nil l)
      obtain ⟨sr, hsr⟩ := List.exists_mem_of_ne_nil _ (blackCounts_ne_nil r)
      have el := hbl.blackCounts_eq sl hsl
      have er := hbr.blackCounts_eq sr hsr
      have hl' := hcounts sl (List.mem_append_left _ hsl)
      have hr' := hcounts sr (List.mem_append_right _ hsr)
      have heq : nl = nr := by omega
      subst heq
      refine ⟨nl + c.weight, Balanced.node_of hbl hbr ?_⟩
      exact fun h => hc h

end CTree

/-! ## Zippers -/

/-- One step of a path from a subtree up to its parent: the hole is the parent's left child
(`left c x r`) or its right child (`right l c x`). -/
inductive Frame (α : Type u)
  | left (c : Colour) (x : α) (r : CTree α)
  | right (l : CTree α) (c : Colour) (x : α)
  deriving DecidableEq, Repr

namespace Frame

variable {α : Type u}

/-- The colour of the parent node. -/
def colour : Frame α → Colour
  | left c _ _ => c
  | right _ c _ => c

/-- The parent's payload. -/
def payload : Frame α → α
  | left _ x _ => x
  | right _ _ x => x

/-- The other child of the parent. -/
def sibling : Frame α → CTree α
  | left _ _ r => r
  | right l _ _ => l

/-- Fill the hole. -/
def plug : Frame α → CTree α → CTree α
  | left c x r, t => .node t c x r
  | right l c x, t => .node l c x t

@[simp] lemma colour_left (c : Colour) (x : α) (r : CTree α) : (left c x r).colour = c := rfl
@[simp] lemma colour_right (c : Colour) (x : α) (l : CTree α) : (right l c x).colour = c := rfl
@[simp] lemma payload_left (c : Colour) (x : α) (r : CTree α) : (left c x r).payload = x := rfl
@[simp] lemma payload_right (c : Colour) (x : α) (l : CTree α) : (right l c x).payload = x := rfl
@[simp] lemma sibling_left (c : Colour) (x : α) (r : CTree α) : (left c x r).sibling = r := rfl
@[simp] lemma sibling_right (c : Colour) (x : α) (l : CTree α) :
    (right l c x).sibling = l := rfl
/-- The frame of the mirrored tree: a hole on the left becomes a hole on the right. -/
def mirror : Frame α → Frame α
  | left c x r => right r.mirror c x
  | right l c x => left c x l.mirror

@[simp] lemma plug_left (c : Colour) (x : α) (r t : CTree α) :
    (left c x r).plug t = .node t c x r := rfl
@[simp] lemma plug_right (c : Colour) (x : α) (l t : CTree α) :
    (right l c x).plug t = .node l c x t := rfl

@[simp] lemma mirror_left (c : Colour) (x : α) (r : CTree α) :
    (left c x r).mirror = right r.mirror c x := rfl
@[simp] lemma mirror_right (c : Colour) (x : α) (l : CTree α) :
    (right l c x).mirror = left c x l.mirror := rfl

lemma plug_mirror (f : Frame α) (t : CTree α) : f.mirror.plug t.mirror = (f.plug t).mirror := by
  cases f <;> rfl

@[simp] lemma colour_mirror (f : Frame α) : f.mirror.colour = f.colour := by
  cases f <;> rfl

@[simp] lemma payload_mirror (f : Frame α) : f.mirror.payload = f.payload := by
  cases f <;> rfl

/-- The frame `f` accepts a hole of black height `n`: its sibling is balanced at height `n`,
and black when the parent is red. The hole's own colour is constrained by `Path.Fits`. -/
def Accepts (f : Frame α) (n : Nat) : Prop :=
  ∃ c, CTree.Balanced f.sibling c n ∧ (f.colour = .red → c = .black)

/-- Plugging a balanced subtree into an accepting frame gives a balanced subtree. -/
lemma balanced_plug {f : Frame α} {t : CTree α} {c : Colour} {n : Nat}
    (ht : CTree.Balanced t c n) (hf : f.Accepts n) (hc : f.colour = .red → c = .black) :
    CTree.Balanced (f.plug t) f.colour (n + f.colour.weight) := by
  obtain ⟨cs, hs, hcs⟩ := hf
  cases f with
  | left fc x r => exact CTree.Balanced.node_of ht hs fun h => ⟨hc h, hcs h⟩
  | right l fc x => exact CTree.Balanced.node_of hs ht fun h => ⟨hcs h, hc h⟩

/-- Inversion of `balanced_plug`. -/
lemma balanced_of_plug {f : Frame α} {t : CTree α} {c : Colour} {n : Nat}
    (h : CTree.Balanced (f.plug t) c n) :
    c = f.colour ∧ ∃ ct m, n = m + f.colour.weight ∧ CTree.Balanced t ct m ∧ f.Accepts m ∧
      (f.colour = .red → ct = .black) := by
  cases f with
  | left fc x r =>
    obtain ⟨rfl, m, cl, cr, rfl, hl, hr, hc⟩ := CTree.Balanced.node_inv h
    exact ⟨rfl, cl, m, rfl, hl, ⟨cr, hr, fun h => (hc h).2⟩, fun h => (hc h).1⟩
  | right l fc x =>
    obtain ⟨rfl, m, cl, cr, rfl, hl, hr, hc⟩ := CTree.Balanced.node_inv h
    exact ⟨rfl, cr, m, rfl, hr, ⟨cl, hl, fun h => (hc h).1⟩, fun h => (hc h).2⟩

end Frame

/-- The context of a subtree, innermost frame first. -/
abbrev Path (α : Type u) := List (Frame α)

namespace Path

variable {α : Type u}

/-- Put a subtree back into its context. -/
def plug : Path α → CTree α → CTree α
  | [], t => t
  | f :: p, t => plug p (f.plug t)

/-- The payloads the context places before the hole in in-order. -/
def before : Path α → List α
  | [] => []
  | .left _ _ _ :: p => before p
  | .right l _ x :: p => before p ++ l.toList ++ [x]

/-- The payloads the context places after the hole in in-order. -/
def after : Path α → List α
  | [] => []
  | .left _ x r :: p => x :: r.toList ++ after p
  | .right _ _ _ :: p => after p

@[simp] lemma plug_nil (t : CTree α) : plug [] t = t := rfl
@[simp] lemma plug_cons (f : Frame α) (p : Path α) (t : CTree α) :
    plug (f :: p) t = plug p (f.plug t) := rfl

lemma plug_append (p q : Path α) (t : CTree α) : plug (p ++ q) t = plug q (plug p t) := by
  induction p generalizing t with
  | nil => rfl
  | cons f p ih => exact ih _

attribute [local simp] after before in
@[simp] lemma after_append (p q : Path α) : after (p ++ q) = after p ++ after q := by
  induction p with
  | nil => rfl
  | cons f p ih => cases f <;> simp [after, ih]

theorem toList_plug (p : Path α) (t : CTree α) :
    (plug p t).toList = p.before ++ t.toList ++ p.after := by
  induction p generalizing t with
  | nil => simp [before, after]
  | cons f p ih =>
    cases f <;> simp [ih, before, after]

/-- The context of the mirrored subtree in the mirrored tree. -/
def mirror (p : Path α) : Path α := p.map Frame.mirror

@[simp] lemma mirror_nil : mirror ([] : Path α) = [] := rfl
@[simp] lemma mirror_cons (f : Frame α) (p : Path α) : mirror (f :: p) = f.mirror :: p.mirror :=
  rfl

theorem plug_mirror (p : Path α) (t : CTree α) : p.mirror.plug t.mirror = (p.plug t).mirror := by
  induction p generalizing t with
  | nil => rfl
  | cons f p ih => rw [mirror_cons, plug_cons, Frame.plug_mirror, ih, plug_cons]

/-- The context `p` accepts a subtree of colour `c` and black height `n`: filling it gives a
red-black tree (`balanced_plug`). Nothing is required of the colour at the top. -/
def Fits : Path α → Colour → Nat → Prop
  | [], _, _ => True
  | f :: p, c, n => (f.colour = .red → c = .black) ∧ f.Accepts n ∧
      Fits p f.colour (n + f.colour.weight)

/-- A black subtree fits wherever a subtree of the same height and any colour does. -/
lemma Fits.black_of {p : Path α} {c : Colour} {n : Nat} (h : Fits p c n) : Fits p .black n := by
  cases p with
  | nil => trivial
  | cons f p => exact ⟨fun _ => rfl, h.2.1, h.2.2⟩

theorem balanced_plug {p : Path α} {t : CTree α} {c : Colour} {n : Nat}
    (ht : CTree.Balanced t c n) (hp : Fits p c n) : ∃ c' n', CTree.Balanced (plug p t) c' n' := by
  induction p generalizing t c n with
  | nil => exact ⟨c, n, ht⟩
  | cons f p ih =>
    obtain ⟨hc, hf, hp⟩ := hp
    exact ih (Frame.balanced_plug ht hf hc) hp

theorem fits_of_balanced_plug {p : Path α} {t : CTree α} {c' : Colour} {n' : Nat}
    (h : CTree.Balanced (plug p t) c' n') : ∃ c n, CTree.Balanced t c n ∧ Fits p c n := by
  induction p generalizing t with
  | nil => exact ⟨c', n', h, trivial⟩
  | cons f p ih =>
    obtain ⟨c₁, n₁, h₁, hp⟩ := ih h
    obtain ⟨rfl, ct, m, rfl, ht, hf, hc⟩ := Frame.balanced_of_plug h₁
    exact ⟨ct, m, ht, hc, hf, hp⟩

/-- A context keeps any subtree balanced that is balanced wherever the one it replaces is. -/
theorem balanced_plug_congr {p : Path α} {t t' : CTree α}
    (ht : ∀ c n, CTree.Balanced t c n → CTree.Balanced t' c n) {c : Colour} {n : Nat}
    (h : CTree.Balanced (plug p t) c n) : CTree.Balanced (plug p t') c n := by
  induction p generalizing t t' with
  | nil => exact ht c n h
  | cons f q ih =>
    refine ih (fun c' n' hf => ?_) h
    obtain ⟨rfl, ct, m, rfl, hb, hacc, hc⟩ := Frame.balanced_of_plug hf
    exact Frame.balanced_plug (ht ct m hb) hacc hc

lemma plug_ne_nil (p : Path α) {t : CTree α} (ht : t ≠ .nil) : plug p t ≠ .nil := by
  induction p generalizing t with
  | nil => exact ht
  | cons f q ih => exact ih (by cases f <;> simp)

/-- A tree in a non-empty context has the outermost frame's colour at its root. -/
lemma colour_plug {p : Path α} {f : Frame α} (hf : f ∈ p.getLast?) (t : CTree α) :
    (plug p t).colour = f.colour := by
  induction p generalizing t with
  | nil => simp at hf
  | cons g q ih =>
    rcases q with _ | ⟨g', q⟩
    · simp only [List.getLast?_singleton, Option.mem_def, Option.some.injEq] at hf
      subst hf
      cases g <;> rfl
    · exact ih (by simpa using hf) _

/-- The context of a leaf of a red-black tree takes a black leaf. -/
lemma fits_leaf {p : Path α} {c : Colour} {n : Nat} (h : CTree.Balanced (plug p .nil) c n) :
    Fits p .black 0 := by
  obtain ⟨c', n', hl, hp⟩ := fits_of_balanced_plug h
  cases hl
  exact hp

end Path

end ColouredTree
