import Isulad.Framework.ColouredTree

/-!
# The bottom-up insertion fix-up of a red-black tree

The textbook insertion (Cormen et al., §13.3) hangs a new red node at a leaf and repairs the
one possible defect, a red node with a red parent, by walking up: while the parent is red,
either the uncle is red too, and parent, uncle and grandparent swap colours and the walk
continues at the grandparent, or the uncle is black, and one or two rotations end it. The
root is blackened last.

`insStep p t` is one pass of that loop on a zipper: `t` is the red focus and `p` its context,
and the result is the context and focus the next pass starts from, or `none` when the loop
stops. Its cases are written as the trees they produce, so that each is checked against the
pointer code once. `insFix p t` runs passes until the loop stops.

`InsInv p t` is the loop invariant. `InsInv.insStep` says one pass keeps it, and
`balanced_insFix` is the correctness statement: from a state satisfying it the walk, with the
root blackened, gives a red-black tree. Every pass keeps the in-order sequence
(`toList_insFix`).
-/

namespace ColouredTree

universe u

variable {α : Type u}

open CTree

namespace CTree

/-- Blackening the root of a balanced tree keeps it balanced. -/
lemma Balanced.blacken {t : CTree α} {c : Colour} {n : Nat} (h : Balanced t c n) :
    ∃ n', Balanced (t.setColour .black) .black n' := by
  cases h with
  | nil => exact ⟨0, .nil⟩
  | red hl hr => exact ⟨_, .black hl hr⟩
  | black hl hr => exact ⟨_, .black hl hr⟩

/-- A balanced tree whose root is not red is black. -/
lemma Balanced.black_of_ne_red {u : CTree α} {n : Nat} (h : Balanced u u.colour n)
    (hu : u.colour ≠ .red) : Balanced u .black n := by
  cases hc : u.colour with
  | red => exact absurd hc hu
  | black => exact hc ▸ h

end CTree

/-! ## One pass of the loop -/

/-- One pass of the insertion fix-up from the red focus `t` in context `p`: the context and
focus of the next pass, or `none` when the parent is black or there is no grandparent. -/
def insStep : Path α → CTree α → Option (Path α × CTree α)
  | f :: .left _ gx u :: q, t =>
    if f.colour = .red then
      if u.colour = .red then
        -- red uncle: recolour and continue from the grandparent
        some (q, node ((f.plug t).setColour .black) .red gx (u.setColour .black))
      else
        match f, t with
        -- black uncle, outer grandchild: rotate at the grandparent
        | .left _ px pr, t => some (.left .black px (node pr .red gx u) :: q, t)
        -- inner grandchild: rotate at the parent first, which becomes the focus
        | .right pl pc px, node tl _ tx tr =>
          some (.left .black tx (node tr .red gx u) :: q, node pl pc px tl)
        | _, _ => none
    else none
  | f :: .right u _ gx :: q, t =>
    if f.colour = .red then
      if u.colour = .red then
        some (q, node (u.setColour .black) .red gx ((f.plug t).setColour .black))
      else
        match f, t with
        | .right pl _ px, t => some (.right (node u .red gx pl) .black px :: q, t)
        | .left pc px pr, node tl _ tx tr =>
          some (.right (node u .red gx tl) .black tx :: q, node tr pc px pr)
        | _, _ => none
    else none
  | _, _ => none

/-- The passes of the loop, one constructor for each case of `insStep` that continues. -/
inductive InsPass : Path α → CTree α → Path α → CTree α → Prop
  | recolourL {f : Frame α} {gc : Colour} {gx : α} {u : CTree α} {q : Path α} {t : CTree α} :
      f.colour = .red → u.colour = .red →
      InsPass (f :: .left gc gx u :: q) t
        q (node ((f.plug t).setColour .black) .red gx (u.setColour .black))
  | outerL {px gx : α} {pr u : CTree α} {gc : Colour} {q : Path α} {t : CTree α} :
      u.colour ≠ .red →
      InsPass (.left .red px pr :: .left gc gx u :: q) t
        (.left .black px (node pr .red gx u) :: q) t
  | innerL {px gx tx : α} {pl u tl tr : CTree α} {gc tc : Colour} {q : Path α} :
      u.colour ≠ .red →
      InsPass (.right pl .red px :: .left gc gx u :: q) (node tl tc tx tr)
        (.left .black tx (node tr .red gx u) :: q) (node pl .red px tl)
  | recolourR {f : Frame α} {gc : Colour} {gx : α} {u : CTree α} {q : Path α} {t : CTree α} :
      f.colour = .red → u.colour = .red →
      InsPass (f :: .right u gc gx :: q) t
        q (node (u.setColour .black) .red gx ((f.plug t).setColour .black))
  | outerR {px gx : α} {pl u : CTree α} {gc : Colour} {q : Path α} {t : CTree α} :
      u.colour ≠ .red →
      InsPass (.right pl .red px :: .right u gc gx :: q) t
        (.right (node u .red gx pl) .black px :: q) t
  | innerR {px gx tx : α} {pr u tl tr : CTree α} {gc tc : Colour} {q : Path α} :
      u.colour ≠ .red →
      InsPass (.left .red px pr :: .right u gc gx :: q) (node tl tc tx tr)
        (.right (node u .red gx tl) .black tx :: q) (node tr .red px pr)

variable {p p' : Path α} {t t' : CTree α}

attribute [local simp] insStep in
/-- `insStep` continues exactly by the passes of `InsPass`. -/
theorem insStep_eq_some : insStep p t = some (p', t') ↔ InsPass p t p' t' := by
  constructor
  · intro h
    fun_cases insStep p t
    all_goals simp_all only [insStep, Option.some.injEq, Prod.mk.injEq, reduceCtorEq, if_true,
      if_false, Frame.colour_left, Frame.colour_right]
    all_goals obtain ⟨rfl, rfl⟩ := h
    all_goals constructor <;> assumption
  · intro h
    cases h <;> simp_all [insStep]

/-- Every pass either climbs two levels or ends one level higher up. -/
lemma InsPass.length_lt (h : InsPass p t p' t') : p'.length < p.length := by
  cases h <;> simp only [List.length_cons] <;> omega

/-- A pass rotates and recolours, and so keeps the in-order sequence. -/
lemma InsPass.toList_eq (h : InsPass p t p' t') : (p'.plug t').toList = (p.plug t).toList := by
  cases h with
  | recolourL | recolourR => cases ‹Frame α› <;> simp [Path.toList_plug]
  | _ => simp [Path.toList_plug]

/-- The walk: passes until the loop stops. -/
def insFix (p : Path α) (t : CTree α) : CTree α :=
  match hs : insStep p t with
  | none => p.plug t
  | some (p', t') =>
    have := (insStep_eq_some.1 hs).length_lt
    insFix p' t'
termination_by p.length

lemma insFix_of_none (h : insStep p t = none) : insFix p t = p.plug t := by
  rw [insFix]
  split <;> simp_all

lemma insFix_of_pass (h : InsPass p t p' t') : insFix p t = insFix p' t' := by
  have hs := insStep_eq_some.2 h
  rw [insFix]
  split <;> simp_all

/-- The walk keeps the in-order sequence. -/
theorem toList_insFix (p : Path α) (t : CTree α) : (insFix p t).toList = (p.plug t).toList := by
  induction p, t using insFix.induct with
  | case1 p t hs => rw [insFix_of_none hs]
  | case2 p t p' t' hs _ ih => rw [insFix_of_pass (insStep_eq_some.1 hs), ih,
      (insStep_eq_some.1 hs).toList_eq]

/-! ## The loop invariant -/

/-- The loop condition of the walk: the focus has a parent, and it is red. -/
def ParentRed (p : Path α) : Prop := ∃ f ∈ p.head?, f.colour = .red

/-- The invariant of the walk at the red focus `t` in context `p`: `t` has black children of
black height `n`; the context takes a subtree of black height `n` except that the parent may
be red (`Fits` at colour `black` drops exactly that condition); and the root is black unless
it is the focus. -/
def InsInv (p : Path α) (t : CTree α) : Prop :=
  ∃ l x r n, t = node l .red x r ∧ Balanced l .black n ∧ Balanced r .black n ∧
    p.Fits .black n ∧ ∀ f ∈ p.getLast?, f.colour = .black

/-- A new red leaf in a context that fits a leaf starts the walk, when the root is black. -/
theorem insInv_leaf {p : Path α} (x : α) (hp : p.Fits .black 0)
    (hroot : ∀ f ∈ p.getLast?, f.colour = .black) : InsInv p (node nil .red x nil) :=
  ⟨nil, x, nil, 0, rfl, .nil, .nil, hp, hroot⟩

lemma topBlack_cons {k : Frame α} {q : Path α} (hk : k.colour = .black)
    (hq : ∀ f ∈ q.getLast?, f.colour = .black) : ∀ f ∈ (k :: q).getLast?, f.colour = .black := by
  rcases q with _ | ⟨g, q⟩
  · simpa using hk
  · simpa using hq

/-- What the invariant gives when the parent is red: the grandparent exists and is black,
the parent's other child and the uncle have the focus's black height, and the context above
the grandparent takes a black subtree one higher. -/
lemma InsInv.red_parent {f g : Frame α} {q : Path α} (h : InsInv (f :: g :: q) t)
    (hf : f.colour = .red) :
    ∃ l x r n, t = node l .red x r ∧ Balanced l .black n ∧ Balanced r .black n ∧
      Balanced f.sibling .black n ∧ g.colour = .black ∧
      Balanced g.sibling g.sibling.colour n ∧ q.Fits .black (n + 1) ∧
      ∀ f ∈ q.getLast?, f.colour = .black := by
  obtain ⟨l, x, r, n, rfl, hl, hr, ⟨-, ⟨cs, hs, hcs⟩, hg⟩, hroot⟩ := h
  rw [hf, Colour.weight_red, Nat.add_zero] at hg
  obtain ⟨hgc, ⟨cu, hu, -⟩, hq⟩ := hg
  have hgb : g.colour = .black := by
    cases hgc' : g.colour with
    | red => exact absurd (hgc hgc') (by decide)
    | black => rfl
  rw [hgb, Colour.weight_black] at hq
  refine ⟨l, x, r, n, rfl, hl, hr, hcs hf ▸ hs, hgb, hu.colour_eq ▸ hu, hq, ?_⟩
  intro f' hf'
  apply hroot
  rcases q with _ | ⟨k, q⟩
  · simp at hf'
  · simpa using hf'

/-- The parent blackened over a red focus: one black level more. -/
lemma Frame.balanced_plug_blacken {f : Frame α} {t : CTree α} {c : Colour} {n : Nat}
    (ht : Balanced t c n) (hs : Balanced f.sibling .black n) :
    Balanced ((f.plug t).setColour .black) .black (n + 1) := by
  cases f with
  | left _ _ r => exact .black ht hs
  | right l _ _ => exact .black hs ht

/-- Each pass keeps the invariant. -/
theorem InsInv.pass (h : InsInv p t) (hp : InsPass p t p' t') : InsInv p' t' := by
  cases hp with
  | recolourL hf hu =>
    obtain ⟨l, x, r, n, rfl, hl, hr, hs, -, hu', hq, hroot⟩ := h.red_parent hf
    rw [Frame.sibling_left, hu] at hu'
    exact ⟨_, _, _, n + 1, rfl, Frame.balanced_plug_blacken (.red hl hr) hs, hu'.blacken_red,
      hq, hroot⟩
  | recolourR hf hu =>
    obtain ⟨l, x, r, n, rfl, hl, hr, hs, -, hu', hq, hroot⟩ := h.red_parent hf
    rw [Frame.sibling_right, hu] at hu'
    exact ⟨_, _, _, n + 1, rfl, hu'.blacken_red, Frame.balanced_plug_blacken (.red hl hr) hs,
      hq, hroot⟩
  | outerL hu =>
    -- the old parent, now black, sits above the focus; the old grandparent hangs below it
    obtain ⟨l, x, r, n, rfl, hl, hr, hs, -, hu', hq, hroot⟩ := h.red_parent rfl
    have hub := hu'.black_of_ne_red hu
    exact ⟨l, x, r, n, rfl, hl, hr, ⟨fun _ => rfl, ⟨_, .red hs hub, fun h => nomatch h⟩, hq⟩,
      topBlack_cons rfl hroot⟩
  | outerR hu =>
    obtain ⟨l, x, r, n, rfl, hl, hr, hs, -, hu', hq, hroot⟩ := h.red_parent rfl
    have hub := hu'.black_of_ne_red hu
    exact ⟨l, x, r, n, rfl, hl, hr, ⟨fun _ => rfl, ⟨_, .red hub hs, fun h => nomatch h⟩, hq⟩,
      topBlack_cons rfl hroot⟩
  | innerL hu =>
    -- the old focus, now black, sits above the old parent, which is the new focus
    obtain ⟨l, x, r, n, ht, hl, hr, hs, -, hu', hq, hroot⟩ := h.red_parent rfl
    obtain ⟨rfl, -, -, rfl⟩ := CTree.node.inj ht
    have hub := hu'.black_of_ne_red hu
    exact ⟨_, _, _, n, rfl, hs, hl, ⟨fun _ => rfl, ⟨_, .red hr hub, fun h => nomatch h⟩, hq⟩,
      topBlack_cons rfl hroot⟩
  | innerR hu =>
    obtain ⟨l, x, r, n, ht, hl, hr, hs, -, hu', hq, hroot⟩ := h.red_parent rfl
    obtain ⟨rfl, -, -, rfl⟩ := CTree.node.inj ht
    have hub := hu'.black_of_ne_red hu
    exact ⟨_, _, _, n, rfl, hr, hs, ⟨fun _ => rfl, ⟨_, .red hub hl, fun h => nomatch h⟩, hq⟩,
      topBlack_cons rfl hroot⟩

/-- Under the invariant a red parent always has a pass: a red parent is never the root. -/
theorem InsInv.exists_pass (h : InsInv p t) (hred : ParentRed p) : ∃ p' t', InsPass p t p' t' := by
  obtain ⟨l, x, r, n, rfl, -, -, -, hroot⟩ := h
  obtain ⟨k, hk, hfr⟩ := hred
  rcases p with _ | ⟨f, _ | ⟨g, q⟩⟩
  · simp at hk
  · simp only [List.head?_cons, Option.mem_def, Option.some.injEq] at hk
    subst hk
    exact absurd (hroot f rfl ▸ hfr).symm (by decide)
  · simp only [List.head?_cons, Option.mem_def, Option.some.injEq] at hk
    subst hk
    by_cases hu : g.sibling.colour = .red
    · cases g with
      | left gc gx u => exact ⟨_, _, .recolourL hfr hu⟩
      | right u gc gx => exact ⟨_, _, .recolourR hfr hu⟩
    · cases g with
      | left gc gx u =>
        cases f with
        | left c px pr => cases hfr; exact ⟨_, _, .outerL hu⟩
        | right pl c px => cases hfr; exact ⟨_, _, .innerL hu⟩
      | right u gc gx =>
        cases f with
        | left c px pr => cases hfr; exact ⟨_, _, .innerR hu⟩
        | right pl c px => cases hfr; exact ⟨_, _, .outerR hu⟩

/-- Without a red parent the loop stops. -/
theorem insStep_eq_none (hred : ¬ ParentRed p) : insStep p t = none := by
  rcases p with _ | ⟨f, _ | ⟨g, q⟩⟩
  · rfl
  · rfl
  · have hf : f.colour ≠ .red := fun h => hred ⟨f, rfl, h⟩
    cases g <;> simp [insStep, hf]

/-- When the loop stops the context accepts the red focus, and blackening the root gives a
red-black tree. -/
theorem InsInv.balanced_of_stop (h : InsInv p t) (hred : ¬ ParentRed p) :
    ∃ n, Balanced ((p.plug t).setColour .black) .black n := by
  obtain ⟨l, x, r, n, rfl, hl, hr, hp, -⟩ := h
  rcases p with _ | ⟨f, q⟩
  · exact ⟨n + 1, .black hl hr⟩
  · have hf : f.colour ≠ .red := fun h => hred ⟨f, rfl, h⟩
    obtain ⟨-, hfa, hq⟩ := hp
    obtain ⟨c, m, hb⟩ := Path.balanced_plug (p := f :: q) (.red hl hr)
      ⟨fun h => absurd h hf, hfa, hq⟩
    exact hb.blacken

/-! ## Correctness -/

/-- The walk from a state satisfying the invariant, followed by blackening the root, yields a
red-black tree. -/
theorem balanced_insFix {p : Path α} {t : CTree α} (h : InsInv p t) :
    ∃ n, Balanced ((insFix p t).setColour .black) .black n := by
  induction p, t using insFix.induct with
  | case1 p t hs =>
    have hred : ¬ ParentRed p := fun hred => by
      obtain ⟨p', t', hp⟩ := h.exists_pass hred
      rw [insStep_eq_some.2 hp] at hs
      cases hs
    rw [insFix_of_none hs]
    exact h.balanced_of_stop hred
  | case2 p t p' t' hs _ ih =>
    have hp := insStep_eq_some.1 hs
    rw [insFix_of_pass hp]
    exact ih (h.pass hp)

end ColouredTree
