import Isulad.Framework.InsertFixup

/-!
# The bottom-up removal fix-up of a red-black tree

Removing a black node leaves the subtree `x` that takes its place one black node short. The
textbook fix-up (Cormen et al., §13.4) walks up while `x` is black and not the root, by cases on
its sibling `w`:

1. `w` is red: rotate `w` above the parent and swap their colours; `x` now has a red parent
   and a black sibling, and the pass goes on with 2, 3 or 4;
2. `w` is black with two black children: paint `w` red and climb to the parent;
3. `w` is black, its far child black and its near child red: rotate the near child above `w`,
   and go on with 4;
4. `w` is black with a red far child: rotate `w` above the parent, which it takes the colour
   of, blacken the parent and the far child; the walk ends at the root.

Last, `x` is blackened. `sibStep p` is case 1 on the context of the focus, `EndPass` cases 2
to 4, and `delStep` one pass of the loop; `delFix p t` runs passes until the loop stops.

`DelInv p t` is the loop invariant: the focus has lost one black node exactly when it is black.
`DelInv.pass` says one pass keeps it, and `balanced_delFix` is the correctness statement: from
a state satisfying it the walk gives a red-black tree. Every pass keeps the in-order sequence
(`toList_delFix`).
-/

namespace ColouredTree

universe u

variable {α : Type u}

open CTree

lemma Colour.weight_le_one (c : Colour) : c.weight ≤ 1 := by
  cases c <;> decide

/-! ## One pass of the loop -/

/-- Case 1 on the context of the focus: a red sibling is rotated above the parent, which
turns red; the sibling's near subtree is the new sibling. -/
def sibStep : Path α → Path α
  | .left _ px (node sl .red sx sr) :: q => .left .red px sl :: .left .black sx sr :: q
  | .right (node sl .red sx sr) _ px :: q => .right sr .red px :: .right sl .black sx :: q
  | p => p

/-- Cases 2 to 4 from a black sibling: the context and focus of the next pass, or `none` when
there is no sibling. -/
def endStep : Path α → CTree α → Option (Path α × CTree α)
  | .left pc px (node sl _ sx sr) :: q, t =>
    if sl.colour = .black ∧ sr.colour = .black then
      some (q, node t pc px (node sl .red sx sr))
    else if sr.colour = .black then
      match sl with
      | node a _ lx b => some ([], Path.plug q (node (node t .black px a) pc lx (node b .black sx sr)))
      | nil => none
    else some ([], Path.plug q (node (node t .black px sl) pc sx (sr.setColour .black)))
  | .right (node sl _ sx sr) pc px :: q, t =>
    if sr.colour = .black ∧ sl.colour = .black then
      some (q, node (node sl .red sx sr) pc px t)
    else if sl.colour = .black then
      match sr with
      | node a _ lx b => some ([], Path.plug q (node (node sl .black sx a) pc lx (node b .black px t)))
      | nil => none
    else some ([], Path.plug q (node (sl.setColour .black) pc sx (node sr .black px t)))
  | _, _ => none

/-- One pass of the loop from the focus `t` in context `p`, or `none` when the loop stops: the
focus is red, or it is the root. -/
def delStep (p : Path α) (t : CTree α) : Option (Path α × CTree α) :=
  if t.colour = .red then none else endStep (sibStep p) t

/-- Cases 2 to 4, one constructor for each way `endStep` continues. -/
inductive EndPass : Path α → CTree α → Path α → CTree α → Prop
  | climbL {pc sc : Colour} {px sx : α} {sl sr t : CTree α} {q : Path α} :
      sl.colour = .black → sr.colour = .black →
      EndPass (.left pc px (node sl sc sx sr) :: q) t q (node t pc px (node sl .red sx sr))
  | innerL {pc sc : Colour} {px sx lx : α} {a b sr t : CTree α} {q : Path α} :
      sr.colour = .black →
      EndPass (.left pc px (node (node a .red lx b) sc sx sr) :: q) t
        [] (q.plug (node (node t .black px a) pc lx (node b .black sx sr)))
  | rotateL {pc sc : Colour} {px sx : α} {sl sr t : CTree α} {q : Path α} :
      sr.colour = .red →
      EndPass (.left pc px (node sl sc sx sr) :: q) t
        [] (q.plug (node (node t .black px sl) pc sx (sr.setColour .black)))
  | climbR {pc sc : Colour} {px sx : α} {sl sr t : CTree α} {q : Path α} :
      sr.colour = .black → sl.colour = .black →
      EndPass (.right (node sl sc sx sr) pc px :: q) t q (node (node sl .red sx sr) pc px t)
  | innerR {pc sc : Colour} {px sx lx : α} {sl a b t : CTree α} {q : Path α} :
      sl.colour = .black →
      EndPass (.right (node sl sc sx (node a .red lx b)) pc px :: q) t
        [] (q.plug (node (node sl .black sx a) pc lx (node b .black px t)))
  | rotateR {pc sc : Colour} {px sx : α} {sl sr t : CTree α} {q : Path α} :
      sl.colour = .red →
      EndPass (.right (node sl sc sx sr) pc px :: q) t
        [] (q.plug (node (sl.setColour .black) pc sx (node sr .black px t)))

/-- A pass of the loop: the focus is black, and after case 1 one of cases 2 to 4 applies. -/
structure DelPass (p : Path α) (t : CTree α) (p' : Path α) (t' : CTree α) : Prop where
  black : t.colour = .black
  pass : EndPass (sibStep p) t p' t'

variable {p p' : Path α} {t t' : CTree α}

lemma colour_ne_black {c : Colour} : c ≠ .black ↔ c = .red := by
  cases c <;> simp

lemma colour_ne_red {c : Colour} : c ≠ .red ↔ c = .black := by
  cases c <;> simp

attribute [local simp] sibStep in
/-- `endStep` continues exactly by the cases of `EndPass`. -/
theorem endStep_eq_some : endStep p t = some (p', t') ↔ EndPass p t p' t' := by
  constructor
  · intro h
    rcases p with _ | ⟨f, q⟩
    · simp [endStep] at h
    cases f with
    | left pc px s =>
      cases s with
      | nil => simp [endStep] at h
      | node sl sc sx sr =>
        simp only [endStep] at h
        split_ifs at h with h1 h2
        · simp only [Option.some.injEq, Prod.mk.injEq] at h
          obtain ⟨rfl, rfl⟩ := h
          exact .climbL h1.1 h1.2
        · -- not both children black, the far one black: the near one is red
          cases sl with
          | nil => exact absurd ⟨rfl, h2⟩ h1
          | node a c lx b =>
            obtain rfl : c = .red := colour_ne_black.1 fun hb => h1 ⟨hb, h2⟩
            simp only [Option.some.injEq, Prod.mk.injEq] at h
            obtain ⟨rfl, rfl⟩ := h
            exact .innerL h2
        · simp only [Option.some.injEq, Prod.mk.injEq] at h
          obtain ⟨rfl, rfl⟩ := h
          exact .rotateL (colour_ne_black.1 h2)
    | right s pc px =>
      cases s with
      | nil => simp [endStep] at h
      | node sl sc sx sr =>
        simp only [endStep] at h
        split_ifs at h with h1 h2
        · simp only [Option.some.injEq, Prod.mk.injEq] at h
          obtain ⟨rfl, rfl⟩ := h
          exact .climbR h1.1 h1.2
        · cases sr with
          | nil => exact absurd ⟨rfl, h2⟩ h1
          | node a c lx b =>
            obtain rfl : c = .red := colour_ne_black.1 fun hb => h1 ⟨hb, h2⟩
            simp only [Option.some.injEq, Prod.mk.injEq] at h
            obtain ⟨rfl, rfl⟩ := h
            exact .innerR h2
        · simp only [Option.some.injEq, Prod.mk.injEq] at h
          obtain ⟨rfl, rfl⟩ := h
          exact .rotateR (colour_ne_black.1 h2)
  · intro h
    cases h <;> simp_all [endStep]

theorem delStep_eq_some : delStep p t = some (p', t') ↔ DelPass p t p' t' := by
  unfold delStep
  split_ifs with h
  · simp only [false_iff]
    exact fun hp => absurd (hp.black ▸ h) (by decide)
  · have hb : t.colour = .black := by
      cases hc : t.colour with
      | red => exact absurd hc h
      | black => rfl
    rw [endStep_eq_some]
    exact ⟨fun hp => ⟨hb, hp⟩, DelPass.pass⟩

/-- Case 1 either leaves the context alone, or adds a red frame on top of one as long. -/
lemma sibStep_cases (p : Path α) :
    sibStep p = p ∨ ∃ f q, sibStep p = f :: q ∧ f.colour = .red ∧ q.length = p.length := by
  unfold sibStep
  split
  · exact .inr ⟨_, _, rfl, rfl, by simp⟩
  · exact .inr ⟨_, _, rfl, rfl, by simp⟩
  · exact .inl rfl

lemma sibStep_nil : sibStep ([] : Path α) = [] := rfl

/-- The loop stops on a red focus, and at the root. -/
lemma delStep_eq_none (h : t.colour = .black → p = []) : delStep p t = none := by
  unfold delStep
  split_ifs with hr
  · rfl
  · rw [h (colour_ne_red.1 hr), sibStep_nil]
    rfl

/-- After a pass the focus is a node: the parent it climbed to, or the whole tree. -/
lemma DelPass.focus_ne_nil (hp : DelPass p t p' t') : t' ≠ .nil := by
  obtain ⟨-, hpass⟩ := hp
  generalize sibStep p = P at hpass
  cases hpass with
  | climbL _ _ | climbR _ _ => simp
  | _ => exact Path.plug_ne_nil _ (by simp)

/-- Each pass decreases the height of the focus in the tree, counting a black focus as half a
level more: climbing gives a focus one level up, or, after case 1, a red one at the same
level; cases 3 and 4 end at the root. -/
lemma DelPass.measure_lt (hp : DelPass p t p' t') :
    p'.length + t'.colour.weight < p.length + t.colour.weight := by
  obtain ⟨hb, hpass⟩ := hp
  rw [hb, Colour.weight_black]
  have hw := Colour.weight_le_one t'.colour
  generalize hs : sibStep p = P at hpass
  have hne : p ≠ [] := by
    rintro rfl
    cases hpass <;> simp [sibStep_nil] at hs
  have hlen : 1 ≤ p.length := List.length_pos_iff.2 hne
  cases hpass with
  | climbL _ _ | climbR _ _ =>
    simp only [colour_node] at hw ⊢
    rcases sibStep_cases p with h | ⟨f, q, h, hf, hq⟩
    · rw [hs] at h
      subst h
      simp only [List.length_cons]
      omega
    · rw [hs] at h
      simp only [List.cons.injEq] at h
      obtain ⟨rfl, rfl⟩ := h
      simp only [Frame.colour_left, Frame.colour_right] at hf
      rw [hf, Colour.weight_red]
      omega
  | _ =>
    simp only [List.length_nil]
    omega

/-- The walk: passes until the loop stops, then the focus blackened. -/
def delFix (p : Path α) (t : CTree α) : CTree α :=
  match hs : delStep p t with
  | none => p.plug (t.setColour .black)
  | some (p', t') =>
    have := (delStep_eq_some.1 hs).measure_lt
    delFix p' t'
termination_by p.length + t.colour.weight

lemma delFix_of_none (h : delStep p t = none) : delFix p t = p.plug (t.setColour .black) := by
  rw [delFix]
  split <;> simp_all

lemma delFix_of_pass (h : DelPass p t p' t') : delFix p t = delFix p' t' := by
  have hs := delStep_eq_some.2 h
  rw [delFix]
  split <;> simp_all

/-! ## The in-order sequence -/

lemma toList_sibStep (p : Path α) (t : CTree α) :
    ((sibStep p).plug t).toList = (p.plug t).toList := by
  unfold sibStep
  split <;> simp [Path.toList_plug]

lemma EndPass.toList_eq (h : EndPass p t p' t') : (p'.plug t').toList = (p.plug t).toList := by
  cases h <;> simp [Path.toList_plug]

/-- The walk keeps the in-order sequence: it only rotates and recolours. -/
theorem toList_delFix (p : Path α) (t : CTree α) : (delFix p t).toList = (p.plug t).toList := by
  induction p, t using delFix.induct with
  | case1 p t hs => rw [delFix_of_none hs, Path.toList_plug, Path.toList_plug, toList_setColour]
  | case2 p t p' t' hs _ ih =>
    have hp := delStep_eq_some.1 hs
    rw [delFix_of_pass hp, ih, hp.pass.toList_eq, toList_sibStep]

/-! ## The loop invariant -/

/-- The invariant of the walk at the focus `t` in context `p`: blackened, `t` is balanced at
some black height `n`; the context takes a black subtree of height `n`, one more when `t` is
black, so a black focus is one black node short; the root is black unless it is the focus. -/
def DelInv (p : Path α) (t : CTree α) : Prop :=
  (∃ n, Balanced (t.setColour .black) .black n ∧ p.Fits .black (n + t.colour.weight)) ∧
    ∀ f ∈ p.getLast?, f.colour = .black

lemma topBlack_tail {g : Frame α} {q : Path α} (h : ∀ f ∈ (g :: q).getLast?, f.colour = .black) :
    ∀ f ∈ q.getLast?, f.colour = .black := by
  intro f hf
  apply h
  rcases q with _ | ⟨g', q⟩
  · simp at hf
  · simpa using hf

/-- Below a black root, every tree in the context is black at the top. -/
lemma Path.colour_plug_of_top {p : Path α} (hp : p ≠ [])
    (hroot : ∀ f ∈ p.getLast?, f.colour = .black) (t : CTree α) : (p.plug t).colour = .black := by
  obtain ⟨f, hf⟩ : ∃ f, p.getLast? = some f := ⟨_, List.getLast?_eq_some_getLast hp⟩
  rw [Path.colour_plug hf t]
  exact hroot f hf

lemma CTree.Balanced.exists_node {u : CTree α} {n : Nat} (h : Balanced u .black (n + 1)) :
    ∃ l x r, u = node l .black x r := by
  cases h
  exact ⟨_, _, _, rfl⟩

/-- A frame that takes a subtree of positive black height has a node as sibling. -/
lemma Frame.Accepts.sibling_node {f : Frame α} {n : Nat} (h : f.Accepts (n + 1)) :
    ∃ sl sc sx sr, f.sibling = node sl sc sx sr := by
  obtain ⟨c, hs, -⟩ := h
  cases hsib : f.sibling with
  | nil => rw [hsib] at hs; cases hs
  | node sl sc sx sr => exact ⟨sl, sc, sx, sr, rfl⟩

lemma sibStep_of_black {f : Frame α} {q : Path α} {sl sr : CTree α} {sx : α}
    (h : f.sibling = node sl .black sx sr) : sibStep (f :: q) = f :: q := by
  cases f with
  | left pc px s => simp only [Frame.sibling_left] at h; subst h; rfl
  | right s pc px => simp only [Frame.sibling_right] at h; subst h; rfl

/-- A red sibling of a subtree one black node high: its parent is black, its children black
and as high as the subtree. -/
lemma red_sibling {f : Frame α} {q : Path α} {n : Nat} {sl sr : CTree α} {sx : α}
    (hf : f.sibling = node sl .red sx sr) (h : Path.Fits (f :: q) .black (n + 1)) :
    f.colour = .black ∧ Balanced sl .black (n + 1) ∧ Balanced sr .black (n + 1) ∧
      q.Fits .black (n + 2) := by
  obtain ⟨-, ⟨c, hs, hcs⟩, hq⟩ := h
  rw [hf] at hs
  obtain ⟨rfl, m, cl, cr, hm, hl, hr, hc⟩ := Balanced.node_inv hs
  obtain ⟨rfl, rfl⟩ := hc rfl
  obtain rfl : n + 1 = m := by simpa using hm
  have hpc : f.colour = .black := by
    by_contra hne
    cases hcs (colour_ne_black.1 hne)
  rw [hpc] at hq
  exact ⟨hpc, hl, hr, hq⟩

/-- A black sibling of a subtree one black node high: its children and the context above. -/
lemma black_sibling {f : Frame α} {q : Path α} {n : Nat} {sl sr : CTree α} {sx : α}
    (hf : f.sibling = node sl .black sx sr) (h : Path.Fits (f :: q) .black (n + 1)) :
    (∃ cl, Balanced sl cl n) ∧ (∃ cr, Balanced sr cr n) ∧
      q.Fits f.colour (n + 1 + f.colour.weight) := by
  obtain ⟨-, ⟨c, hs, -⟩, hq⟩ := h
  rw [hf] at hs
  obtain ⟨-, m, cl, cr, hm, hl, hr, -⟩ := Balanced.node_inv hs
  obtain rfl : n = m := by simpa using hm
  exact ⟨⟨cl, hl⟩, ⟨cr, hr⟩, hq⟩

/-- Case 1 on a context that takes a black subtree one black node higher than the focus: the
new context takes it as well, keeps a black root, and gives the focus a black sibling. -/
theorem fits_sibStep {p : Path α} {n : Nat} (hp : p.Fits .black (n + 1))
    (hroot : ∀ f ∈ p.getLast?, f.colour = .black) :
    (sibStep p).Fits .black (n + 1) ∧ (∀ f ∈ (sibStep p).getLast?, f.colour = .black) ∧
      ∀ f ∈ (sibStep p).head?, ∃ sl sx sr, f.sibling = node sl .black sx sr := by
  rcases p with _ | ⟨f, q⟩
  · exact ⟨trivial, by simp [sibStep_nil], by simp [sibStep_nil]⟩
  obtain ⟨sl, sc, sx, sr, hsib⟩ := hp.2.1.sibling_node
  cases sc with
  | black =>
    rw [sibStep_of_black hsib]
    refine ⟨hp, hroot, fun g hg => ⟨sl, sx, sr, ?_⟩⟩
    simp only [List.head?_cons, Option.mem_def, Option.some.injEq] at hg
    exact hg ▸ hsib
  | red =>
    -- the old parent turns red below the old sibling, which turns black
    obtain ⟨-, hsl, hsr, hq⟩ := red_sibling hsib hp
    have hroot' := topBlack_tail hroot
    cases f with
    | left pc px s =>
      simp only [Frame.sibling_left] at hsib
      subst hsib
      obtain ⟨a, ax, b, rfl⟩ := hsl.exists_node
      have hstep : sibStep (.left pc px (node (node a .black ax b) .red sx sr) :: q) =
          .left .red px (node a .black ax b) :: .left .black sx sr :: q := rfl
      rw [hstep]
      refine ⟨⟨fun _ => rfl, ⟨.black, hsl, fun _ => rfl⟩, ⟨fun h => (nomatch h),
        ⟨.black, hsr, fun h => nomatch h⟩, hq⟩⟩, ?_, by simp⟩
      intro g hg
      rw [List.getLast?_cons_cons] at hg
      exact topBlack_cons rfl hroot' g hg
    | right s pc px =>
      simp only [Frame.sibling_right] at hsib
      subst hsib
      obtain ⟨a, ax, b, rfl⟩ := hsr.exists_node
      have hstep : sibStep (.right (node sl .red sx (node a .black ax b)) pc px :: q) =
          .right (node a .black ax b) .red px :: .right sl .black sx :: q := rfl
      rw [hstep]
      refine ⟨⟨fun _ => rfl, ⟨.black, hsr, fun _ => rfl⟩, ⟨fun h => (nomatch h),
        ⟨.black, hsl, fun h => nomatch h⟩, hq⟩⟩, ?_, by simp⟩
      intro g hg
      rw [List.getLast?_cons_cons] at hg
      exact topBlack_cons rfl hroot' g hg

/-- A red-black subtree at the colour and height its context takes ends the walk. -/
lemma delInv_top {q : Path α} {N : CTree α} {c : Colour} {m : Nat} (hN : Balanced N c m)
    (hq : q.Fits c m) : DelInv [] (q.plug N) := by
  obtain ⟨c', m', hb⟩ := Path.balanced_plug hN hq
  obtain ⟨n, hn⟩ := hb.blacken
  exact ⟨⟨n, hn, trivial⟩, by simp⟩

/-- Cases 2 to 4 from a black focus one black node short, in a context whose head frame has a
black sibling, give a state of the invariant. -/
theorem EndPass.delInv {P : Path α} {n : Nat} (hpass : EndPass P t p' t')
    (ht : Balanced t .black n) (hP : P.Fits .black (n + 1))
    (hroot : ∀ f ∈ P.getLast?, f.colour = .black)
    (hsib : ∀ f ∈ P.head?, ∃ sl sx sr, f.sibling = node sl .black sx sr) : DelInv p' t' := by
  cases hpass with
  | climbL hsl hsr =>
    -- the sibling turns red; the parent is the new focus, one black node short if black
    obtain ⟨_, _, _, hs⟩ := hsib _ rfl
    simp only [Frame.sibling_left, node.injEq] at hs
    obtain ⟨rfl, rfl, rfl, rfl⟩ := hs
    obtain ⟨⟨cl, hl⟩, ⟨cr, hr⟩, hq⟩ := black_sibling rfl hP
    obtain rfl := hl.colour_eq.symm.trans hsl
    obtain rfl := hr.colour_eq.symm.trans hsr
    exact ⟨⟨n + 1, .black ht (.red hl hr), hq.black_of⟩, topBlack_tail hroot⟩
  | innerL hsr =>
    obtain ⟨_, _, _, hs⟩ := hsib _ rfl
    simp only [Frame.sibling_left, node.injEq] at hs
    obtain ⟨rfl, rfl, rfl, rfl⟩ := hs
    obtain ⟨⟨cl, hl⟩, ⟨cr, hr⟩, hq⟩ := black_sibling rfl hP
    obtain rfl := hr.colour_eq.symm.trans hsr
    obtain ⟨-, m, ca, cb, hm, ha, hb, hc⟩ := Balanced.node_inv hl
    obtain ⟨rfl, rfl⟩ := hc rfl
    obtain rfl : n = m := by simpa using hm
    exact delInv_top (.node_of (.black ht ha) (.black hb hr) fun _ => ⟨rfl, rfl⟩) hq
  | rotateL hsr =>
    obtain ⟨_, _, _, hs⟩ := hsib _ rfl
    simp only [Frame.sibling_left, node.injEq] at hs
    obtain ⟨rfl, rfl, rfl, rfl⟩ := hs
    obtain ⟨⟨cl, hl⟩, ⟨cr, hr⟩, hq⟩ := black_sibling rfl hP
    obtain rfl := hr.colour_eq.symm.trans hsr
    exact delInv_top (.node_of (.black ht hl) hr.blacken_red fun _ => ⟨rfl, rfl⟩) hq
  | climbR hsr hsl =>
    obtain ⟨_, _, _, hs⟩ := hsib _ rfl
    simp only [Frame.sibling_right, node.injEq] at hs
    obtain ⟨rfl, rfl, rfl, rfl⟩ := hs
    obtain ⟨⟨cl, hl⟩, ⟨cr, hr⟩, hq⟩ := black_sibling rfl hP
    obtain rfl := hl.colour_eq.symm.trans hsl
    obtain rfl := hr.colour_eq.symm.trans hsr
    exact ⟨⟨n + 1, .black (.red hl hr) ht, hq.black_of⟩, topBlack_tail hroot⟩
  | innerR hsl =>
    obtain ⟨_, _, _, hs⟩ := hsib _ rfl
    simp only [Frame.sibling_right, node.injEq] at hs
    obtain ⟨rfl, rfl, rfl, rfl⟩ := hs
    obtain ⟨⟨cl, hl⟩, ⟨cr, hr⟩, hq⟩ := black_sibling rfl hP
    obtain rfl := hl.colour_eq.symm.trans hsl
    obtain ⟨-, m, ca, cb, hm, ha, hb, hc⟩ := Balanced.node_inv hr
    obtain ⟨rfl, rfl⟩ := hc rfl
    obtain rfl : n = m := by simpa using hm
    exact delInv_top (.node_of (.black hl ha) (.black hb ht) fun _ => ⟨rfl, rfl⟩) hq
  | rotateR hsl =>
    obtain ⟨_, _, _, hs⟩ := hsib _ rfl
    simp only [Frame.sibling_right, node.injEq] at hs
    obtain ⟨rfl, rfl, rfl, rfl⟩ := hs
    obtain ⟨⟨cl, hl⟩, ⟨cr, hr⟩, hq⟩ := black_sibling rfl hP
    obtain rfl := hl.colour_eq.symm.trans hsl
    exact delInv_top (.node_of hl.blacken_red (.black hr ht) fun _ => ⟨rfl, rfl⟩) hq

/-- Each pass keeps the invariant. -/
theorem DelInv.pass (h : DelInv p t) (hp : DelPass p t p' t') : DelInv p' t' := by
  obtain ⟨⟨n, hb, hfits⟩, hroot⟩ := h
  rw [setColour_of_colour_eq hp.black] at hb
  rw [hp.black, Colour.weight_black] at hfits
  obtain ⟨hP, hroot', hsib⟩ := fits_sibStep hfits hroot
  exact hp.pass.delInv hb hP hroot' hsib

/-- Under the invariant a black focus below the root always has a pass: its sibling is a
black node once case 1 is done. -/
theorem DelInv.exists_pass (h : DelInv p t) (hb : t.colour = .black) (hne : p ≠ []) :
    ∃ p' t', DelPass p t p' t' := by
  obtain ⟨⟨n, -, hfits⟩, hroot⟩ := h
  rw [hb, Colour.weight_black] at hfits
  obtain ⟨-, -, hsib⟩ := fits_sibStep hfits hroot
  obtain ⟨f, q, hsp⟩ : ∃ f q, sibStep p = f :: q := by
    rcases sibStep_cases p with h | ⟨f, q, h, -⟩
    · obtain ⟨f, q, rfl⟩ := List.exists_cons_of_ne_nil hne
      exact ⟨f, q, h⟩
    · exact ⟨f, q, h⟩
  obtain ⟨sl, sx, sr, hs⟩ := hsib f (by simp [hsp])
  suffices ∃ p' t', EndPass (f :: q) t p' t' by
    obtain ⟨p', t', he⟩ := this
    refine ⟨p', t', hb, ?_⟩
    rw [hsp]
    exact he
  cases f with
  | left pc px s =>
    simp only [Frame.sibling_left] at hs
    subst hs
    by_cases h1 : sl.colour = .black ∧ sr.colour = .black
    · exact ⟨_, _, .climbL h1.1 h1.2⟩
    by_cases h2 : sr.colour = .black
    · -- not both children black, the far one black: the near one is a red node
      cases sl with
      | nil => exact absurd ⟨rfl, h2⟩ h1
      | node a c lx b =>
        obtain rfl : c = .red := colour_ne_black.1 fun hc => h1 ⟨hc, h2⟩
        exact ⟨_, _, .innerL h2⟩
    · exact ⟨_, _, .rotateL (colour_ne_black.1 h2)⟩
  | right s pc px =>
    simp only [Frame.sibling_right] at hs
    subst hs
    by_cases h1 : sr.colour = .black ∧ sl.colour = .black
    · exact ⟨_, _, .climbR h1.1 h1.2⟩
    by_cases h2 : sl.colour = .black
    · cases sr with
      | nil => exact absurd ⟨rfl, h2⟩ h1
      | node a c lx b =>
        obtain rfl : c = .red := colour_ne_black.1 fun hc => h1 ⟨hc, h2⟩
        exact ⟨_, _, .innerR h2⟩
    · exact ⟨_, _, .rotateR (colour_ne_black.1 h2)⟩

/-! ## Correctness -/

/-- The walk from a state satisfying the invariant yields a red-black tree. -/
theorem balanced_delFix {p : Path α} {t : CTree α} (h : DelInv p t) :
    ∃ n, Balanced (delFix p t) .black n := by
  induction p, t using delFix.induct with
  | case1 p t hs =>
    rw [delFix_of_none hs]
    obtain ⟨⟨n, hb, hfits⟩, hroot⟩ := h
    rcases p with _ | ⟨f, q⟩
    · exact ⟨n, hb⟩
    -- the loop stopped below the root, so on a red focus: blackened, it restores the height
    have hred : t.colour = .red := by
      apply colour_ne_black.1
      intro hb'
      obtain ⟨p', t', hp⟩ := DelInv.exists_pass ⟨⟨n, hb, hfits⟩, hroot⟩ hb' (List.cons_ne_nil f q)
      rw [delStep_eq_some.2 hp] at hs
      cases hs
    rw [hred, Colour.weight_red, Nat.add_zero] at hfits
    obtain ⟨c, m, hplug⟩ := Path.balanced_plug hb hfits
    have hc : c = .black :=
      hplug.colour_eq.symm.trans (Path.colour_plug_of_top (List.cons_ne_nil f q) hroot _)
    exact ⟨m, hc ▸ hplug⟩
  | case2 p t p' t' hs _ ih =>
    have hp := delStep_eq_some.1 hs
    rw [delFix_of_pass hp]
    exact ih (h.pass hp)

/-! ## Removing a node

Textbook removal (Cormen et al., §13.4) of the node `node l c x r` at context `p`: a node with
a leaf child gives its place to the other child; otherwise its successor `y`, the leftmost
node of `r`, takes its place and its colour, and `y`'s right subtree takes `y`'s place. When
the node taken out of the tree (`x`, or `y`) was black, the walk repairs the tree from the
subtree that took its place. -/

/-- The walk from `t` at `p`, run only when the node `t` replaced was black. -/
def fixFrom (c : Colour) (p : Path α) (t : CTree α) : CTree α :=
  if c = .black then delFix p t else p.plug t

/-- The leftmost node of `node a c x b`: its context inside that tree, colour, payload and
right subtree. -/
def minView : CTree α → Colour → α → CTree α → Path α × Colour × α × CTree α
  | .nil, c, x, b => ([], c, x, b)
  | .node a' c' x' b', c, x, b =>
    match minView a' c' x' b' with
    | (q, yc, y, yr) => (q ++ [Frame.left c x b], yc, y, yr)

/-- Removal of the node `node l c x r` at context `p`. -/
def eraseAt (p : Path α) (l : CTree α) (c : Colour) (r : CTree α) : CTree α :=
  match l, r with
  | .nil, r => fixFrom c p r
  | .node ll lc lx lr, .nil => fixFrom c p (.node ll lc lx lr)
  | .node ll lc lx lr, .node a rc rx rb =>
    match minView a rc rx rb with
    | (q, yc, y, yr) => fixFrom yc (q ++ .right (.node ll lc lx lr) c y :: p) yr

/-- The leftmost node with its context puts the tree back, and nothing of the tree lies before
it. -/
theorem minView_spec {a b : CTree α} {c : Colour} {x : α} {q : Path α} {yc : Colour} {y : α}
    {yr : CTree α} (h : minView a c x b = (q, yc, y, yr)) :
    q.plug (node nil yc y yr) = node a c x b ∧ q.before = [] := by
  induction a generalizing c x b q with
  | nil =>
    simp only [minView, Prod.mk.injEq] at h
    obtain ⟨rfl, rfl, rfl, rfl⟩ := h
    exact ⟨rfl, rfl⟩
  | node a' c' x' b' ih _ =>
    rcases hm : minView a' c' x' b' with ⟨q', yc', y', yr'⟩
    simp only [minView, hm, Prod.mk.injEq] at h
    obtain ⟨rfl, rfl, rfl, rfl⟩ := h
    obtain ⟨hplug, hbefore⟩ := ih hm
    refine ⟨by rw [Path.plug_append, hplug]; rfl, ?_⟩
    -- a left frame puts nothing before the hole
    have hb : ∀ q : Path α, (q ++ [Frame.left c x b]).before = q.before := by
      intro q
      induction q with
      | nil => rfl
      | cons f q ihq => cases f <;> simp [Path.before, ihq]
    rw [hb, hbefore]

lemma toList_fixFrom (c : Colour) (p : Path α) (t : CTree α) :
    (fixFrom c p t).toList = (p.plug t).toList := by
  unfold fixFrom
  split_ifs
  · exact toList_delFix p t
  · rfl

attribute [local simp] eraseAt in
/-- Removal takes exactly the removed node's payload out of the in-order sequence. -/
theorem toList_eraseAt (p : Path α) (l : CTree α) (c : Colour) (r : CTree α) :
    (eraseAt p l c r).toList = p.before ++ l.toList ++ r.toList ++ p.after := by
  match l, r with
  | .nil, r => simp [eraseAt, toList_fixFrom, Path.toList_plug]
  | .node ll lc lx lr, .nil => simp [eraseAt, toList_fixFrom, Path.toList_plug]
  | .node ll lc lx lr, .node a rc rx rb =>
    rcases hm : minView a rc rx rb with ⟨q, yc, y, yr⟩
    obtain ⟨hplug, hbefore⟩ := minView_spec hm
    have hr := congrArg CTree.toList hplug
    rw [Path.toList_plug, hbefore] at hr
    simp only [eraseAt, hm, toList_fixFrom, Path.plug_append, Path.toList_plug]
    rw [← hr, hbefore]
    simp [Path.before, Path.after]

/-- The context of a tree that is red-black has a black root. -/
lemma Path.top_black {p : Path α} {t : CTree α} {n : Nat} (h : Balanced (p.plug t) .black n) :
    ∀ f ∈ p.getLast?, f.colour = .black :=
  fun _ hf => (Path.colour_plug hf t).symm.trans h.colour_eq

/-- A black node with a leaf child, taken out of a red-black tree, starts the walk at its other
child `b`, one black node short. -/
lemma delInv_start {q : Path α} {cb : Colour} {b : CTree α} {m : Nat}
    (hq : q.Fits .black (m + 1)) (hroot : ∀ f ∈ q.getLast?, f.colour = .black)
    (hb : Balanced b cb m) : DelInv q b := by
  refine ⟨?_, hroot⟩
  cases cb with
  | black => exact ⟨m, by rw [setColour_of_colour_eq hb.colour_eq]; exact hb, by rw [hb.colour_eq]; exact hq⟩
  | red => exact ⟨m + 1, hb.blacken_red, by simpa [hb.colour_eq] using hq⟩

/-- A node with a leaf child, taken out of a red-black tree, leaves its other child `b`: a black
node starts the walk at `b` one black node short, a red one leaves a red-black tree. -/
lemma removal_start {q : Path α} {c cb : Colour} {b : CTree α} {m : Nat}
    (hq : q.Fits c (m + c.weight)) (hroot : ∀ f ∈ q.getLast?, f.colour = .black)
    (hb : Balanced b cb m) (hc : c = .red → cb = .black) :
    ∃ n, Balanced (fixFrom c q b) .black n := by
  unfold fixFrom
  cases c with
  | black =>
    rw [if_pos rfl]
    exact balanced_delFix (delInv_start hq hroot hb)
  | red =>
    -- a red node has black children and a black parent: the child fits where it stood
    rw [if_neg (by decide)]
    obtain rfl := hc rfl
    rw [Colour.weight_red, Nat.add_zero] at hq
    obtain ⟨c', n, hplug⟩ := Path.balanced_plug hb hq.black_of
    rcases q with _ | ⟨f, q'⟩
    · obtain ⟨rfl, rfl⟩ := hb.unique hplug
      exact ⟨m, hb⟩
    · have hc' : c' = .black :=
        hplug.colour_eq.symm.trans (Path.colour_plug_of_top (List.cons_ne_nil f q') hroot _)
      exact ⟨n, hc' ▸ hplug⟩

/-- Taking out a black node whose left child is a leaf starts the walk at its right child. -/
lemma delInv_of_left_nil {q : Path α} {y : α} {b : CTree α} {N : Nat}
    (h : Balanced (q.plug (node nil .black y b)) .black N) : DelInv q b := by
  obtain ⟨c', m', hN, hq⟩ := Path.fits_of_balanced_plug h
  obtain ⟨rfl, k, cl, cb, rfl, -, hb, -⟩ := Balanced.node_inv hN
  exact delInv_start hq (Path.top_black h) hb

/-- Taking out a black node whose right child is a leaf starts the walk at its left child. -/
lemma delInv_of_right_nil {q : Path α} {y : α} {a : CTree α} {N : Nat}
    (h : Balanced (q.plug (node a .black y nil)) .black N) : DelInv q a := by
  obtain ⟨c', m', hN, hq⟩ := Path.fits_of_balanced_plug h
  obtain ⟨rfl, k, ca, cr, rfl, ha, -, -⟩ := Balanced.node_inv hN
  exact delInv_start hq (Path.top_black h) ha

lemma balanced_fixFrom_left {q : Path α} {c : Colour} {y : α} {b : CTree α} {N : Nat}
    (h : Balanced (q.plug (node nil c y b)) .black N) : ∃ n, Balanced (fixFrom c q b) .black n := by
  obtain ⟨c', m', hN, hq⟩ := Path.fits_of_balanced_plug h
  obtain ⟨rfl, k, cl, cb, rfl, -, hb, hc⟩ := Balanced.node_inv hN
  exact removal_start hq (Path.top_black h) hb fun h => (hc h).2

lemma balanced_fixFrom_right {q : Path α} {c : Colour} {y : α} {a : CTree α} {N : Nat}
    (h : Balanced (q.plug (node a c y nil)) .black N) : ∃ n, Balanced (fixFrom c q a) .black n := by
  obtain ⟨c', m', hN, hq⟩ := Path.fits_of_balanced_plug h
  obtain ⟨rfl, k, ca, cr, rfl, ha, -, hc⟩ := Balanced.node_inv hN
  exact removal_start hq (Path.top_black h) ha fun h => (hc h).1

/-- The successor in the removed node's place: shape and colours are those of the old tree. -/
lemma balanced_successor_plug {p q : Path α} {l a b yr : CTree α} {c rc yc : Colour} {x rx y : α}
    {N : Nat} (h : Balanced (p.plug (node l c x (node a rc rx b))) .black N)
    (hm : minView a rc rx b = (q, yc, y, yr)) :
    Balanced ((q ++ .right l c y :: p).plug (node nil yc y yr)) .black N := by
  rw [Path.plug_append, (minView_spec hm).1]
  exact Path.balanced_plug_congr (p := p) (fun _ _ => Balanced.node_payload) h

/-- Removal from a red-black tree gives a red-black tree. -/
theorem balanced_eraseAt {p : Path α} {l r : CTree α} {c : Colour} {x : α} {N : Nat}
    (h : Balanced (p.plug (node l c x r)) .black N) : ∃ n, Balanced (eraseAt p l c r) .black n := by
  match l, r with
  | .nil, r => exact balanced_fixFrom_left h
  | .node ll lc lx lr, .nil => exact balanced_fixFrom_right h
  | .node ll lc lx lr, .node a rc rx rb =>
    rcases hm : minView a rc rx rb with ⟨q, yc, y, yr⟩
    simp only [eraseAt, hm]
    exact balanced_fixFrom_left (balanced_successor_plug h hm)

end ColouredTree
