import Isulad.Path
import Isulad.Framework.LexicalPath

/-!
# `cleanpath` computes the lexical normal form (`path.c`)

`do_clean_path` is the stack machine of `LexicalPath` written on a text buffer: the text before
`dest` is the stack of names, each behind a slash, with one more slash at its end when the
stack is empty or `..` has just backed up over a name (`DestOf`). Each round of the loop reads
one component (`skipSlash`) and does to the buffer what `LexicalPath.push` does to the stack;
when the loop ends, `cleanpath` drops the trailing slash and the rendered stack is left.

So what `cleanpath` returns is the lexical normal form of the path, taken from the working
directory when the path is relative (`cleanpath_sound`); it returns one whenever a relative
path passes the length test `cleanpath` makes first, and whenever an absolute path is shorter
than `PATH_MAX` (`cleanpath_isSome`); and its results are normal and are their own cleaned
form. The only test of length on an absolute path is the one each component meets when it is
copied: a component of `PATH_MAX - 1` characters fails the call even when a `..` after it
removes it from the normal form (`cleanpath_refuses_long_component`).
-/

namespace Isulad

namespace Path

open LexicalPath
open HostFs (components)

/-! ## The scan reads one component -/

lemma skipSlash_spec (s : List Char) :
    (skipSlash s).1 ++ (skipSlash s).2 = s.dropWhile (· = '/') ∧ '/' ∉ (skipSlash s).1 ∧
      ((skipSlash s).2 = [] ∨ (skipSlash s).2.head? = some '/') := by
  simp only [skipSlash, List.span_eq_takeWhile_dropWhile]
  refine ⟨List.takeWhile_append_dropWhile, fun h => ?_, ?_⟩
  · simpa using List.mem_takeWhile_imp h
  · generalize hr : (s.dropWhile (· = '/')).dropWhile (· ≠ '/') = r
    cases r with
    | nil => exact .inl rfl
    | cons x xs =>
      right
      have hx := List.head_dropWhile_not (fun c => decide (c ≠ '/'))
        (l := s.dropWhile (· = '/')) (by rw [hr]; exact List.cons_ne_nil _ _)
      simp only [hr, List.head_cons, decide_eq_false_iff_not, not_not] at hx
      simp [hx]

/-- What is left after the slashes does not begin with one. -/
lemma head?_dropWhile_slash (s : List Char) : (s.dropWhile (· = '/')).head? ≠ some '/' := by
  intro h
  have hne : s.dropWhile (· = '/') ≠ [] := by
    intro hnil
    simp [hnil] at h
  have hfirst := List.head_dropWhile_not (fun c => decide (c = '/')) hne
  rw [List.head?_eq_some_head hne, Option.some.injEq] at h
  simp [h] at hfirst

/-- A scan that finds no component leaves nothing. -/
lemma skipSlash_snd_of_fst_nil {s : List Char} (h : (skipSlash s).1 = []) :
    (skipSlash s).2 = [] := by
  obtain ⟨happ, -, hrest⟩ := skipSlash_spec s
  rw [h, List.nil_append] at happ
  rcases hrest with hnil | hhead
  · exact hnil
  · rw [happ] at hhead
    exact absurd hhead (head?_dropWhile_slash s)

/-- The components of what is left to scan: the scanned one, then those of the rest. -/
lemma components_skipSlash (s : List Char) :
    components s = components (skipSlash s).1 ++ components (skipSlash s).2 := by
  obtain ⟨happ, -, hrest⟩ := skipSlash_spec s
  rw [← components_dropWhile_slash s, ← happ]
  rcases hrest with hnil | hhead
  · rw [hnil, List.append_nil, components_nil, List.append_nil]
  · cases hr : (skipSlash s).2 with
    | nil => simp [hr] at hhead
    | cons x r =>
      rw [hr, List.head?_cons, Option.some.injEq] at hhead
      rw [hhead, components_append_slash, components_cons_slash]

/-- A scan that finds the component `c`: the components are `c` and those of the rest. -/
lemma components_of_skipSlash {s : List Char} (h : (skipSlash s).1 ≠ []) :
    components s = (skipSlash s).1 :: components (skipSlash s).2 := by
  obtain ⟨-, hslash, -⟩ := skipSlash_spec s
  rw [components_skipSlash, components_of_not_mem hslash, if_neg h, List.singleton_append]

/-- The scan of a slash, a component and a rest that begins at a slash. -/
lemma skipSlash_of_component {c rest : List Char} (hc : c ≠ []) (hslash : '/' ∉ c)
    (hrest : rest = [] ∨ rest.head? = some '/') : skipSlash ('/' :: c ++ rest) = (c, rest) := by
  have hall : ∀ x ∈ c, decide (x ≠ '/') = true := by
    intro x hx
    have hne : x ≠ '/' := fun e => hslash (e ▸ hx)
    simpa using hne
  obtain ⟨y, ys, rfl⟩ := List.exists_cons_of_ne_nil hc
  have hy : y ≠ '/' := fun e => hslash (e ▸ List.mem_cons_self)
  have hdrop : ('/' :: (y :: ys) ++ rest).dropWhile (· = '/') = y :: ys ++ rest := by
    rw [List.cons_append, List.dropWhile_cons_of_pos (by simp),
      List.cons_append, List.dropWhile_cons_of_neg (by simpa using hy)]
  have htake : rest.takeWhile (· ≠ '/') = [] ∧ rest.dropWhile (· ≠ '/') = rest := by
    rcases hrest with rfl | hhead
    · simp
    · cases rest with
      | nil => simp
      | cons x r =>
        rw [List.head?_cons, Option.some.injEq] at hhead
        subst hhead
        simp
  simp only [skipSlash, hdrop, List.span_eq_takeWhile_dropWhile,
    List.takeWhile_append_of_pos hall, List.dropWhile_append_of_pos hall, htake.1, htake.2,
    List.append_nil]

/-! ## The buffer holds the stack -/

lemma getLast?_slashed {stack : List (List Char)} (h : ∀ c ∈ stack, IsName c)
    (hne : stack ≠ []) : (slashed stack).getLast? ≠ some '/' := by
  obtain ⟨s, x, rfl⟩ := (List.eq_nil_or_concat' stack).resolve_left hne
  obtain ⟨hx, hslash, -, -⟩ := h x (by simp)
  obtain ⟨t, y, rfl⟩ := (List.eq_nil_or_concat' x).resolve_left hx
  rw [slashed_append_singleton, ← List.cons_append, ← List.append_assoc, List.getLast?_concat]
  intro hy
  exact hslash (by simp [Option.some.inj hy])

lemma length_slashed_dropLast_le (stack : List (List Char)) :
    (slashed stack.dropLast).length ≤ (slashed stack).length := by
  rcases List.eq_nil_or_concat' stack with rfl | ⟨s, x, rfl⟩
  · rfl
  · rw [List.dropLast_concat, slashed_append_singleton, List.length_append]
    exact Nat.le_add_right _ _

/-- The text before `dest` for the stack `stack`: the names each behind a slash, and a slash
after them when the stack is empty or `..` has just backed up over a name. -/
structure DestOf (stack : List (List Char)) (dest : List Char) : Prop where
  names : ∀ c ∈ stack, IsName c
  text : dest = slashed stack ∨ dest = slashed stack ++ ['/']
  root : stack = [] → dest = ['/']
  fits : dest.length < pathMax

lemma destOf_root : DestOf [] ['/'] :=
  ⟨by simp, .inr rfl, fun _ => rfl, by decide⟩

/-- A canonical working directory holds its names. -/
lemma destOf_render {stack : List (List Char)} (h : ∀ c ∈ stack, IsName c)
    (hfits : (render stack).length < pathMax) : DestOf stack (render stack) := by
  unfold render at hfits ⊢
  split
  · subst_vars
    exact destOf_root
  · rename_i hne
    exact ⟨h, .inl rfl, fun h' => absurd h' hne, by rwa [if_neg hne] at hfits⟩

namespace DestOf

variable {stack : List (List Char)} {dest : List Char}

lemma withSlash_eq (h : DestOf stack dest) : withSlash dest = slashed stack ++ ['/'] := by
  unfold withSlash
  rcases h.text with hd | hd
  · by_cases hs : stack = []
    · have := h.root hs
      subst hs
      simp [hd] at this
    · rw [hd, if_neg (getLast?_slashed h.names hs)]
  · simp [hd]

/-- `..` backs up over the last name, or stays at the root. -/
lemma dotdot (h : DestOf stack dest) :
    DestOf stack.dropLast (if dest.length ≤ 1 then dest else backToSlash dest) := by
  rcases List.eq_nil_or_concat' stack with rfl | ⟨s, x, rfl⟩
  · rw [h.root rfl]
    exact destOf_root
  · obtain ⟨hx, hslash, -, -⟩ := h.names x (by simp)
    have hnames : ∀ c ∈ s, IsName c := fun c hc => h.names c (by simp [hc])
    -- the scan back from `/w` stops at the slash before `w`
    have hrev : ∀ w : List Char, '/' ∉ w →
        ((slashed s ++ '/' :: w).reverse.dropWhile (· ≠ '/')).reverse = slashed s ++ ['/'] := by
      intro w hw
      have hall : ∀ c ∈ w.reverse, decide (c ≠ '/') = true := by
        intro c hc
        have hne : c ≠ '/' := fun e => hw (e ▸ List.mem_reverse.1 hc)
        simpa using hne
      rw [List.reverse_append, List.reverse_cons, List.append_assoc,
        List.dropWhile_append_of_pos hall]
      simp
    -- the buffer ends in `/x` or `/x/`
    have hdrop : dest.dropLast = slashed s ++ '/' :: x.dropLast ∨
        dest.dropLast = slashed s ++ '/' :: x := by
      rcases h.text with hd | hd
      · left
        rw [hd, slashed_append_singleton, List.dropLast_append_of_ne_nil (List.cons_ne_nil _ _),
          List.dropLast_cons_of_ne_nil hx]
      · right
        rw [hd, List.dropLast_concat, slashed_append_singleton]
    have hback : backToSlash dest = slashed s ++ ['/'] := by
      unfold backToSlash
      rcases hdrop with hd | hd
      · rw [hd]
        exact hrev _ fun hm => hslash (List.dropLast_subset _ hm)
      · rw [hd]
        exact hrev _ hslash
    have hlong : (slashed s).length + 2 ≤ dest.length := by
      have hx1 : 1 ≤ x.length := List.length_pos_of_ne_nil hx
      rcases h.text with hd | hd <;>
        simp only [hd, slashed_append_singleton, List.length_append, List.length_cons] <;> omega
    have hfits := h.fits
    rw [if_neg (by omega), List.dropLast_concat, hback]
    refine ⟨hnames, .inr rfl, fun hs' => by simp [hs'], ?_⟩
    rw [List.length_append, List.length_singleton]
    omega

/-- A name is copied in behind a slash. -/
lemma name (h : DestOf stack dest) {c : List Char} (hc : IsName c)
    (hfits : (withSlash dest ++ c).length < pathMax) :
    DestOf (stack ++ [c]) (withSlash dest ++ c) := by
  have hnames : ∀ d ∈ stack ++ [c], IsName d := by
    intro d hd
    rcases List.mem_append.1 hd with hd | hd
    · exact h.names d hd
    · rw [List.mem_singleton.1 hd]
      exact hc
  refine ⟨hnames, .inl ?_, fun hs => by simp at hs, hfits⟩
  rw [h.withSlash_eq, slashed_append_singleton]
  simp

/-- What `cleanpath` does after the loop, dropping a trailing slash, leaves the rendered
stack. -/
lemma finish (h : DestOf stack dest) :
    (if dest.length > 1 ∧ dest.getLast? = some '/' then dest.dropLast else dest) =
      render stack := by
  by_cases hs : stack = []
  · subst hs
    rw [h.root rfl]
    rfl
  · unfold render
    rw [if_neg hs]
    rcases h.text with hd | hd
    · rw [if_neg (fun hc => getLast?_slashed h.names hs (hd ▸ hc.2)), hd]
    · obtain ⟨x, xs, rfl⟩ := List.exists_cons_of_ne_nil hs
      have hlen : dest.length > 1 := by
        simp only [hd, slashed_cons, List.length_append, List.length_cons]
        omega
      rw [if_pos ⟨hlen, by simp [hd]⟩, hd, List.dropLast_concat]

end DestOf

/-! ## One round of the loop -/

lemma doCleanPathContinue_eq_none {c dest : List Char} (h : doCleanPathContinue c dest = none) :
    c ≠ ['.'] ∧ c ≠ ['.', '.'] := by
  unfold doCleanPathContinue at h
  split at h
  · cases h
  · split at h
    · cases h
    · exact ⟨‹_›, ‹_›⟩

/-- `.` and `..` do to the buffer what they do to the stack. -/
lemma DestOf.ofContinue {stack : List (List Char)} {dest : List Char} (h : DestOf stack dest)
    {c d : List Char} (hc : doCleanPathContinue c dest = some d) : DestOf (push stack c) d := by
  unfold doCleanPathContinue at hc
  unfold push
  split at hc
  · cases hc
    rw [if_pos ‹_›]
    exact h
  · split at hc
    · cases hc
      rw [if_neg ‹_›, if_pos ‹_›]
      exact h.dotdot
    · cases hc

/-- The loop's invariant: the buffer holds a stack from which the components left to scan
reach `target`. -/
def CleanInv (target : List (List Char)) (s : CleanState) : Prop :=
  ∃ stack, DestOf stack s.dest ∧ normalize stack (components s.stpos) = target

attribute [local simp] doCleanPathStep in
lemma cleanInv_step {target : List (List Char)} {s s' : CleanState} (hs : CleanInv target s)
    (h : doCleanPathStep s = .inr s') : CleanInv target s' := by
  obtain ⟨stack, hdest, hnorm⟩ := hs
  unfold doCleanPathStep at h
  dsimp only at h
  split at h
  · cases h
  · split at h
    · cases h
    · rename_i hcomp
      obtain ⟨-, hslash, -⟩ := skipSlash_spec s.stpos
      rw [components_of_skipSlash hcomp, normalize_cons] at hnorm
      split at h
      · -- `.` or `..`
        rename_i d hd
        cases h
        exact ⟨_, hdest.ofContinue hd, hnorm⟩
      · -- a name, copied in when it fits
        rename_i hd
        split at h
        · cases h
        · rename_i hfit
          cases h
          obtain ⟨hdot, hdotdot⟩ := doCleanPathContinue_eq_none hd
          refine ⟨stack ++ [(skipSlash s.stpos).1],
            hdest.name ⟨hcomp, hslash, hdot, hdotdot⟩ (by rw [List.length_append]; omega), ?_⟩
          rwa [push, if_neg hdot, if_neg hdotdot] at hnorm

lemma cleanInv_done {target : List (List Char)} {s : CleanState} {d : List Char}
    (hs : CleanInv target s) (h : doCleanPathStep s = .inl (some d)) : DestOf target d := by
  obtain ⟨stack, hdest, hnorm⟩ := hs
  unfold doCleanPathStep at h
  dsimp only at h
  split at h
  · -- nothing left to scan
    rename_i hnil
    cases h
    rw [hnil, components_nil, normalize_nil] at hnorm
    exact hnorm ▸ hdest
  · split at h
    · -- only slashes left
      rename_i hcomp
      cases h
      have hcomps := components_skipSlash s.stpos
      rw [hcomp, skipSlash_snd_of_fst_nil hcomp, components_nil, List.append_nil] at hcomps
      rw [hcomps, normalize_nil] at hnorm
      exact hnorm ▸ hdest
    · split at h
      · cases h
      · split at h
        · cases h
        · cases h

/-- What the loop returns holds the stack the components reach. -/
theorem doCleanPath_sound {stpos dest d : List Char} {stack : List (List Char)}
    (hdest : DestOf stack dest) (h : doCleanPath stpos dest = some d) :
    DestOf (normalize stack (components stpos)) d := by
  unfold doCleanPath at h
  exact Loop.run_invariant doCleanPathStep_decreases
    (I := CleanInv (normalize stack (components stpos)))
    (Q := fun r => ∀ d, r = some d → DestOf (normalize stack (components stpos)) d)
    (fun _ _ hs hstep => cleanInv_step hs hstep)
    (fun _ _ hs hdone d hd => cleanInv_done hs (hd ▸ hdone))
    ⟨stack, hdest, rfl⟩ (Option.join_eq_some_iff.1 h) d rfl

/-! ## The loop never fails on a short path -/

/-- The room the loop needs: the buffer with its slash and what is left after the slashes fit
`PATH_MAX`, unless nothing is left. -/
def CleanFits (s : CleanState) : Prop :=
  ∃ stack, DestOf stack s.dest ∧
    (s.stpos.dropWhile (· = '/') = [] ∨
      (withSlash s.dest).length + (s.stpos.dropWhile (· = '/')).length < pathMax)

lemma length_dropWhile_slash_lt {r : List Char} (h : r.head? = some '/') :
    (r.dropWhile (· = '/')).length < r.length := by
  cases r with
  | nil => simp at h
  | cons x r =>
    rw [List.head?_cons, Option.some.injEq] at h
    subst h
    rw [List.dropWhile_cons_of_pos (by simp), List.length_cons]
    exact Nat.lt_succ_of_le (List.length_dropWhile_le _ _)

/-- A component found by the scan fits with the buffer and the rest. -/
lemma room_of_component {s : CleanState}
    (hroom : s.stpos.dropWhile (· = '/') = [] ∨
      (withSlash s.dest).length + (s.stpos.dropWhile (· = '/')).length < pathMax)
    (hcomp : (skipSlash s.stpos).1 ≠ []) :
    (withSlash s.dest).length + (skipSlash s.stpos).1.length + (skipSlash s.stpos).2.length <
      pathMax := by
  obtain ⟨happ, -, -⟩ := skipSlash_spec s.stpos
  rcases hroom with hnil | hlt
  · rw [← happ] at hnil
    exact absurd (List.append_eq_nil_iff.1 hnil).1 hcomp
  · rw [← happ, List.length_append] at hlt
    omega

/-- `.` and `..` do not lengthen the buffer. -/
lemma length_withSlash_ofContinue {stack : List (List Char)} {dest c d : List Char}
    (hdest : DestOf stack dest) (hc : doCleanPathContinue c dest = some d) :
    (withSlash d).length ≤ (withSlash dest).length := by
  have hd := hdest.ofContinue hc
  rw [hd.withSlash_eq, hdest.withSlash_eq, List.length_append, List.length_append]
  unfold doCleanPathContinue at hc
  unfold push
  split at hc
  · rw [if_pos ‹_›]
  · split at hc
    · rw [if_neg ‹_›, if_pos ‹_›]
      exact Nat.add_le_add_right (length_slashed_dropLast_le stack) _
    · cases hc

lemma cleanFits_step {s s' : CleanState} (hs : CleanFits s) (h : doCleanPathStep s = .inr s') :
    CleanFits s' := by
  obtain ⟨stack, hdest, hroom⟩ := hs
  unfold doCleanPathStep at h
  dsimp only at h
  split at h
  · cases h
  · split at h
    · cases h
    · rename_i hcomp
      obtain ⟨-, hslash, hrest⟩ := skipSlash_spec s.stpos
      have hfit := room_of_component hroom hcomp
      have hrestle := List.length_dropWhile_le (· = '/') (skipSlash s.stpos).2
      split at h
      · -- `.` or `..`: the buffer does not grow
        rename_i d hd
        cases h
        have hlen := length_withSlash_ofContinue hdest hd
        exact ⟨_, hdest.ofContinue hd, .inr (by dsimp only; omega)⟩
      · -- a name behind a slash: the slash after it is the one the rest begins with
        rename_i hd
        split at h
        · cases h
        · rename_i hge
          cases h
          obtain ⟨hdot, hdotdot⟩ := doCleanPathContinue_eq_none hd
          have hnew := hdest.name ⟨hcomp, hslash, hdot, hdotdot⟩
            (by rw [List.length_append]; omega)
          refine ⟨_, hnew, ?_⟩
          rcases hrest with hnil | hhead
          · exact .inl (by dsimp only; rw [hnil]; rfl)
          · right
            have hlt := length_dropWhile_slash_lt hhead
            dsimp only
            rw [hnew.withSlash_eq, slashed_append_singleton]
            rw [hdest.withSlash_eq] at hfit
            simp only [List.length_append, List.length_cons] at hfit ⊢
            omega

lemma doCleanPathStep_ne_none {s : CleanState} (hs : CleanFits s) :
    doCleanPathStep s ≠ .inl none := by
  obtain ⟨stack, hdest, hroom⟩ := hs
  intro h
  unfold doCleanPathStep at h
  dsimp only at h
  split at h
  · cases h
  · split at h
    · cases h
    · rename_i hcomp
      have hfit := room_of_component hroom hcomp
      split at h
      · cases h
      · split at h
        · rename_i hge
          omega
        · cases h

/-- With room for every component, the loop returns. -/
theorem doCleanPath_isSome {stpos dest : List Char} (h : CleanFits ⟨stpos, dest⟩) :
    (doCleanPath stpos dest).isSome := by
  unfold doCleanPath
  obtain ⟨r, hr⟩ := Option.isSome_iff_exists.1
    (Loop.run_isSome doCleanPathStep_decreases (⟨stpos, dest⟩ : CleanState))
  have hsome : r.isSome := Loop.run_invariant doCleanPathStep_decreases
    (I := CleanFits) (Q := fun r => r.isSome = true)
    (fun _ _ hs hstep => cleanFits_step hs hstep)
    (fun s a hs hdone => by
      cases a with
      | none => exact absurd hdone (doCleanPathStep_ne_none hs)
      | some d => rfl)
    h hr
  rw [hr]
  simpa using hsome

/-! ## What `cleanpath` returns -/

/-- Dropping the trailing slash after the loop. -/
def dropTrailingSlash (dest : List Char) : List Char :=
  if dest.length > 1 ∧ dest.getLast? = some '/' then dest.dropLast else dest

attribute [local simp] cleanpath dropTrailingSlash in
lemma cleanpath_eq_of_absolute {cwd p : List Char} (hp : p ≠ []) (habs : p.head? = some '/') :
    cleanpath cwd p = (doCleanPath p ['/']).map dropTrailingSlash := by
  unfold cleanpath
  rw [if_neg hp]
  simp only [habs, if_true]
  split <;> simp_all [dropTrailingSlash]

lemma cleanpath_eq_of_relative {cwd p : List Char} (hp : p ≠ []) (hrel : p.head? ≠ some '/')
    (hlen : p.length < pathMax - 1 - cwd.length) :
    cleanpath cwd p = (doCleanPath p cwd).map dropTrailingSlash := by
  unfold cleanpath
  rw [if_neg hp]
  simp only [hrel, if_false, ge_iff_le, Nat.not_le.2 hlen]
  split <;> simp_all [dropTrailingSlash]

lemma cleanpath_of_relative_long {cwd p : List Char} (hrel : p.head? ≠ some '/')
    (hlen : pathMax - 1 - cwd.length ≤ p.length) : cleanpath cwd p = none := by
  unfold cleanpath
  by_cases hp : p = []
  · rw [if_pos hp]
  · rw [if_neg hp]
    simp only [hrel, if_false, ge_iff_le, hlen, if_true]

lemma length_dropTrailingSlash_le (dest : List Char) :
    (dropTrailingSlash dest).length ≤ dest.length := by
  unfold dropTrailingSlash
  split
  · rw [List.length_dropLast]
    exact Nat.sub_le _ _
  · exact Nat.le_refl _

attribute [local simp] LexicalPath.lexicalClean in
/-- What `cleanpath` returns from a canonical working directory is the lexical normal form of
the path, a rendered stack of names that fits `PATH_MAX`. -/
theorem cleanpath_sound {cs : List (List Char)} (hcs : ∀ c ∈ cs, IsName c) {p q : List Char}
    (h : cleanpath (render cs) p = some q) :
    q = lexicalClean (render cs) p ∧ (∀ c ∈ normalize [] (components
      (if p.head? = some '/' then p else render cs ++ '/' :: p)), IsName c) ∧
      q.length < pathMax := by
  have hp : p ≠ [] := by
    rintro rfl
    simp [cleanpath] at h
  by_cases habs : p.head? = some '/'
  · rw [cleanpath_eq_of_absolute hp habs] at h
    obtain ⟨d, hd, rfl⟩ := Option.map_eq_some_iff.1 h
    have hD := doCleanPath_sound destOf_root hd
    have hlen := length_dropTrailingSlash_le d
    refine ⟨?_, ?_, by have := hD.fits; omega⟩
    · rw [lexicalClean, if_pos habs, ← hD.finish]
      rfl
    · rw [if_pos habs]
      exact hD.names
  · by_cases hlen : p.length < pathMax - 1 - (render cs).length
    · rw [cleanpath_eq_of_relative hp habs hlen] at h
      obtain ⟨d, hd, rfl⟩ := Option.map_eq_some_iff.1 h
      have hpos := List.length_pos_of_ne_nil hp
      have hD := doCleanPath_sound (destOf_render hcs (by omega)) hd
      have hdl := length_dropTrailingSlash_le d
      refine ⟨?_, ?_, by have := hD.fits; omega⟩
      · rw [lexicalClean, if_neg habs, normalize_render_append hcs, ← hD.finish]
        rfl
      · rw [if_neg habs, normalize_render_append hcs]
        exact hD.names
    · rw [cleanpath_of_relative_long habs (by omega)] at h
      cases h

lemma dropWhile_slash_of_head {p : List Char} (h : p.head? ≠ some '/') :
    p.dropWhile (· = '/') = p := by
  cases p with
  | nil => rfl
  | cons x xs =>
    have hx : x ≠ '/' := fun e => h (by simp [e])
    exact List.dropWhile_cons_of_neg (by simpa using hx)

lemma length_slashed_le_render (stack : List (List Char)) :
    (slashed stack).length ≤ (render stack).length := by
  unfold render
  split
  · subst_vars
    simp
  · exact Nat.le_refl _

attribute [local simp] withSlash in
/-- `cleanpath` returns for an absolute path shorter than `PATH_MAX`, and for a relative one
that passes its length test. -/
theorem cleanpath_isSome {cs : List (List Char)} (hcs : ∀ c ∈ cs, IsName c) {p : List Char}
    (hp : p ≠ [])
    (hlen : (p.head? = some '/' ∧ p.length < pathMax) ∨
      (p.head? ≠ some '/' ∧ p.length < pathMax - 1 - (render cs).length)) :
    (cleanpath (render cs) p).isSome := by
  rcases hlen with ⟨habs, hlen⟩ | ⟨hrel, hlen⟩
  · rw [cleanpath_eq_of_absolute hp habs, Option.isSome_map]
    apply doCleanPath_isSome
    refine ⟨[], destOf_root, .inr ?_⟩
    have hlt := length_dropWhile_slash_lt habs
    simp only [withSlash, List.getLast?_singleton, if_true, List.length_singleton]
    omega
  · rw [cleanpath_eq_of_relative hp hrel hlen, Option.isSome_map]
    apply doCleanPath_isSome
    have hpos := List.length_pos_of_ne_nil hp
    have hcwd := destOf_render hcs (by omega)
    refine ⟨cs, hcwd, .inr ?_⟩
    have hle := length_slashed_le_render cs
    simp only [hcwd.withSlash_eq, dropWhile_slash_of_head hrel, List.length_append,
      List.length_singleton]
    omega

/-- For every working directory `getcwd` can give (names behind slashes) and every non-empty
path: what `cleanpath` returns is the lexical normal form of the path (from the working
directory when relative), is normal, and cleans to itself; and it returns one for an absolute
path shorter than `PATH_MAX` and for a relative path that passes its length test. -/
theorem cleanpath_lexical_normal_form {cs : List (List Char)} (hcs : ∀ c ∈ cs, IsName c)
    {p : List Char} (hp : p ≠ []) :
    (∀ q, cleanpath (render cs) p = some q →
      q = lexicalClean (render cs) p ∧ IsNormal q ∧ cleanpath (render cs) q = some q) ∧
    ((p.head? = some '/' ∧ p.length < pathMax) ∨
        (p.head? ≠ some '/' ∧ p.length < pathMax - 1 - (render cs).length) →
      (cleanpath (render cs) p).isSome) := by
  refine ⟨fun q h => ?_, cleanpath_isSome hcs hp⟩
  obtain ⟨hq, hnames, hlen⟩ := cleanpath_sound hcs h
  have hrender : q = render (normalize [] (components
      (if p.head? = some '/' then p else render cs ++ '/' :: p))) := hq
  refine ⟨hq, hrender ▸ isNormal_render hnames, ?_⟩
  -- the result is absolute and short, so it cleans, and to its own normal form
  have habs : q.head? = some '/' := by rw [hrender]; exact head?_render _
  have hqne : q ≠ [] := fun e => by simp [e] at habs
  obtain ⟨q', hq'⟩ := Option.isSome_iff_exists.1 (cleanpath_isSome hcs hqne (.inl ⟨habs, hlen⟩))
  obtain ⟨hq'eq, -, -⟩ := cleanpath_sound hcs hq'
  rw [hq', hq'eq, lexicalClean, if_pos habs, hrender, normalize_render hnames]

theorem cleanpath_lexical_normal_form_home :
    (∀ c ∈ ["home".toList], IsName c) ∧ "a/../b".toList ≠ [] ∧
    ((∀ q, cleanpath (render ["home".toList]) "a/../b".toList = some q →
      q = lexicalClean (render ["home".toList]) "a/../b".toList ∧ IsNormal q ∧
        cleanpath (render ["home".toList]) q = some q) ∧
    (("a/../b".toList.head? = some '/' ∧ "a/../b".toList.length < pathMax) ∨
        ("a/../b".toList.head? ≠ some '/' ∧
          "a/../b".toList.length < pathMax - 1 - (render ["home".toList]).length) →
      (cleanpath (render ["home".toList]) "a/../b".toList).isSome)) :=
  ⟨by decide, by decide, cleanpath_lexical_normal_form (by decide) (by decide)⟩

/-! ## A component too long for the buffer -/

/-- An absolute path whose first component does not fit behind the leading slash. -/
lemma cleanpath_of_long_component (cwd : List Char) {c rest : List Char} (hc : IsName c)
    (hrest : rest = [] ∨ rest.head? = some '/') (hlong : pathMax ≤ c.length + 1) :
    cleanpath cwd ('/' :: c ++ rest) = none := by
  obtain ⟨hne, hslash, hdot, hdotdot⟩ := hc
  have hcont : doCleanPathContinue c ['/'] = none := by
    simp [doCleanPathContinue, hdot, hdotdot]
  have hstep : doCleanPathStep ⟨'/' :: c ++ rest, ['/']⟩ = .inl none := by
    unfold doCleanPathStep
    dsimp only
    rw [if_neg (by simp), skipSlash_of_component hne hslash hrest]
    dsimp only
    rw [if_neg hne, hcont]
    dsimp only
    rw [if_pos (by
      simp only [withSlash, List.getLast?_singleton, if_true, List.length_singleton]
      omega)]
  rw [cleanpath_eq_of_absolute (by simp) (by simp), doCleanPath,
    Loop.run_of_inl doCleanPathStep_decreases hstep]
  rfl

/-- A slash, `4095` times `a`, then `/..`. -/
def longThenParent : List Char := '/' :: List.replicate 4095 'a' ++ "/..".toList

/-- Its normal form is `/`, well inside `PATH_MAX`, but `cleanpath` refuses it (here from the
working directory `/`; it is absolute, so any other gives the same). -/
theorem cleanpath_refuses_long_component :
    cleanpath ['/'] longThenParent = none ∧ lexicalClean ['/'] longThenParent = ['/'] := by
  have hlen : (List.replicate 4095 'a').length = 4095 := List.length_replicate
  have hname : IsName (List.replicate 4095 'a') := by
    refine ⟨fun e => ?_, fun hm => ?_, fun e => ?_, fun e => ?_⟩
    · rw [List.replicate_eq_nil_iff] at e
      cases e
    · rw [List.mem_replicate] at hm
      cases hm.2
    · have := congrArg List.length e
      rw [hlen] at this
      cases this
    · have := congrArg List.length e
      rw [hlen] at this
      cases this
  refine ⟨cleanpath_of_long_component ['/'] hname (.inr rfl) (by rw [hlen]; decide), ?_⟩
  have hcomps : components longThenParent = [List.replicate 4095 'a', "..".toList] := by
    rw [longThenParent, List.cons_append, components_cons_slash,
      show "/..".toList = '/' :: "..".toList from rfl, components_append_slash,
      components_of_not_mem hname.2.1, if_neg hname.1, components_of_not_mem (by decide),
      if_neg (by decide)]
    rfl
  have hpush : push [] (List.replicate 4095 'a') = [List.replicate 4095 'a'] := by
    rw [push, if_neg hname.2.2.1, if_neg hname.2.2.2]
    rfl
  have hpop : push [List.replicate 4095 'a'] "..".toList = [] := by
    rw [push, if_neg (by decide), if_pos (show "..".toList = ['.', '.'] from rfl)]
    rfl
  rw [lexicalClean, if_pos (show longThenParent.head? = some '/' from rfl), hcomps,
    normalize_cons, normalize_cons, normalize_nil, hpush, hpop]
  rfl

end Path

end Isulad
