import Isulad.Framework.HostFs
import Mathlib.Data.List.TakeWhile

/-!
# The lexical normal form of a path

Without looking at the file system, a path names a place by its components (`components`):
`.` stays where it is, `..` goes up one directory but never above `/`, and any other
component goes down into it. Processing the components with a stack of directories
(`normalize`) and writing the stack out behind a leading slash (`render`) gives the path's
lexical normal form (`lexicalClean`): `/`, or names each behind one slash (`IsNormal`).

The facts a cleaning loop needs are here: how the components of a text split at a slash
(`components_append_slash`), that a rendered stack of names has those names as its components
(`components_render`), and that the normal form is normal (`isNormal_render`) and is its own
normal form (`normalize_render`).
-/

namespace LexicalPath

open HostFs (components)

/-- A name: a non-empty component without a slash that is neither `.` nor `..`. -/
def IsName (c : List Char) : Prop := c ≠ [] ∧ '/' ∉ c ∧ c ≠ ['.'] ∧ c ≠ ['.', '.']

instance (c : List Char) : Decidable (IsName c) := inferInstanceAs (Decidable (_ ∧ _ ∧ _ ∧ _))

/-! ## Components -/

/-- The components on either side of a slash. -/
lemma components_append_slash (x y : List Char) :
    components (x ++ '/' :: y) = components x ++ components y := by
  unfold components
  rw [List.splitOn, List.splitOnP_append_cons x y (by simp), List.filter_append]
  rfl

@[simp] lemma components_nil : components [] = [] := rfl

@[simp] lemma components_cons_slash (y : List Char) : components ('/' :: y) = components y := by
  simpa using components_append_slash [] y

/-- A text without a slash is one component, or none when empty. -/
lemma components_of_not_mem {w : List Char} (h : '/' ∉ w) :
    components w = if w = [] then [] else [w] := by
  unfold components
  have hw : ∀ c ∈ w, (c == '/') = false := by
    intro c hc
    have hne : c ≠ '/' := fun e => h (e ▸ hc)
    simpa using hne
  rw [List.splitOn, List.splitOnP_eq_singleton hw]
  split <;> simp_all

/-- Leading slashes do not change the components. -/
lemma components_dropWhile_slash (s : List Char) :
    components (s.dropWhile (· = '/')) = components s := by
  induction s with
  | nil => rfl
  | cons c s ih =>
    by_cases hc : c = '/'
    · rw [List.dropWhile_cons_of_pos (by simpa using hc), ih, hc, components_cons_slash]
    · rw [List.dropWhile_cons_of_neg (by simpa using hc)]

/-! ## The stack of directories -/

/-- One component on the stack: `.` stays, `..` pops (never above the root), a name is
pushed. -/
def push (stack : List (List Char)) (c : List Char) : List (List Char) :=
  if c = ['.'] then stack else if c = ['.', '.'] then stack.dropLast else stack ++ [c]

/-- The stack after the components, from `stack`. -/
def normalize (stack comps : List (List Char)) : List (List Char) := comps.foldl push stack

@[simp] lemma normalize_nil (stack : List (List Char)) : normalize stack [] = stack := rfl

@[simp] lemma normalize_cons (stack : List (List Char)) (c : List Char)
    (comps : List (List Char)) : normalize stack (c :: comps) = normalize (push stack c) comps :=
  rfl

lemma normalize_append (stack xs ys : List (List Char)) :
    normalize stack (xs ++ ys) = normalize (normalize stack xs) ys :=
  List.foldl_append

/-- Names are pushed as they are. -/
lemma normalize_of_names {names : List (List Char)} (h : ∀ c ∈ names, IsName c)
    (stack : List (List Char)) : normalize stack names = stack ++ names := by
  induction names generalizing stack with
  | nil => simp
  | cons c cs ih =>
    obtain ⟨-, -, hdot, hdotdot⟩ := h c List.mem_cons_self
    rw [normalize_cons, push, if_neg hdot, if_neg hdotdot,
      ih (fun c' hc' => h c' (List.mem_cons_of_mem _ hc'))]
    simp

/-! ## Writing the stack out -/

/-- The names each behind a slash. -/
def slashed (stack : List (List Char)) : List Char := (stack.map ('/' :: ·)).flatten

/-- The absolute path of a stack: `/` for the root. -/
def render (stack : List (List Char)) : List Char := if stack = [] then ['/'] else slashed stack

@[simp] lemma slashed_nil : slashed [] = [] := rfl

attribute [local simp] slashed in
lemma slashed_append_singleton (stack : List (List Char)) (x : List Char) :
    slashed (stack ++ [x]) = slashed stack ++ '/' :: x := by
  simp [slashed]

lemma slashed_cons (x : List Char) (stack : List (List Char)) :
    slashed (x :: stack) = '/' :: (x ++ slashed stack) := by
  simp [slashed]

/-- The components of names behind slashes are the names. -/
lemma components_slashed {stack : List (List Char)} (h : ∀ c ∈ stack, IsName c) :
    components (slashed stack) = stack := by
  induction stack with
  | nil => rfl
  | cons x xs ih =>
    obtain ⟨hne, hslash, -, -⟩ := h x List.mem_cons_self
    have hrest := ih fun c hc => h c (List.mem_cons_of_mem _ hc)
    rw [slashed_cons, components_cons_slash]
    cases xs with
    | nil => simp [components_of_not_mem hslash, hne]
    | cons y ys =>
      rw [slashed_cons, components_append_slash, components_of_not_mem hslash, if_neg hne]
      rw [slashed_cons, components_cons_slash] at hrest
      simp [hrest]

lemma components_render {stack : List (List Char)} (h : ∀ c ∈ stack, IsName c) :
    components (render stack) = stack := by
  unfold render
  split
  · subst_vars
    rfl
  · exact components_slashed h

/-- The normal form of a normal form is itself. -/
theorem normalize_render {stack : List (List Char)} (h : ∀ c ∈ stack, IsName c) :
    normalize [] (components (render stack)) = stack := by
  rw [components_render h, normalize_of_names h, List.nil_append]

/-- A normal absolute path: `/`, or a slash and then names separated by single slashes (so no
empty, `.` or `..` component and no trailing slash). -/
def IsNormal (q : List Char) : Prop :=
  q = ['/'] ∨ (q.head? = some '/' ∧ ∀ c ∈ (q.splitOn '/').tail, IsName c)

instance (q : List Char) : Decidable (IsNormal q) := inferInstanceAs (Decidable (_ ∨ _))

/-- The lexical normal form of a path: of the path itself when it is absolute, else of the
working directory `cwd`, a slash and the path. -/
def lexicalClean (cwd p : List Char) : List Char :=
  render (normalize [] (components (if p.head? = some '/' then p else cwd ++ '/' :: p)))

/-- A relative path taken from a canonical working directory starts from its names. -/
lemma normalize_render_append {cwd : List (List Char)} (h : ∀ c ∈ cwd, IsName c)
    (p : List Char) :
    normalize [] (components (render cwd ++ '/' :: p)) = normalize cwd (components p) := by
  rw [components_append_slash, components_render h, normalize_append, normalize_of_names h,
    List.nil_append]

@[simp] lemma head?_render (stack : List (List Char)) : (render stack).head? = some '/' := by
  unfold render
  split
  · rfl
  · rename_i hne
    obtain ⟨x, xs, rfl⟩ := List.exists_cons_of_ne_nil hne
    simp [slashed_cons]

lemma splitOn_slashed {stack : List (List Char)} (hne : stack ≠ []) (h : ∀ c ∈ stack, IsName c) :
    (slashed stack).splitOn '/' = [] :: stack := by
  induction stack with
  | nil => exact absurd rfl hne
  | cons x xs ih =>
    obtain ⟨-, hslash, -, -⟩ := h x List.mem_cons_self
    have hx : ∀ c ∈ x, (c == '/') = false := by
      intro c hc
      have hne : c ≠ '/' := fun e => hslash (e ▸ hc)
      simpa using hne
    rw [slashed_cons, List.splitOn, List.splitOnP_cons_eq_if_modifyHead, if_pos (by simp)]
    congr 1
    cases xs with
    | nil => simpa using List.splitOnP_eq_singleton hx
    | cons y ys =>
      have hrest := ih (List.cons_ne_nil _ _) fun c hc => h c (List.mem_cons_of_mem _ hc)
      rw [slashed_cons, List.splitOn, List.splitOnP_cons_eq_if_modifyHead, if_pos (by simp)]
        at hrest
      rw [slashed_cons, List.splitOnP_append_cons_of_forall_mem hx _ (by simp)]
      rw [List.cons.injEq] at hrest
      rw [hrest.2]

/-- A stack of names renders as a normal path. -/
theorem isNormal_render {stack : List (List Char)} (h : ∀ c ∈ stack, IsName c) :
    IsNormal (render stack) := by
  unfold render IsNormal
  split
  · exact .inl rfl
  · rename_i hne
    obtain ⟨x, xs, rfl⟩ := List.exists_cons_of_ne_nil hne
    refine .inr ⟨by simp [slashed_cons], ?_⟩
    rw [splitOn_slashed hne h]
    exact h

end LexicalPath
