import Mathlib.Data.List.Basic

/-!
# Regular expressions with anchors and word boundaries, and wildcards

An expression over letters of `α` is built from letters, classes of letters, any letter,
concatenation, alternation and repetition, with the zero-width assertions of POSIX extended
expressions and their GNU extensions: `^` and `$`, start of word (`\<`) and end of word (`\>`).
`Matches isWord pre u post r` says that `r` matches the text `u` standing between `pre` and
`post`; an assertion reads the letter before the position (the last of `pre`) and the letter
after it (the first of `post`), a word letter being one that `isWord` accepts. `Search isWord r s`
says that some part of `s` matches `r`, which is what `regexec` reports.

`search` decides `Search` (`search_iff`): it carries the states `(before, rest)` reached after
each part of the expression, a repetition taking at most one round more than the text has
letters.

A wildcard is a list of letters, `?` (any one letter) and `*` (any text). Translated piece by
piece into an expression, `*` into any letter repeated, it matches exactly the texts the wildcard
matches (`matches_seq_toRe`); between `^` and `$` a search is a match of the whole text
(`search_anchored`).
-/

namespace Regex

universe u

variable {α : Type u}

/-- Expressions. -/
inductive Re (α : Type u)
  | eps
  | char (c : α)
  | oneOf (cs : List α)
  | any
  | cat (r q : Re α)
  | alt (r q : Re α)
  | star (r : Re α)
  | bol
  | eol
  | wordStart
  | wordEnd
  deriving DecidableEq, Repr

/-- The expressions of a list, one after another. -/
def seq : List (Re α) → Re α
  | [] => .eps
  | r :: rs => .cat r (seq rs)

/-- Whether the letter on one side of a position is a word letter; there is none at the ends of
the text. -/
def wordAt (isWord : α → Bool) : Option α → Bool
  | none => false
  | some c => isWord c

section Semantics

variable (isWord : α → Bool)

/-- `Matches isWord pre u post r`: `r` matches `u`, with `pre` before it and `post` after it. -/
inductive Matches : List α → List α → List α → Re α → Prop
  | eps {pre post : List α} : Matches pre [] post .eps
  | char {pre post : List α} {c : α} : Matches pre [c] post (.char c)
  | oneOf {pre post : List α} {c : α} {cs : List α} : c ∈ cs → Matches pre [c] post (.oneOf cs)
  | any {pre post : List α} {c : α} : Matches pre [c] post .any
  | cat {pre u v post : List α} {r q : Re α} : Matches pre u (v ++ post) r →
      Matches (pre ++ u) v post q → Matches pre (u ++ v) post (.cat r q)
  | altLeft {pre u post : List α} {r q : Re α} : Matches pre u post r →
      Matches pre u post (.alt r q)
  | altRight {pre u post : List α} {r q : Re α} : Matches pre u post q →
      Matches pre u post (.alt r q)
  | starNil {pre post : List α} {r : Re α} : Matches pre [] post (.star r)
  | starCons {pre u v post : List α} {r : Re α} : Matches pre u (v ++ post) r →
      Matches (pre ++ u) v post (.star r) → Matches pre (u ++ v) post (.star r)
  | bol {post : List α} : Matches [] [] post .bol
  | eol {pre : List α} : Matches pre [] [] .eol
  | wordStart {pre post : List α} : wordAt isWord pre.getLast? = false →
      wordAt isWord post.head? = true → Matches pre [] post .wordStart
  | wordEnd {pre post : List α} : wordAt isWord pre.getLast? = true →
      wordAt isWord post.head? = false → Matches pre [] post .wordEnd

/-- Some part of `s` matches `r`. -/
def Search (r : Re α) (s : List α) : Prop :=
  ∃ pre u post, s = pre ++ u ++ post ∧ Matches isWord pre u post r

variable {isWord} {pre u post : List α}

/-! ## One lemma per constructor -/

@[simp] lemma matches_eps_iff : Matches isWord pre u post .eps ↔ u = [] := by
  constructor
  · rintro ⟨⟩
    rfl
  · rintro rfl
    exact .eps

@[simp] lemma matches_char_iff {c : α} : Matches isWord pre u post (.char c) ↔ u = [c] := by
  constructor
  · rintro ⟨⟩
    rfl
  · rintro rfl
    exact .char

@[simp] lemma matches_oneOf_iff {cs : List α} :
    Matches isWord pre u post (.oneOf cs) ↔ ∃ c ∈ cs, u = [c] := by
  constructor
  · intro h
    cases h with
    | oneOf hc => exact ⟨_, hc, rfl⟩
  · rintro ⟨c, hc, rfl⟩
    exact .oneOf hc

@[simp] lemma matches_any_iff : Matches isWord pre u post .any ↔ ∃ c, u = [c] := by
  constructor
  · rintro ⟨⟩
    exact ⟨_, rfl⟩
  · rintro ⟨c, rfl⟩
    exact .any

lemma matches_cat_iff {r q : Re α} :
    Matches isWord pre u post (.cat r q) ↔ ∃ u₁ u₂, u = u₁ ++ u₂ ∧
      Matches isWord pre u₁ (u₂ ++ post) r ∧ Matches isWord (pre ++ u₁) u₂ post q := by
  constructor
  · intro h
    cases h with
    | cat h₁ h₂ => exact ⟨_, _, rfl, h₁, h₂⟩
  · rintro ⟨u₁, u₂, rfl, h₁, h₂⟩
    exact .cat h₁ h₂

@[simp] lemma matches_alt_iff {r q : Re α} :
    Matches isWord pre u post (.alt r q) ↔
      Matches isWord pre u post r ∨ Matches isWord pre u post q := by
  constructor
  · intro h
    cases h with
    | altLeft h => exact .inl h
    | altRight h => exact .inr h
  · rintro (h | h)
    · exact .altLeft h
    · exact .altRight h

@[simp] lemma matches_bol_iff : Matches isWord pre u post .bol ↔ pre = [] ∧ u = [] := by
  constructor
  · rintro ⟨⟩
    exact ⟨rfl, rfl⟩
  · rintro ⟨rfl, rfl⟩
    exact .bol

@[simp] lemma matches_eol_iff : Matches isWord pre u post .eol ↔ post = [] ∧ u = [] := by
  constructor
  · rintro ⟨⟩
    exact ⟨rfl, rfl⟩
  · rintro ⟨rfl, rfl⟩
    exact .eol

@[simp] lemma matches_wordStart_iff : Matches isWord pre u post .wordStart ↔
    u = [] ∧ wordAt isWord pre.getLast? = false ∧ wordAt isWord post.head? = true := by
  constructor
  · intro h
    cases h with
    | wordStart h₁ h₂ => exact ⟨rfl, h₁, h₂⟩
  · rintro ⟨rfl, h₁, h₂⟩
    exact .wordStart h₁ h₂

@[simp] lemma matches_wordEnd_iff : Matches isWord pre u post .wordEnd ↔
    u = [] ∧ wordAt isWord pre.getLast? = true ∧ wordAt isWord post.head? = false := by
  constructor
  · intro h
    cases h with
    | wordEnd h₁ h₂ => exact ⟨rfl, h₁, h₂⟩
  · rintro ⟨rfl, h₁, h₂⟩
    exact .wordEnd h₁ h₂

/-- Any letter repeated matches every text. -/
lemma matches_star_any (pre u post : List α) : Matches isWord pre u post (.star .any) := by
  induction u generalizing pre with
  | nil => exact .starNil
  | cons c u ih => exact Matches.starCons Matches.any (ih (pre ++ [c]))

/-! ## Sequences -/

@[simp] lemma seq_nil : seq ([] : List (Re α)) = .eps := rfl

@[simp] lemma seq_cons (r : Re α) (rs : List (Re α)) : seq (r :: rs) = .cat r (seq rs) := rfl

/-- A sequence of two lists matches a text cut in two. -/
lemma matches_seq_append (rs qs : List (Re α)) :
    Matches isWord pre u post (seq (rs ++ qs)) ↔ ∃ u₁ u₂, u = u₁ ++ u₂ ∧
      Matches isWord pre u₁ (u₂ ++ post) (seq rs) ∧
        Matches isWord (pre ++ u₁) u₂ post (seq qs) := by
  induction rs generalizing pre u with
  | nil => simp
  | cons r rs ih =>
    rw [List.cons_append, seq_cons, seq_cons, matches_cat_iff]
    constructor
    · rintro ⟨a, b, rfl, ha, hb⟩
      obtain ⟨b₁, b₂, rfl, hb₁, hb₂⟩ := ih.1 hb
      refine ⟨a ++ b₁, b₂, by rw [List.append_assoc], ?_, by simpa only [List.append_assoc] using hb₂⟩
      exact matches_cat_iff.2 ⟨a, b₁, rfl, by simpa only [List.append_assoc] using ha, hb₁⟩
    · rintro ⟨u₁, u₂, rfl, h₁, h₂⟩
      obtain ⟨a, b₁, rfl, ha, hb₁⟩ := matches_cat_iff.1 h₁
      refine ⟨a, b₁ ++ u₂, by rw [List.append_assoc], by simpa only [List.append_assoc] using ha, ?_⟩
      exact ih.2 ⟨b₁, u₂, rfl, hb₁, by simpa only [List.append_assoc] using h₂⟩

/-- One expression is a sequence of one. -/
lemma matches_seq_singleton {r : Re α} (h : Matches isWord pre u post r) :
    Matches isWord pre u post (seq [r]) := by
  have h' : Matches isWord pre (u ++ []) post (seq [r]) := .cat (v := []) h .eps
  rwa [List.append_nil] at h'

/-- A text each of whose letters matches `r` matches `r` once per letter. -/
lemma matches_seq_replicate {r : Re α} (u : List α)
    (hr : ∀ c ∈ u, ∀ pre post, Matches isWord pre [c] post r) :
    Matches isWord pre u post (seq (List.replicate u.length r)) := by
  induction u generalizing pre with
  | nil => exact .eps
  | cons c u ih =>
    exact .cat (u := [c]) (hr c List.mem_cons_self _ _)
      (ih (fun d hd => hr d (List.mem_cons_of_mem c hd)))

/-- Between `^` and `$`, a search is a match of the whole text. -/
theorem search_anchored (rs : List (Re α)) (s : List α) :
    Search isWord (seq (.bol :: rs ++ [.eol])) s ↔ Matches isWord [] s [] (seq rs) := by
  constructor
  · rintro ⟨pre, u, post, rfl, h⟩
    rw [List.cons_append, seq_cons, matches_cat_iff] at h
    obtain ⟨a, b, rfl, ha, hb⟩ := h
    obtain ⟨rfl, rfl⟩ := matches_bol_iff.1 ha
    obtain ⟨b₁, b₂, rfl, hb₁, hb₂⟩ := (matches_seq_append rs [.eol]).1 hb
    obtain ⟨c₁, c₂, rfl, hc₁, -⟩ := matches_cat_iff.1 hb₂
    obtain ⟨hpost, rfl⟩ := matches_eol_iff.1 hc₁
    obtain ⟨rfl, rfl⟩ := List.append_eq_nil_iff.1 hpost
    simpa using hb₁
  · intro h
    refine ⟨[], s, [], by simp, ?_⟩
    rw [List.cons_append, seq_cons]
    refine .cat (u := []) .bol ((matches_seq_append rs [.eol]).2 ⟨s, [], by simp, by simpa, ?_⟩)
    exact .cat (u := []) .eol .eps

end Semantics

/-! ## Wildcards -/

/-- A piece of a wildcard: a letter, any one letter (`?`), or any text (`*`). -/
inductive Glob (α : Type u)
  | lit (c : α)
  | one
  | many
  deriving DecidableEq, Repr

/-- The expression a piece of a wildcard stands for. -/
def Glob.toRe : Glob α → Re α
  | .lit c => .char c
  | .one => .any
  | .many => .star .any

/-- The texts a wildcard matches. -/
inductive GlobMatches : List (Glob α) → List α → Prop
  | nil : GlobMatches [] []
  | lit {g : List (Glob α)} {v : List α} {c : α} : GlobMatches g v →
      GlobMatches (.lit c :: g) (c :: v)
  | one {g : List (Glob α)} {v : List α} {c : α} : GlobMatches g v →
      GlobMatches (.one :: g) (c :: v)
  | many {g : List (Glob α)} {u v : List α} : GlobMatches g v → GlobMatches (.many :: g) (u ++ v)

section GlobLemmas

variable {g : List (Glob α)} {u : List α}

@[simp] lemma globMatches_nil_iff : GlobMatches ([] : List (Glob α)) u ↔ u = [] := by
  constructor
  · rintro ⟨⟩
    rfl
  · rintro rfl
    exact .nil

@[simp] lemma globMatches_lit_iff {c : α} :
    GlobMatches (.lit c :: g) u ↔ ∃ v, u = c :: v ∧ GlobMatches g v := by
  constructor
  · rintro ⟨⟩
    exact ⟨_, rfl, ‹_›⟩
  · rintro ⟨v, rfl, h⟩
    exact .lit h

@[simp] lemma globMatches_one_iff :
    GlobMatches (.one :: g) u ↔ ∃ c v, u = c :: v ∧ GlobMatches g v := by
  constructor
  · rintro ⟨⟩
    exact ⟨_, _, rfl, ‹_›⟩
  · rintro ⟨c, v, rfl, h⟩
    exact .one h

@[simp] lemma globMatches_many_iff :
    GlobMatches (.many :: g) u ↔ ∃ v w, u = v ++ w ∧ GlobMatches g w := by
  constructor
  · rintro ⟨⟩
    exact ⟨_, _, rfl, ‹_›⟩
  · rintro ⟨v, w, rfl, h⟩
    exact .many h

/-- A wildcard translated piece by piece matches exactly the texts the wildcard matches, whatever
stands around them. -/
theorem matches_seq_toRe (isWord : α → Bool) (g : List (Glob α)) (pre u post : List α) :
    Matches isWord pre u post (seq (g.map Glob.toRe)) ↔ GlobMatches g u := by
  -- induction on the wildcard, one piece of text per piece of wildcard
  induction g generalizing pre u with
  | nil => simp
  | cons x g ih =>
    rw [List.map_cons, seq_cons, matches_cat_iff]
    cases x with
    | lit c =>
      simp only [Glob.toRe, matches_char_iff, globMatches_lit_iff, ih]
      constructor
      · rintro ⟨_, v, rfl, rfl, h⟩
        exact ⟨v, rfl, h⟩
      · rintro ⟨v, rfl, h⟩
        exact ⟨[c], v, rfl, rfl, h⟩
    | one =>
      simp only [Glob.toRe, matches_any_iff, globMatches_one_iff, ih]
      constructor
      · rintro ⟨_, v, rfl, ⟨c, rfl⟩, h⟩
        exact ⟨c, v, rfl, h⟩
      · rintro ⟨c, v, rfl, h⟩
        exact ⟨[c], v, rfl, ⟨c, rfl⟩, h⟩
    | many =>
      simp only [Glob.toRe, globMatches_many_iff, ih]
      constructor
      · rintro ⟨v, w, rfl, -, h⟩
        exact ⟨v, w, rfl, h⟩
      · rintro ⟨v, w, rfl, h⟩
        exact ⟨v, w, rfl, matches_star_any _ _ _, h⟩

end GlobLemmas

/-! ## Deciding a search -/

section Decide

variable (isWord : α → Bool)

/-- The states `f` leads to from `S` in at most `k` rounds, `S` included. -/
def rounds (f : List (List α × List α) → List (List α × List α)) :
    Nat → List (List α × List α) → List (List α × List α)
  | 0, S => S
  | k + 1, S => S ++ rounds f k (f S)

/-- The states a match of `r` leads to from a state of `S`. -/
def Leads (S : List (List α × List α)) (r : Re α) (st : List α × List α) : Prop :=
  ∃ pre u, (pre, u ++ st.2) ∈ S ∧ st.1 = pre ++ u ∧ Matches isWord pre u st.2 r

/-- The states whose rest is at most `n` letters long. -/
def Bounded (n : Nat) (S : List (List α × List α)) : Prop := ∀ st ∈ S, st.2.length ≤ n

variable {isWord}

/-- Every state `rounds` reaches is reached by a repetition. -/
lemma rounds_sound {r : Re α} {f : List (List α × List α) → List (List α × List α)}
    (hf : ∀ S st, st ∈ f S → Leads isWord S r st) (k : Nat) (S : List (List α × List α))
    (st : List α × List α) (h : st ∈ rounds f k S) : Leads isWord S (.star r) st := by
  -- induction on the rounds, the states of the first round standing in for `S`
  induction k generalizing S with
  | zero => exact ⟨st.1, [], by simpa [rounds] using h, by simp, .starNil⟩
  | succ k ih =>
    rcases List.mem_append.1 h with h | h
    · exact ⟨st.1, [], by simpa using h, by simp, .starNil⟩
    · obtain ⟨pre₁, u₂, hmem, hst, hm₂⟩ := ih (f S) h
      obtain ⟨pre, u₁, hmem₁, rfl, hm₁⟩ := hf S _ hmem
      refine ⟨pre, u₁ ++ u₂, by simpa using hmem₁, by simp [hst], .starCons hm₁ hm₂⟩

/-- A repetition whose text is shorter than `k` is reached within `k` rounds, provided `f`
reaches every match of the repeated expression and keeps the bound. -/
lemma rounds_complete {n : Nat} {r : Re α} {f : List (List α × List α) → List (List α × List α)}
    (hf : ∀ S, Bounded n S → ∀ pre u post, (pre, u ++ post) ∈ S →
      Matches isWord pre u post r → (pre ++ u, post) ∈ f S)
    (hfS : ∀ S, Bounded n S → Bounded n (f S)) {pre u post : List α}
    (h : Matches isWord pre u post (.star r)) :
    ∀ k S, Bounded n S → (pre, u ++ post) ∈ S → u.length < k → (pre ++ u, post) ∈ rounds f k S := by
  -- induction on the derivation of the repetition; an empty round is skipped
  generalize hR : Re.star r = R at h
  induction h with
  | starNil =>
    intro k S _ hmem hk
    rw [List.length_nil] at hk
    obtain ⟨k, rfl⟩ : ∃ k', k = k' + 1 := ⟨k - 1, by omega⟩
    exact List.mem_append.2 (.inl (by simpa using hmem))
  | @starCons pre u₁ u₂ post r' h₁ _ _ ih₂ =>
    cases hR
    intro k S hS hmem hk
    by_cases hu : u₁ = []
    · subst hu
      simpa using ih₂ rfl k S hS (by simpa using hmem) (by simpa using hk)
    · have hlen : 0 < u₁.length := List.length_pos_iff.2 hu
      have hmid : (pre ++ u₁, u₂ ++ post) ∈ f S := hf S hS pre u₁ (u₂ ++ post) (by simpa using hmem) h₁
      rw [List.length_append] at hk
      obtain ⟨k, rfl⟩ : ∃ k', k = k' + 1 := ⟨k - 1, by omega⟩
      have hrest := ih₂ rfl k (f S) (hfS S hS) hmid (by omega)
      exact List.mem_append.2 (.inr (by simpa using hrest))
  | _ => cases hR

variable [DecidableEq α] (isWord)

/-- The states `(before, rest)` that a match of `r` leads to from the states of `S`, a
repetition taking at most `n + 1` rounds. -/
def ends (n : Nat) : Re α → List (List α × List α) → List (List α × List α)
  | .eps, S => S
  | .char c, S => S.filterMap fun st =>
      match st.2 with
      | x :: t => if x = c then some (st.1 ++ [x], t) else none
      | [] => none
  | .oneOf cs, S => S.filterMap fun st =>
      match st.2 with
      | x :: t => if x ∈ cs then some (st.1 ++ [x], t) else none
      | [] => none
  | .any, S => S.filterMap fun st =>
      match st.2 with
      | x :: t => some (st.1 ++ [x], t)
      | [] => none
  | .cat r q, S => ends n q (ends n r S)
  | .alt r q, S => ends n r S ++ ends n q S
  | .star r, S => rounds (ends n r) (n + 1) S
  | .bol, S => S.filter fun st => st.1.isEmpty
  | .eol, S => S.filter fun st => st.2.isEmpty
  | .wordStart, S =>
    S.filter fun st => !wordAt isWord st.1.getLast? && wordAt isWord st.2.head?
  | .wordEnd, S =>
    S.filter fun st => wordAt isWord st.1.getLast? && !wordAt isWord st.2.head?

/-- Whether some part of `s` matches `r`: a match from some cut of `s`. -/
def search (r : Re α) (s : List α) : Bool :=
  (List.range (s.length + 1)).any fun i => !(ends isWord s.length r [(s.take i, s.drop i)]).isEmpty

variable {isWord}

attribute [local simp] ends in
/-- Every state `ends` gives is reached by a match. -/
lemma ends_sound (n : Nat) (r : Re α) (S : List (List α × List α)) (st : List α × List α)
    (h : st ∈ ends isWord n r S) : Leads isWord S r st := by
  induction r generalizing S st with
  | eps => exact ⟨st.1, [], by simpa [ends] using h, by simp, .eps⟩
  | char c =>
    obtain ⟨⟨pre, rest⟩, hmem, hst⟩ := List.mem_filterMap.1 h
    cases rest with
    | nil => cases hst
    | cons x t =>
      by_cases hx : x = c
      · subst hx
        simp only [if_true, Option.some.injEq] at hst
        subst hst
        exact ⟨pre, [x], hmem, rfl, .char⟩
      · simp [hx] at hst
  | oneOf cs =>
    obtain ⟨⟨pre, rest⟩, hmem, hst⟩ := List.mem_filterMap.1 h
    cases rest with
    | nil => cases hst
    | cons x t =>
      by_cases hx : x ∈ cs
      · simp only [hx, if_true, Option.some.injEq] at hst
        subst hst
        exact ⟨pre, [x], hmem, rfl, .oneOf hx⟩
      · simp [hx] at hst
  | any =>
    obtain ⟨⟨pre, rest⟩, hmem, hst⟩ := List.mem_filterMap.1 h
    cases rest with
    | nil => cases hst
    | cons x t =>
      simp only [Option.some.injEq] at hst
      subst hst
      exact ⟨pre, [x], hmem, rfl, .any⟩
  | cat r q ihr ihq =>
    obtain ⟨pre₁, u₂, hmem, hst, hm₂⟩ := ihq _ _ h
    obtain ⟨pre, u₁, hmem₁, rfl, hm₁⟩ := ihr _ _ hmem
    exact ⟨pre, u₁ ++ u₂, by simpa using hmem₁, by simp [hst], .cat hm₁ hm₂⟩
  | alt r q ihr ihq =>
    rcases List.mem_append.1 h with h | h
    · obtain ⟨pre, u, hmem, hst, hm⟩ := ihr _ _ h
      exact ⟨pre, u, hmem, hst, .altLeft hm⟩
    · obtain ⟨pre, u, hmem, hst, hm⟩ := ihq _ _ h
      exact ⟨pre, u, hmem, hst, .altRight hm⟩
  | star r ihr => exact rounds_sound ihr (n + 1) S st h
  | bol =>
    obtain ⟨hmem, hpre⟩ := List.mem_filter.1 h
    refine ⟨st.1, [], by simpa using hmem, by simp, ?_⟩
    simpa using hpre
  | eol =>
    obtain ⟨hmem, hpost⟩ := List.mem_filter.1 h
    refine ⟨st.1, [], by simpa using hmem, by simp, ?_⟩
    simpa using hpost
  | wordStart =>
    obtain ⟨hmem, hw⟩ := List.mem_filter.1 h
    refine ⟨st.1, [], by simpa using hmem, by simp, ?_⟩
    simpa using hw
  | wordEnd =>
    obtain ⟨hmem, hw⟩ := List.mem_filter.1 h
    refine ⟨st.1, [], by simpa using hmem, by simp, ?_⟩
    simpa using hw

lemma bounded_ends {n : Nat} {S : List (List α × List α)} (hS : Bounded n S) (r : Re α) :
    Bounded n (ends isWord n r S) := by
  intro st h
  obtain ⟨pre, u, hmem, -, -⟩ := ends_sound n r S st h
  have hlen := hS _ hmem
  simp only [List.length_append] at hlen
  omega

/-- From a bounded set of states, `ends` reaches every match. -/
lemma ends_complete {n : Nat} (r : Re α) {S : List (List α × List α)} (hS : Bounded n S)
    {pre u post : List α} (hmem : (pre, u ++ post) ∈ S) (h : Matches isWord pre u post r) :
    (pre ++ u, post) ∈ ends isWord n r S := by
  induction r generalizing S pre u post with
  | eps =>
    rw [matches_eps_iff] at h
    subst h
    simpa [ends] using hmem
  | char c =>
    rw [matches_char_iff] at h
    subst h
    exact List.mem_filterMap.2 ⟨_, hmem, by simp⟩
  | oneOf cs =>
    obtain ⟨c, hc, rfl⟩ := matches_oneOf_iff.1 h
    exact List.mem_filterMap.2 ⟨_, hmem, by simp [hc]⟩
  | any =>
    obtain ⟨c, rfl⟩ := matches_any_iff.1 h
    exact List.mem_filterMap.2 ⟨_, hmem, by simp⟩
  | cat r q ihr ihq =>
    obtain ⟨u₁, u₂, rfl, h₁, h₂⟩ := matches_cat_iff.1 h
    have hmid := ihr hS (by simpa using hmem) h₁
    have hend := ihq (bounded_ends hS r) hmid h₂
    rw [List.append_assoc] at hend
    exact hend
  | alt r q ihr ihq =>
    rcases matches_alt_iff.1 h with h | h
    · exact List.mem_append.2 (.inl (ihr hS hmem h))
    · exact List.mem_append.2 (.inr (ihq hS hmem h))
  | star r ihr =>
    have hlen : (u ++ post).length ≤ n := hS _ hmem
    refine rounds_complete (fun S hS _ _ _ hmem h => ihr hS hmem h) (fun S hS => bounded_ends hS r)
      h (n + 1) S hS hmem ?_
    simp only [List.length_append] at hlen
    omega
  | bol =>
    obtain ⟨rfl, rfl⟩ := matches_bol_iff.1 h
    exact List.mem_filter.2 ⟨hmem, rfl⟩
  | eol =>
    obtain ⟨rfl, rfl⟩ := matches_eol_iff.1 h
    exact List.mem_filter.2 ⟨by simpa using hmem, rfl⟩
  | wordStart =>
    obtain ⟨rfl, h₁, h₂⟩ := matches_wordStart_iff.1 h
    exact List.mem_filter.2 ⟨by simpa using hmem, by simp [h₁, h₂]⟩
  | wordEnd =>
    obtain ⟨rfl, h₁, h₂⟩ := matches_wordEnd_iff.1 h
    exact List.mem_filter.2 ⟨by simpa using hmem, by simp [h₁, h₂]⟩

/-- `search` decides `Search`. -/
theorem search_iff (r : Re α) (s : List α) : search isWord r s = true ↔ Search isWord r s := by
  unfold search
  rw [List.any_eq_true]
  constructor
  · rintro ⟨i, -, hi⟩
    obtain ⟨st, hst⟩ := List.exists_mem_of_ne_nil _ (by simpa using hi)
    obtain ⟨pre, u, hmem, -, hm⟩ := ends_sound s.length r _ st hst
    simp only [List.mem_singleton, Prod.mk.injEq] at hmem
    refine ⟨pre, u, st.2, ?_, hm⟩
    rw [List.append_assoc, hmem.1, hmem.2, List.take_append_drop]
  · rintro ⟨pre, u, post, rfl, hm⟩
    have hbound : Bounded (pre ++ u ++ post).length [(pre, u ++ post)] := by
      intro st hst
      simp only [List.mem_singleton] at hst
      subst hst
      simp
    refine ⟨pre.length, List.mem_range.2 (by simp only [List.length_append]; omega), ?_⟩
    have hcut : ((pre ++ u ++ post).take pre.length, (pre ++ u ++ post).drop pre.length) =
        (pre, u ++ post) := by simp
    rw [hcut]
    have hend := ends_complete r hbound (List.mem_singleton_self _) hm
    simpa using List.ne_nil_of_mem hend

end Decide

end Regex
