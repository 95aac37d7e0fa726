import Isulad.Framework.Regex

/-!
# The `s/regex/replacement/` command

`s/regex/replacement/` without flags replaces the first match of the expression in the text:
the match that starts leftmost and, among those, is longest, as `regexec` reports it. The
replacement is a list of pieces, letters and `&`, which stands for the text matched.

`ends` of `Regex` gives the states a match of an expression reaches from a cut of the text, so
the longest match at a cut is the state with the shortest rest (`longestAt`), and the first
match is the first cut with one (`firstMatch`).

An expression of letters only matches exactly those letters (`ends_seq_chars`): its first match
in a text is the first place the letters stand, and the command replaces their first occurrence
(`subst_seq_chars_cons`).
-/

namespace Sed

open Regex

variable {α : Type} [DecidableEq α] (isWord : α → Bool)

/-- A piece of a replacement: a letter, or `&`, the text matched. -/
inductive Piece (α : Type)
  | lit (c : α)
  | matched
  deriving DecidableEq, Repr

/-- The text a replacement stands for once `u` has been matched. -/
def expand (repl : List (Piece α)) (u : List α) : List α :=
  repl.flatMap fun
    | .lit c => [c]
    | .matched => u

/-- The state among `S` with the shortest rest, the first of them on a tie. -/
def shortestRest (S : List (List α × List α)) : Option (List α × List α) :=
  S.foldl (fun best st =>
    match best with
    | none => some st
    | some b => if st.2.length < b.2.length then some st else some b) none

/-- The longest match of `r` from the cut `i` of `s`: the state it ends in. -/
def longestAt (r : Re α) (s : List α) (i : Nat) : Option (List α × List α) :=
  shortestRest (ends isWord s.length r [(s.take i, s.drop i)])

/-- The first match of `r` in `s`: the text before it, the text matched and the text after. -/
def firstMatch (r : Re α) (s : List α) : Option (List α × List α × List α) :=
  (List.range (s.length + 1)).findSome? fun i =>
    (longestAt isWord r s i).map fun st => (s.take i, st.1.drop i, st.2)

/-- `s/r/repl/`: the first match replaced, the text kept when there is none. -/
def subst (r : Re α) (repl : List (Piece α)) (s : List α) : List α :=
  match firstMatch isWord r s with
  | none => s
  | some (pre, u, post) => pre ++ expand repl u ++ post

variable {isWord}

/-! ## Expressions of letters only -/

/-- No state leads nowhere. -/
lemma ends_nil (n : Nat) (r : Re α) : ends isWord n r [] = [] := by
  induction r with
  | cat r q ihr ihq => simp [ends, ihr, ihq]
  | alt r q ihr ihq => simp [ends, ihr, ihq]
  | star r ihr =>
    simp only [ends]
    generalize n + 1 = k
    induction k with
    | zero => rfl
    | succ k ihk => simp [rounds, ihr, ihk]
  | _ => rfl

/-- From one state, an expression of letters leads only past those letters, where they stand. -/
lemma ends_seq_chars (n : Nat) (w : List α) :
    ∀ pre rest : List α, ends isWord n (seq (w.map .char)) [(pre, rest)] =
      if w <+: rest then [(pre ++ w, rest.drop w.length)] else [] := by
  induction w with
  | nil => intro pre rest; simp [ends]
  | cons c w ih =>
    intro pre rest
    cases rest with
    | nil => simp [ends, ends_nil]
    | cons x t =>
      by_cases hx : x = c
      · subst hx
        simp [ends, ih]
      · simp [ends, hx, Ne.symm hx, ends_nil]

/-- The longest match of an expression of letters at a cut: the letters, where they stand. -/
lemma longestAt_seq_chars (w s : List α) (i : Nat) :
    longestAt isWord (seq (w.map .char)) s i =
      if w <+: s.drop i then some (s.take i ++ w, (s.drop i).drop w.length) else none := by
  rw [longestAt, ends_seq_chars]
  split_ifs <;> rfl

lemma findSome?_map_option {β γ δ : Type} (f : β → Option γ) (g : γ → δ) (l : List β) :
    l.findSome? (fun b => (f b).map g) = (l.findSome? f).map g := by
  induction l with
  | nil => rfl
  | cons b l ih =>
    rw [List.findSome?_cons, List.findSome?_cons]
    cases f b <;> simp [ih]

attribute [local simp] firstMatch in
/-- The first match of letters in a text: at its start if they stand there, else one letter
further on. -/
lemma firstMatch_seq_chars_cons {w : List α} (hw : w ≠ []) (c : α) (cs : List α) :
    firstMatch isWord (seq (w.map .char)) (c :: cs) =
      if w <+: c :: cs then some ([], w, (c :: cs).drop w.length)
      else (firstMatch isWord (seq (w.map .char)) cs).map fun m => (c :: m.1, m.2) := by
  have hshift : ∀ i, (longestAt isWord (seq (w.map .char)) (c :: cs) (i + 1)).map
      (fun st => ((c :: cs).take (i + 1), st.1.drop (i + 1), st.2)) =
      ((longestAt isWord (seq (w.map .char)) cs i).map
        (fun st => (cs.take i, st.1.drop i, st.2))).map (fun m => (c :: m.1, m.2)) := by
    intro i
    rw [longestAt_seq_chars, longestAt_seq_chars, List.drop_succ_cons, List.take_succ_cons]
    split_ifs with h
    · have hi : (cs.take i).length = i := List.length_take_of_le (by
        by_contra hlt
        rw [List.drop_eq_nil_of_le (by omega)] at h
        exact hw (List.prefix_nil.mp h))
      simp [hi]
    · rfl
  rw [firstMatch, List.length_cons, List.range_succ_eq_map, List.findSome?_cons,
    List.findSome?_map, longestAt_seq_chars]
  simp only [List.drop_zero, List.take_zero, List.nil_append, Function.comp_def, hshift,
    findSome?_map_option]
  split_ifs <;> simp [firstMatch]

/-- `s/letters/repl/` replaces the first occurrence of the letters. -/
theorem subst_seq_chars_cons {w : List α} (hw : w ≠ []) (repl : List (Piece α)) (c : α)
    (cs : List α) :
    subst isWord (seq (w.map .char)) repl (c :: cs) =
      if w <+: c :: cs then expand repl w ++ (c :: cs).drop w.length
      else c :: subst isWord (seq (w.map .char)) repl cs := by
  unfold subst
  rw [firstMatch_seq_chars_cons hw]
  split_ifs
  · simp
  · cases firstMatch isWord (seq (w.map .char)) cs <;> simp

lemma subst_seq_chars_nil {w : List α} (hw : w ≠ []) (repl : List (Piece α)) :
    subst isWord (seq (w.map .char)) repl [] = [] := by
  simp [subst, firstMatch, longestAt_seq_chars, List.prefix_nil, hw]

end Sed
