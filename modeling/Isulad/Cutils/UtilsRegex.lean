import Isulad.Framework.Regex
import Isulad.Cutils.UtilsString

/-!
# Wildcards as regular expressions (`utils_regex.c`)

The `reference` filter of the image list takes a wildcard, and `util_wildcard_to_regex` turns it
into an extended regular expression for `util_reg_match`: `^`, then each character of the
wildcard (`*` becomes `.*`, `?` becomes `.`, a character of a fixed list is escaped with a
backslash, any other stands for itself), then `$`. `get_regex_size_from_wildcard` computes the
buffer first: one byte more than the text written, whatever the wildcard
(`utilWildcardToRegex_size`).

`util_reg_match` compiles the text with `regcomp(..., REG_EXTENDED)` and runs `regexec`; the
model reads the text into the expressions of `Regex` and searches with `Regex.search`. On a
wildcard without `<` and `>` the expression matches exactly the texts the wildcard matches
(`utilRegMatch_wildcard`). But `<` and `>` are in the list of escapes, and with glibc `\<` and
`\>` are the start and the end of a word, which match no character: the wildcard `a<b` does not
match the text `a<b`, and `<a` matches `a` (`utilWildcardToRegex_word_boundary`).

`regcomp` is modelled on the patterns made of characters, escaped special characters, `\<`,
`\>`, `.`, `^`, `$` and a `*` after a character or `.`, which are all that
`util_wildcard_to_regex` writes; on any other pattern the model has no answer (`none`).
-/

namespace Isulad

namespace Cutils

open Regex

/-! ## `util_wildcard_to_regex` -/

/-- The `escapes` of `util_wildcard_to_regex`. -/
def regexEscapes : List Char :=
  ['$', '^', '[', ']', '(', ')', '{', '|', '+', '\\', '.', '<', '>', '}']

/-- `strings_count(str, c)`. -/
def stringsCount (str : List Char) (c : Char) : Nat := str.count c

/-- `get_regex_size_from_wildcard(wildcard, escapes, ...)`: the size of the buffer, `none` where a
test for overflow of `size_t` fails. -/
def getRegexSizeFromWildcard (wildcard escapes : List Char) : Option Nat :=
  let size? : Option Nat :=
    escapes.foldl
      (fun acc e => acc.bind fun size =>
        if stringsCount wildcard e > sizeMax - size then none
        else some (size + stringsCount wildcard e))
      (some 0)
  match size? with
  | none => none
  | some size =>
    let tmp := stringsCount wildcard '*'
    -- `SIZE_MAX - size - strlen(wildcard) - 3`, computed in `size_t`
    if (tmp : Int) > ((sizeMax : Int) - size - wildcard.length - 3) % 2 ^ 64 then none
    else some ((1 + size + wildcard.length + tmp + 1 + 1) % 2 ^ 64)

/-- What `util_wildcard_to_regex` writes for one character of the wildcard. -/
def wildcardChar (ch : Char) : List Char :=
  if ch ∈ regexEscapes then ['\\', ch]
  else if ch = '*' then ['.', '*']
  else if ch = '?' then ['.']
  else [ch]

/-- `util_wildcard_to_regex(wildcard, &regex)`: the size of the buffer it allocates and the text
it writes there before the final `NUL`. -/
def utilWildcardToRegex (wildcard : List Char) : Option (Nat × List Char) :=
  match getRegexSizeFromWildcard wildcard regexEscapes with
  | none => none
  | some regexSize => some (regexSize, '^' :: wildcard.flatMap wildcardChar ++ ['$'])

/-! ## `util_reg_match` -/

/-- A word character for `\<` and `\>`: a letter, a digit or `_`. -/
def isWordChar (c : Char) : Bool := c.isAlphanum || c = '_'

/-- The characters with a meaning of their own in an extended regular expression. -/
def ereSpecials : List Char := ['$', '^', '[', ']', '(', ')', '{', '}', '|', '+', '\\', '.', '*', '?']

/-- `regcomp(&reg, pattern, REG_EXTENDED)` on the patterns made of characters, escaped special
characters, `\<`, `\>`, `.`, `^`, `$` and a `*` after a character or `.`: the expressions in
order, `none` for any other pattern. -/
def regcompPieces : List Char → Option (List (Re Char))
  | [] => some []
  | '\\' :: c :: '*' :: rest =>
    if c ∈ ereSpecials then (regcompPieces rest).map (.star (.char c) :: ·) else none
  | '\\' :: c :: rest =>
    if c = '<' then (regcompPieces rest).map (.wordStart :: ·)
    else if c = '>' then (regcompPieces rest).map (.wordEnd :: ·)
    else if c ∈ ereSpecials then (regcompPieces rest).map (.char c :: ·)
    else none
  | '.' :: '*' :: rest => (regcompPieces rest).map (.star .any :: ·)
  | '.' :: rest => (regcompPieces rest).map (.any :: ·)
  | '^' :: rest => (regcompPieces rest).map (.bol :: ·)
  | '$' :: rest => (regcompPieces rest).map (.eol :: ·)
  | c :: '*' :: rest =>
    if c ∈ ereSpecials then none else (regcompPieces rest).map (.star (.char c) :: ·)
  | c :: rest => if c ∈ ereSpecials then none else (regcompPieces rest).map (.char c :: ·)

/-- `util_reg_match(patten, str)`: 0 on a match, 1 on none. -/
def utilRegMatch (patten str : List Char) : Option Int :=
  (regcompPieces patten).map fun pieces => if search isWordChar (seq pieces) str then 0 else 1

/-! ## The size of the buffer -/

/-- The escapes are distinct, and `*` and `?` are not among them. -/
lemma regexEscapes_nodup : regexEscapes.Nodup := by decide

lemma star_not_mem_regexEscapes : '*' ∉ regexEscapes := by decide

lemma qmark_not_mem_regexEscapes : '?' ∉ regexEscapes := by decide

attribute [local simp] stringsCount in
/-- Counting the characters of a list with a first element not in the rest. -/
lemma countP_mem_cons {e : Char} {es : List Char} (he : e ∉ es) (w : List Char) :
    w.countP (· ∈ e :: es) = stringsCount w e + w.countP (· ∈ es) := by
  induction w with
  | nil => rfl
  | cons x w ih =>
    simp only [stringsCount] at ih ⊢
    rw [List.countP_cons, List.countP_cons, List.count_cons, ih]
    by_cases hx : x = e
    · subst hx
      simp [he]
      omega
    · simp [hx]
      omega

/-- Counting each of distinct characters counts the characters among them. -/
lemma sum_count_of_nodup {es : List Char} (hes : es.Nodup) (w : List Char) :
    (es.map (stringsCount w)).sum = w.countP (· ∈ es) := by
  induction es with
  | nil => simp
  | cons e es ih =>
    obtain ⟨he, hes⟩ := List.nodup_cons.1 hes
    rw [List.map_cons, List.sum_cons, ih hes, countP_mem_cons he]

/-- The loop over the escapes adds up their counts while no sum passes `SIZE_MAX`. -/
lemma foldl_escapes (w : List Char) (es : List Char) (a : Nat)
    (hsum : a + (es.map (stringsCount w)).sum ≤ sizeMax) :
    es.foldl
      (fun acc e => acc.bind fun size =>
        if stringsCount w e > sizeMax - size then none else some (size + stringsCount w e))
      (some a) = some (a + (es.map (stringsCount w)).sum) := by
  induction es generalizing a with
  | nil => simp
  | cons e es ih =>
    simp only [List.map_cons, List.sum_cons] at hsum ⊢
    rw [List.foldl_cons, Option.bind_some, if_neg (by omega), ih (a + stringsCount w e) (by omega),
      Nat.add_assoc]

lemma length_wildcardChar (ch : Char) :
    (wildcardChar ch).length =
      1 + (if ch ∈ regexEscapes then 1 else 0) + (if ch = '*' then 1 else 0) := by
  unfold wildcardChar
  by_cases he : ch ∈ regexEscapes
  · have hs : ch ≠ '*' := fun h => star_not_mem_regexEscapes (h ▸ he)
    simp [he, hs]
  · by_cases hs : ch = '*'
    · subst hs
      simp [star_not_mem_regexEscapes]
    · by_cases hq : ch = '?'
      · subst hq
        simp [qmark_not_mem_regexEscapes]
      · simp [he, hs, hq]

lemma length_flatMap_wildcardChar (w : List Char) :
    (w.flatMap wildcardChar).length =
      w.length + w.countP (· ∈ regexEscapes) + stringsCount w '*' := by
  induction w with
  | nil => rfl
  | cons c w ih =>
    simp only [stringsCount] at ih ⊢
    rw [List.flatMap_cons, List.length_append, ih, length_wildcardChar, List.length_cons,
      List.countP_cons, List.count_cons]
    by_cases he : c ∈ regexEscapes <;> by_cases hs : c = '*' <;> simp [he, hs] <;> omega

/-- The buffer holds the text written and its `NUL`, exactly: the last index written is
`regex_size - 1`. -/
theorem utilWildcardToRegex_size (w : List Char) (hw : w.length < 2 ^ 62) :
    ∃ regexSize text, utilWildcardToRegex w = some (regexSize, text) ∧
      text.length + 1 = regexSize := by
  have hesc : w.countP (· ∈ regexEscapes) ≤ w.length := List.countP_le_length
  have hstar : stringsCount w '*' ≤ w.length := List.count_le_length
  have hsum := sum_count_of_nodup regexEscapes_nodup w
  have hmax : sizeMax = 2 ^ 64 - 1 := rfl
  have hfold := foldl_escapes w regexEscapes 0 (by omega)
  rw [Nat.zero_add, hsum] at hfold
  -- no `size_t` arithmetic wraps for a wildcard of this length
  have hmod : ((sizeMax : Int) - (w.countP (· ∈ regexEscapes) : Nat) - w.length - 3) % 2 ^ 64 =
      (sizeMax : Int) - (w.countP (· ∈ regexEscapes) : Nat) - w.length - 3 := by
    apply Int.emod_eq_of_lt <;> omega
  have hget : getRegexSizeFromWildcard w regexEscapes =
      some (1 + w.countP (· ∈ regexEscapes) + w.length + stringsCount w '*' + 1 + 1) := by
    simp only [getRegexSizeFromWildcard, hfold, hmod]
    rw [if_neg (by omega), Nat.mod_eq_of_lt (by omega)]
  have hres : utilWildcardToRegex w =
      some (1 + w.countP (· ∈ regexEscapes) + w.length + stringsCount w '*' + 1 + 1,
        '^' :: w.flatMap wildcardChar ++ ['$']) := by
    unfold utilWildcardToRegex
    rw [hget]
  refine ⟨_, _, hres, ?_⟩
  rw [List.length_append, List.length_cons, length_flatMap_wildcardChar, List.length_singleton]
  omega

/-! ## What the expression matches -/

/-- The expression `regcomp` makes of what a wildcard character is written as. -/
def wildcardPiece (ch : Char) : Re Char :=
  if ch = '<' then .wordStart
  else if ch = '>' then .wordEnd
  else if ch = '*' then .star .any
  else if ch = '?' then .any
  else .char ch

/-- The wildcard as the `reference` filter means it: `*` any text, `?` any one character, every
other character itself. -/
def wildcardGlob (w : List Char) : List (Glob Char) :=
  w.map fun ch => if ch = '*' then .many else if ch = '?' then .one else .lit ch

section Regcomp

variable {rest : List Char}

attribute [local simp] regcompPieces in
lemma regcompPieces_plain {ch : Char} (hsp : ch ∉ ereSpecials) (hrest : rest.head? ≠ some '*') :
    regcompPieces (ch :: rest) = (regcompPieces rest).map (.char ch :: ·) := by
  have h1 : ch ≠ '\\' := fun h => hsp (h ▸ by decide)
  have h2 : ch ≠ '.' := fun h => hsp (h ▸ by decide)
  have h3 : ch ≠ '^' := fun h => hsp (h ▸ by decide)
  have h4 : ch ≠ '$' := fun h => hsp (h ▸ by decide)
  rw [regcompPieces.eq_9 ch rest (fun _ _ h => absurd h h1) (fun _ _ h => absurd h h1)
    (fun _ h => absurd h h2) h2 h3 h4 (fun _ h => hrest (by simp [h])), if_neg hsp]

lemma regcompPieces_escaped (c : Char) (hrest : rest.head? ≠ some '*') :
    regcompPieces ('\\' :: c :: rest) =
      if c = '<' then (regcompPieces rest).map (.wordStart :: ·)
      else if c = '>' then (regcompPieces rest).map (.wordEnd :: ·)
      else if c ∈ ereSpecials then (regcompPieces rest).map (.char c :: ·)
      else none :=
  regcompPieces.eq_3 c rest (fun _ h => hrest (by simp [h]))

lemma regcompPieces_any (hrest : rest.head? ≠ some '*') :
    regcompPieces ('.' :: rest) = (regcompPieces rest).map (.any :: ·) :=
  regcompPieces.eq_5 rest (fun _ h => hrest (by simp [h]))

lemma regcompPieces_anyStar :
    regcompPieces ('.' :: '*' :: rest) = (regcompPieces rest).map (.star .any :: ·) :=
  regcompPieces.eq_4 rest

lemma regcompPieces_bol : regcompPieces ('^' :: rest) = (regcompPieces rest).map (.bol :: ·) :=
  regcompPieces.eq_6 rest

lemma regcompPieces_eol : regcompPieces ['$'] = some [.eol] := by
  rw [regcompPieces.eq_def]
  rfl

end Regcomp

/-- What a wildcard character is written as never starts with `*`. -/
lemma head_wildcardChar_ne_star (ch : Char) (rest : List Char) :
    (wildcardChar ch ++ rest).head? ≠ some '*' := by
  unfold wildcardChar
  split_ifs with he hs
  · simp
  · simp
  · simp
  · simpa using hs

/-- `regcomp` reads what a wildcard character is written as back as one expression. -/
lemma regcompPieces_wildcardChar (ch : Char) {rest : List Char} (hrest : rest.head? ≠ some '*') :
    regcompPieces (wildcardChar ch ++ rest) = (regcompPieces rest).map (wildcardPiece ch :: ·) := by
  unfold wildcardChar wildcardPiece
  by_cases he : ch ∈ regexEscapes
  · have hs : ch ≠ '*' := fun h => star_not_mem_regexEscapes (h ▸ he)
    have hq : ch ≠ '?' := fun h => qmark_not_mem_regexEscapes (h ▸ he)
    rw [if_pos he, List.cons_append, List.cons_append, List.nil_append,
      regcompPieces_escaped ch hrest]
    by_cases hl : ch = '<'
    · simp [hl]
    · by_cases hg : ch = '>'
      · simp [hg]
      · -- the other escapes are the special characters of an extended expression
        have hsp : ch ∈ ereSpecials := by
          simp only [regexEscapes, List.mem_cons, List.not_mem_nil, or_false] at he
          rcases he with rfl | rfl | rfl | rfl | rfl | rfl | rfl | rfl | rfl | rfl | rfl | rfl | rfl |
            rfl <;> first | decide | exact absurd rfl hl | exact absurd rfl hg
        simp [hl, hg, hs, hq, hsp]
  · rw [if_neg he]
    by_cases hs : ch = '*'
    · subst hs
      simp [regcompPieces_anyStar]
    · by_cases hq : ch = '?'
      · subst hq
        simp [regcompPieces_any hrest]
      · -- a character that stands for itself
        have hsp : ch ∉ ereSpecials := by
          intro hsp
          simp only [ereSpecials, List.mem_cons, List.not_mem_nil, or_false] at hsp
          rcases hsp with rfl | rfl | rfl | rfl | rfl | rfl | rfl | rfl | rfl | rfl | rfl | rfl | rfl |
            rfl <;> first | exact he (by decide) | exact hs rfl | exact hq rfl
        have hl : ch ≠ '<' := fun h => he (h ▸ by decide)
        have hg : ch ≠ '>' := fun h => he (h ▸ by decide)
        simp [hs, hq, hl, hg, regcompPieces_plain hsp hrest]

/-- `regcomp` reads the whole text back: `^`, one expression per wildcard character, `$`. -/
theorem regcompPieces_wildcardRegex (w : List Char) :
    regcompPieces ('^' :: w.flatMap wildcardChar ++ ['$']) = some (.bol :: w.map wildcardPiece ++ [.eol]) := by
  rw [List.cons_append, regcompPieces_bol]
  suffices h : regcompPieces (w.flatMap wildcardChar ++ ['$']) = some (w.map wildcardPiece ++ [.eol]) by
    rw [h]
    rfl
  induction w with
  | nil => exact regcompPieces_eol
  | cons ch w ih =>
    have hrest : (w.flatMap wildcardChar ++ ['$']).head? ≠ some '*' := by
      cases w with
      | nil => simp
      | cons c w => rw [List.flatMap_cons, List.append_assoc]; exact head_wildcardChar_ne_star c _
    rw [List.flatMap_cons, List.append_assoc, regcompPieces_wildcardChar ch hrest, ih]
    rfl

attribute [local simp] wildcardGlob in
/-- Without `<` and `>`, each character is written as the expression of its wildcard piece. -/
lemma map_wildcardPiece {w : List Char} (hw : '<' ∉ w ∧ '>' ∉ w) :
    w.map wildcardPiece = (wildcardGlob w).map Glob.toRe := by
  rw [wildcardGlob, List.map_map]
  refine List.map_congr_left fun ch hch => ?_
  have hl : ch ≠ '<' := fun h => hw.1 (h ▸ hch)
  have hg : ch ≠ '>' := fun h => hw.2 (h ▸ hch)
  unfold wildcardPiece
  by_cases hs : ch = '*'
  · simp [hs, Glob.toRe]
  · by_cases hq : ch = '?' <;> simp [hl, hg, hs, hq, Glob.toRe]

/-- On a wildcard without `<` and `>`, `util_reg_match` with the text `util_wildcard_to_regex`
writes matches exactly the texts the wildcard matches. -/
theorem utilRegMatch_wildcard {w : List Char} (hw : '<' ∉ w ∧ '>' ∉ w) (s : List Char) :
    (utilRegMatch ('^' :: w.flatMap wildcardChar ++ ['$']) s = some 0 ↔ GlobMatches (wildcardGlob w) s) ∧
      (utilRegMatch ('^' :: w.flatMap wildcardChar ++ ['$']) s = some 1 ↔
        ¬ GlobMatches (wildcardGlob w) s) := by
  have hmatch : search isWordChar (seq (.bol :: w.map wildcardPiece ++ [.eol])) s = true ↔
      GlobMatches (wildcardGlob w) s := by
    rw [search_iff, search_anchored, map_wildcardPiece hw, matches_seq_toRe]
  rw [utilRegMatch, regcompPieces_wildcardRegex, Option.map_some]
  by_cases h : search isWordChar (seq (.bol :: w.map wildcardPiece ++ [.eol])) s = true
  · rw [if_pos h]
    exact ⟨⟨fun _ => hmatch.1 h, fun _ => rfl⟩,
      ⟨fun e => absurd e (by decide), fun hn => absurd (hmatch.1 h) hn⟩⟩
  · rw [if_neg h]
    exact ⟨⟨fun e => absurd e (by decide), fun hg => absurd (hmatch.2 hg) h⟩,
      ⟨fun _ hg => h (hmatch.2 hg), fun _ => rfl⟩⟩

/-- `<` is escaped into the start of a word: the wildcard `a<b` does not match the text `a<b`,
and `<a` matches `a`, a text it does not match as a wildcard. -/
theorem utilWildcardToRegex_word_boundary :
    utilWildcardToRegex "a<b".toList = some (7, "^a\\<b$".toList) ∧
      utilRegMatch "^a\\<b$".toList "a<b".toList = some 1 ∧
      GlobMatches (wildcardGlob "a<b".toList) "a<b".toList ∧
      utilWildcardToRegex "<a".toList = some (6, "^\\<a$".toList) ∧
      utilRegMatch "^\\<a$".toList "a".toList = some 0 ∧
      ¬ GlobMatches (wildcardGlob "<a".toList) "a".toList := by
  refine ⟨by decide, by decide, ?_, by decide, by decide, ?_⟩
  · show GlobMatches (wildcardGlob ['a', '<', 'b']) ['a', '<', 'b']
    exact .lit (.lit (.lit .nil))
  · show ¬ GlobMatches (wildcardGlob ['<', 'a']) ['a']
    simp [wildcardGlob]

end Cutils

end Isulad
