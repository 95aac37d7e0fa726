import Isulad.Framework.Sed
import Isulad.Services.Execution.Execute.Copy

/-!
# What `tar --transform` does with `format_transform_of_tar` (`libtar.c`)

`format_transform_of_tar(srcbase, dstbase)` writes the expression `s/srcbase/dstbase/` (`/`
alone written `.`) that `archive_path` and `archive_untar` pass to `tar --transform`, and
`prepare_archive_copy` relies on it to name the copied entry `dstbase`. GNU `tar` is not part of
this repository; it is taken to read the expression as `sed` does: the text between the first
two delimiters is a basic regular expression (`breCompile`), the text between the next two a
replacement in which `&` stands for the match and `\` escapes (`replCompile`), and the command
replaces the first match in each member name (`Sed.subst`). Of the expression syntax the model
reads letters, `.`, `*`, `^` at the start, `$` at the end and escaped letters; it refuses the
rest (bracket expressions, groups, intervals, back references).

For names without special characters the transform is the textual replacement of the first
occurrence that `Copy.applyTransform` models (`tarTransform_eq_applyTransform`), so the copied
entry `s` or `s/rest` becomes `d` or `d/rest` (`tarTransform_renames_entry`). But nothing escapes
the names and nothing anchors the expression: a member whose first component is another name
containing `s` is renamed too, a `.` in `s` matches any character, and a `&` in `d` becomes the
name matched (`tarTransform_misreads_names`).
-/

namespace Isulad

namespace Tar

open Regex Sed Copy

/-! ## The expression as `tar` reads it -/

/-- The letters of words, for the word assertions of the expression syntax. -/
def isWordChar (c : Char) : Bool := c.isAlphanum || c = '_'

/-- What follows a backslash to make the GNU operators, groups, intervals and back references
of basic expressions, none of which the model reads. -/
def breEscapeUnsupported : List Char := "(){}|+?123456789<>bBwWsS".toList

/-- A basic regular expression after its first character, as a sequence; `acc` holds the
expressions read so far, last first, so that `*` can repeat the one before it (a `*` with none
before it is a letter). -/
def breParse : List (Re Char) → List Char → Option (List (Re Char))
  | acc, [] => some acc.reverse
  | acc, c :: rest =>
    if c = '$' ∧ rest = [] then some (acc.reverse ++ [.eol])
    else if c = '\\' then
      match rest with
      | [] => none
      | e :: rest' => if e ∈ breEscapeUnsupported then none else breParse (.char e :: acc) rest'
    else if c = '[' then none
    else if c = '.' then breParse (.any :: acc) rest
    else if c = '*' then
      match acc with
      | [] => breParse [.char '*'] rest
      | r :: acc' => breParse (.star r :: acc') rest
    else breParse (.char c :: acc) rest

/-- A basic regular expression: `^` anchors it when it comes first. -/
def breCompile : List Char → Option (Re Char)
  | '^' :: p => (breParse [] p).map fun rs => seq (.bol :: rs)
  | p => (breParse [] p).map seq

/-- A replacement: `&` the text matched, `\&`, `\\` and the escaped delimiter letters; the
model refuses the other escapes (back references and case conversions). -/
def replCompile : List Char → Option (List (Piece Char))
  | [] => some []
  | c :: rest =>
    if c = '&' then (replCompile rest).map (.matched :: ·)
    else if c = '\\' then
      match rest with
      | [] => none
      | e :: rest' =>
        if e = '&' ∨ e = '\\' ∨ e = '/' then (replCompile rest').map (.lit e :: ·) else none
    else (replCompile rest).map (.lit c :: ·)

/-- The text up to the first delimiter that no backslash escapes, and the text after it. -/
def splitUnescaped (delim : Char) : List Char → Option (List Char × List Char)
  | [] => none
  | c :: rest =>
    if c = delim then some ([], rest)
    else if c = '\\' then
      match rest with
      | [] => none
      | e :: rest' => (splitUnescaped delim rest').map fun p => (c :: e :: p.1, p.2)
    else (splitUnescaped delim rest).map fun p => (c :: p.1, p.2)

/-- `s/regex/replace/` with no flags, read into an expression and a replacement. -/
def parseTransform : List Char → Option (Re Char × List (Piece Char))
  | 's' :: d :: rest =>
    match splitUnescaped d rest with
    | some (regex, rest) =>
      match splitUnescaped d rest with
      | some (replace, []) =>
        match breCompile regex, replCompile replace with
        | some r, some repl => some (r, repl)
        | _, _ => none
      | _ => none
    | none => none
  | _ => none

/-- The name `tar --transform expr` gives a member, `none` for an expression the model does
not read. -/
def tarTransform (expr name : List Char) : Option (List Char) :=
  (parseTransform expr).map fun p => subst isWordChar p.1 p.2 name

/-! ## Names without special characters -/

/-- A name the expression syntax reads as its own letters: no `/`, `\`, `[`, `.`, `*`, `^` or
`$`. -/
def PlainPattern (w : List Char) : Prop := ∀ c ∈ w, c ∉ "/\\[.*^$".toList

/-- A replacement that stands for its own letters: no `/`, `\` or `&`. -/
def PlainReplacement (d : List Char) : Prop := ∀ c ∈ d, c ∉ "/\\&".toList

instance (w : List Char) : Decidable (PlainPattern w) :=
  inferInstanceAs (Decidable (∀ c ∈ w, c ∉ "/\\[.*^$".toList))

instance (d : List Char) : Decidable (PlainReplacement d) :=
  inferInstanceAs (Decidable (∀ c ∈ d, c ∉ "/\\&".toList))

lemma ne_of_plainPattern {c : Char} (hc : c ∉ "/\\[.*^$".toList) :
    c ≠ '/' ∧ c ≠ '\\' ∧ c ≠ '[' ∧ c ≠ '.' ∧ c ≠ '*' ∧ c ≠ '^' ∧ c ≠ '$' := by
  refine ⟨?_, ?_, ?_, ?_, ?_, ?_, ?_⟩ <;> rintro rfl <;> exact hc (by decide)

lemma ne_of_plainReplacement {c : Char} (hc : c ∉ "/\\&".toList) :
    c ≠ '/' ∧ c ≠ '\\' ∧ c ≠ '&' := by
  refine ⟨?_, ?_, ?_⟩ <;> rintro rfl <;> exact hc (by decide)

attribute [local simp] breParse in
lemma breParse_plain {w : List Char} (hw : PlainPattern w) :
    ∀ acc : List (Re Char), breParse acc w = some (acc.reverse ++ w.map .char) := by
  induction w with
  | nil => intro acc; simp [breParse]
  | cons c w ih =>
    intro acc
    obtain ⟨-, h2, h3, h4, h5, -, h7⟩ := ne_of_plainPattern (hw c List.mem_cons_self)
    rw [breParse.eq_def]
    simp only [h7, false_and, if_false, h2, h3, h4, h5]
    rw [ih (fun x hx => hw x (List.mem_cons_of_mem _ hx))]
    simp

attribute [local simp] breCompile in
lemma breCompile_plain {w : List Char} (hw : PlainPattern w) :
    breCompile w = some (seq (w.map .char)) := by
  cases w with
  | nil => rfl
  | cons c w =>
    obtain ⟨-, -, -, -, -, h6, -⟩ := ne_of_plainPattern (hw c List.mem_cons_self)
    rw [breCompile.eq_def]
    split
    · rename_i p heq
      exact absurd (List.cons.inj heq).1 h6
    · simp [breParse_plain hw]

lemma replCompile_plain {d : List Char} (hd : PlainReplacement d) :
    replCompile d = some (d.map .lit) := by
  induction d with
  | nil => rfl
  | cons c d ih =>
    obtain ⟨-, h2, h3⟩ := ne_of_plainReplacement (hd c List.mem_cons_self)
    rw [replCompile.eq_def]
    simp only [h3, h2, if_false, ih (fun x hx => hd x (List.mem_cons_of_mem _ hx)),
      Option.map_some, List.map_cons]

lemma splitUnescaped_of_not_mem {delim : Char} {w : List Char} (hd : delim ∉ w) (hb : '\\' ∉ w)
    (rest : List Char) : splitUnescaped delim (w ++ delim :: rest) = some (w, rest) := by
  induction w with
  | nil => rw [List.nil_append, splitUnescaped.eq_def]; simp
  | cons c w ih =>
    have hcd : c ≠ delim := fun h => hd (h ▸ List.mem_cons_self)
    have hcb : c ≠ '\\' := fun h => hb (h ▸ List.mem_cons_self)
    rw [List.cons_append, splitUnescaped.eq_def]
    simp only [if_neg hcd, if_neg hcb]
    rw [ih (fun h => hd (List.mem_cons_of_mem _ h)) (fun h => hb (List.mem_cons_of_mem _ h))]
    rfl

/-- For names without `/`, `format_transform_of_tar` writes `s/w/d/` when it fits. -/
lemma formatTransformOfTar_eq {w d e : List Char} (hw : '/' ∉ w) (hd : '/' ∉ d)
    (he : formatTransformOfTar w d = some e) : e = 's' :: '/' :: (w ++ '/' :: (d ++ ['/'])) := by
  have hws : w ≠ ['/'] := fun h => hw (by simp [h])
  have hds : d ≠ ['/'] := fun h => hd (by simp [h])
  simp only [formatTransformOfTar, if_neg hws, if_neg hds] at he
  split_ifs at he
  cases he
  simp

/-- The expression `format_transform_of_tar` writes for names without special characters is
read as their letters. -/
theorem parseTransform_format {w d e : List Char} (hw : PlainPattern w) (hd : PlainReplacement d)
    (he : formatTransformOfTar w d = some e) :
    parseTransform e = some (seq (w.map .char), d.map .lit) := by
  have hw1 : '/' ∉ w := fun h => (ne_of_plainPattern (hw '/' h)).1 rfl
  have hw2 : '\\' ∉ w := fun h => (ne_of_plainPattern (hw '\\' h)).2.1 rfl
  have hd1 : '/' ∉ d := fun h => (ne_of_plainReplacement (hd '/' h)).1 rfl
  have hd2 : '\\' ∉ d := fun h => (ne_of_plainReplacement (hd '\\' h)).2.1 rfl
  have hsplit2 : splitUnescaped '/' (d ++ ['/']) = some (d, []) :=
    splitUnescaped_of_not_mem hd1 hd2 []
  rw [formatTransformOfTar_eq hw1 hd1 he]
  simp only [parseTransform, splitUnescaped_of_not_mem hw1 hw2, hsplit2, breCompile_plain hw,
    replCompile_plain hd]

lemma expand_map_lit (d u : List Char) : expand (d.map Piece.lit) u = d := by
  induction d with
  | nil => rfl
  | cons c d ih => simpa [expand] using ih

attribute [local simp] Copy.replaceFirst Copy.afterFirstInfix in
/-- `s/w/d/` with letters only replaces the first occurrence of `w` by `d`. -/
lemma subst_eq_replaceFirst {w : List Char} (hw : w ≠ []) (d name : List Char) :
    subst isWordChar (seq (w.map .char)) (d.map .lit) name = replaceFirst w d name := by
  induction name with
  | nil => rw [subst_seq_chars_nil hw]; rfl
  | cons c cs ih =>
    rw [subst_seq_chars_cons hw, replaceFirst, expand_map_lit, ih]
    simp [hw]

lemma takeWhile_append_cons_of_not_mem {sep : Char} {w : List Char} (h : sep ∉ w) (r : List Char) :
    (w ++ sep :: r).takeWhile (· ≠ sep) = w ∧ (w ++ sep :: r).dropWhile (· ≠ sep) = sep :: r := by
  induction w with
  | nil => simp
  | cons c w ih =>
    have hc : c ≠ sep := fun hc => h (hc ▸ List.mem_cons_self)
    obtain ⟨ht, hd⟩ := ih (fun hx => h (List.mem_cons_of_mem _ hx))
    rw [List.cons_append, List.takeWhile_cons_of_pos (by simpa using hc),
      List.dropWhile_cons_of_pos (by simpa using hc), ht, hd]
    exact ⟨rfl, rfl⟩

attribute [local simp] tarTransform in
/-- For names without special characters, `tar` renames members as the textual replacement of
the first occurrence that `Copy.applyTransform` models. -/
theorem tarTransform_eq_applyTransform {w d e : List Char} (hne : w ≠ []) (hw : PlainPattern w)
    (hd : PlainReplacement d) (he : formatTransformOfTar w d = some e) (name : List Char) :
    tarTransform e name = some (applyTransform (some e) name) := by
  have hw1 : '/' ∉ w := fun h => (ne_of_plainPattern (hw '/' h)).1 rfl
  have hd1 : '/' ∉ d := fun h => (ne_of_plainReplacement (hd '/' h)).1 rfl
  rw [tarTransform, parseTransform_format hw hd he, Option.map_some, subst_eq_replaceFirst hne]
  rw [formatTransformOfTar_eq hw1 hd1 he, applyTransform]
  obtain ⟨hpat, hrest⟩ := takeWhile_append_cons_of_not_mem hw1 (d ++ ['/'])
  obtain ⟨hrepl, -⟩ := takeWhile_append_cons_of_not_mem hd1 []
  simp only [List.drop_succ_cons, List.drop_zero, List.span_eq_takeWhile_dropWhile, hpat, hrest,
    hrepl]

lemma replaceFirst_append {w : List Char} (hne : w ≠ []) (d x : List Char) :
    replaceFirst w d (w ++ x) = d ++ x := by
  obtain ⟨c, w', rfl⟩ := List.exists_cons_of_ne_nil hne
  rw [List.cons_append, replaceFirst, if_pos ⟨hne, by simp⟩]
  simp

/-- For names without special characters, the copied entry `w` or `w/rest` is named `d` or
`d/rest`. -/
theorem tarTransform_renames_entry {w d e : List Char} (hne : w ≠ []) (hw : PlainPattern w)
    (hd : PlainReplacement d) (he : formatTransformOfTar w d = some e) (rest : List Char) :
    tarTransform e w = some d ∧ tarTransform e (w ++ '/' :: rest) = some (d ++ '/' :: rest) := by
  refine ⟨?_, ?_⟩
  · rw [tarTransform, parseTransform_format hw hd he, Option.map_some, subst_eq_replaceFirst hne]
    simpa using replaceFirst_append hne d []
  · rw [tarTransform, parseTransform_format hw hd he, Option.map_some, subst_eq_replaceFirst hne,
      replaceFirst_append hne]

/-- `format_transform_of_tar` escapes nothing and anchors nothing: with `s = a` and `d = x&y`
the entry `a` becomes `xay`; with `s = a` the member `b/a`, whose first component is `b`, is
renamed `b/d`; with `s = a.b` the member `axb` is renamed `d`. -/
theorem tarTransform_misreads_names :
    (formatTransformOfTar "a".toList "x&y".toList).bind (tarTransform · "a".toList) =
      some "xay".toList ∧
    (formatTransformOfTar "a".toList "d".toList).bind (tarTransform · "b/a".toList) =
      some "b/d".toList ∧
    (formatTransformOfTar "a.b".toList "d".toList).bind (tarTransform · "axb".toList) =
      some "d".toList := by
  decide

end Tar

end Isulad
