import Isulad.Services.Execution.Spec.Verify
import Isulad.Framework.Binary64
import Mathlib

/-!
# Splitting a string, and reading a byte size (`utils_string.c`)

`util_string_split(src, sep)` cuts a copy of `src` with `strtok_r`, which treats a run of
separators as one and skips leading and trailing ones: the tokens are the non-empty
separator-free pieces of `src`, in order. A string with no token (empty, or only separators)
gives the one-element array `[""]` of `make_empty_array`.

The lemma the callers need is `utilStringSplit_head`: for `k=v` with `k` non-empty and
`=`-free the first token is `k`, whatever `v` holds.

`util_string_split_multi` keeps the empty pieces, and `util_string_split_n` stops after `n - 1`
separators and keeps the rest whole; both grow a `NULL`-terminated array through
`util_grow_array` and `util_array_append`, modelled slot by slot (`CArray`). Their pieces,
passed to `util_string_join` with the separator, give the string back
(`utilString_split_join_roundTrip`).

`util_parse_byte_size_string(s)` reads a size such as `512`, `1.5g` or `10KiB`: the leading
digits and dots are the number, the rest a unit of `g_unit_map` in any case (a power of 1024
up to `P`). The integer part goes through `util_safe_llong`, that is `strtoll` in base 0, and
the fraction through `strtod`, which rounds it to binary64 (`Binary64.round`) before it is
scaled by the unit, rounded again and truncated. Base 0 makes a leading
`0` octal: `010K` is 8192 bytes and `09K` is refused (`utilParseByteSizeString_reads_octal`).
Without a leading zero the result is the decimal value times the unit, or `-ERANGE` past
`INT64_MAX` (`utilParseByteSizeString_decimal`).

`util_parse_percent_string(s)` tests only that `s` is made of digits and `%` and ends in `%`,
then reads it with `strtol` in base 10 without clearing `errno`: `utilParsePercentString_eq_ok_iff`
says exactly what it accepts, which includes `%%` and `1%0%`, and a stale `errno` refuses `0%`.
-/

namespace Isulad

namespace Cutils

/-- The pieces of a string between separators, empty pieces included. -/
def splitOnChar (sep : Char) : List Char → List (List Char)
  | [] => [[]]
  | c :: cs =>
    if c = sep then [] :: splitOnChar sep cs
    else
      match splitOnChar sep cs with
      | [] => [[c]]
      | f :: fs => (c :: f) :: fs

/-- The tokens `strtok_r(str, deli, &reserve_ptr)` returns one call after another. -/
def strtokTokens (sep : Char) (s : List Char) : List (List Char) :=
  (splitOnChar sep s).filter fun f => f ≠ []

/-- `util_string_split` on a non-`NULL` string. -/
def utilStringSplit (src : String) (sep : Char) : List String :=
  if src = "" then [""]
  else
    match strtokTokens sep src.toList with
    | [] => [""]
    | tokens => tokens.map String.ofList

attribute [local simp] splitOnChar in
/-- Splitting peels off one separator-free piece at a time. -/
lemma splitOnChar_append {sep : Char} {f : List Char} (h : sep ∉ f) (rest : List Char) :
    splitOnChar sep (f ++ sep :: rest) = f :: splitOnChar sep rest := by
  induction f with
  | nil => simp [splitOnChar]
  | cons c cs ih =>
    have hc : c ≠ sep := fun hc => h (hc ▸ List.mem_cons_self)
    have hrest : sep ∉ cs := fun hx => h (List.mem_cons_of_mem _ hx)
    rw [List.cons_append, splitOnChar, if_neg hc, ih hrest]

attribute [local simp] strtokTokens in
lemma strtokTokens_append {sep : Char} {tok : List Char} (hsep : sep ∉ tok) (htok : tok ≠ [])
    (rest : List Char) : strtokTokens sep (tok ++ sep :: rest) = tok :: strtokTokens sep rest := by
  rw [strtokTokens, splitOnChar_append hsep, List.filter_cons_of_pos (by simpa using htok)]
  rfl

attribute [local simp] utilStringSplit in
/-- The split is the tokens, or one empty string when there is none. -/
lemma utilStringSplit_eq_tokens (s : String) (sep : Char) :
    utilStringSplit s sep =
      if strtokTokens sep s.toList = [] then [""] else (strtokTokens sep s.toList).map String.ofList := by
  unfold utilStringSplit
  by_cases hs : s = ""
  · subst hs
    rfl
  · rw [if_neg hs]
    split
    · rename_i h
      rw [if_pos h]
    · rename_i tokens htok
      rw [if_neg htok]

lemma utilStringSplit_ne_nil (src : String) (sep : Char) : utilStringSplit src sep ≠ [] := by
  unfold utilStringSplit
  split
  · simp
  · split
    · simp
    · simpa

/-- The first token of `k` followed by the separator is `k`, when `k` is a non-empty piece. -/
theorem utilStringSplit_head {src k : String} {sep : Char} {rest : List Char}
    (hsrc : src.toList = k.toList ++ sep :: rest) (hk : k ≠ "") (hsep : sep ∉ k.toList) :
    (utilStringSplit src sep).head? = some k := by
  have hne : src ≠ "" := by
    intro h
    simp [h] at hsrc
  have hkl : k.toList ≠ [] := fun h => hk (String.toList_inj.1 (h.trans String.toList_empty.symm))
  have htok : strtokTokens sep src.toList = k.toList :: strtokTokens sep rest := by
    rw [hsrc, strtokTokens_append hsep hkl]
  simp [utilStringSplit, hne, htok, String.ofList_toList]

/-! ## Arrays of strings, split and joined -/

section SplitJoin

/-- A `NULL`-terminated C array of strings, as its slots (`none` is `NULL`). -/
abbrev CArray := List (Option (List Char))

/-- `util_array_len(array)`: the slots before the first `NULL`. -/
def utilArrayLen (array : CArray) : Nat := (array.takeWhile Option.isSome).length

/-- `make_empty_array()`: the array `[""]`. -/
def makeEmptyArray : CArray := [some [], none]

/-- `util_array_append(&array, element)`: a new array of `len + 2` zeroed slots holding the old
elements, then the element. -/
def utilArrayAppend (array : CArray) (element : List Char) : CArray :=
  array.take (utilArrayLen array) ++ [some element, none]

/-- `while (size + 1 > add_capacity) add_capacity += increment;`, on fuel. -/
def growCapacity (size increment : Nat) : Nat → Nat → Nat
  | 0, capacity => capacity
  | fuel + 1, capacity =>
    if size + 1 > capacity then growCapacity size increment fuel (capacity + increment)
    else capacity

/-- `util_grow_array(&array, &capacity, size, increment)` on an array of `capacity` slots: the
capacity grows until it exceeds `size`, and the new slots are zeroed. -/
def utilGrowArray (array : CArray) (size increment : Nat) : CArray :=
  array ++ List.replicate (growCapacity size increment (size + 1) array.length - array.length) none

/-- `util_shrink_array(array, new_size)`: a copy of its first `new_size` slots. -/
def utilShrinkArray (array : CArray) (newSize : Nat) : CArray :=
  if newSize = 0 then array else array.take newSize

/-- `strsep(&cur, deli)` on a non-`NULL` `cur`: the token before the first delimiter, and `cur`
after it, `NULL` when there is none. `util_string_split_n` cuts at the same place with
`strchr`. -/
def strsep (delim : Char) : List Char → List Char × Option (List Char)
  | [] => ([], none)
  | c :: cs =>
    if c = delim then ([], some cs)
    else
      let r := strsep delim cs
      (c :: r.1, r.2)

/-- The loop of `util_string_split_multi`: `strsep` until it returns `NULL`, each token stored
in slot `count` after growing the array by 16. -/
def splitMultiLoop (delim : Char) : Nat → Option (List Char) → CArray → Nat → CArray × Nat
  | 0, _, array, count => (array, count)
  | _ + 1, none, array, count => (array, count)
  | fuel + 1, some cur, array, count =>
    let r := strsep delim cur
    splitMultiLoop delim fuel r.2 ((utilGrowArray array (count + 1) 16).set count (some r.1))
      (count + 1)

/-- `util_string_split_multi(src_str, delim)` on a non-`NULL` string. -/
def utilStringSplitMulti (src : List Char) (delim : Char) : CArray :=
  if src = [] then makeEmptyArray
  else
    let r := splitMultiLoop delim (src.length + 1) (some src) [] 0
    utilShrinkArray r.1 (r.2 + 1)

/-- The loop of `util_string_split_n` from `index`: `strchr` finds the next separator; the
`n`-th one found ends the loop, and each one before it cuts a piece off. -/
def splitNLoop (sep : Char) (n : Nat) : Nat → List Char → CArray → Nat → CArray
  | 0, index, array, _ => utilArrayAppend array index
  | fuel + 1, index, array, count =>
    match strsep sep index with
    | (_, none) => utilArrayAppend array index
    | (piece, some rest) =>
      if count + 1 ≥ n then utilArrayAppend array index
      else splitNLoop sep n fuel rest (utilArrayAppend array piece) (count + 1)

/-- `util_string_split_n(src, sep, n)` on a non-`NULL` string. -/
def utilStringSplitN (src : List Char) (sep : Char) (n : Nat) : Option CArray :=
  if n = 0 then none
  else if src = [] then some makeEmptyArray
  else some (splitNLoop sep n (src.length + 1) src [] 0)

/-- `SIZE_MAX`. -/
def sizeMax : Nat := 2 ^ 64 - 1

/-- The length loop of `util_string_join`: each part's length is added to `result_len`; a
`NULL` part, or a total that would reach `SIZE_MAX`, fails. -/
def joinLength (resultLen : Nat) : List (Option (List Char)) → Option Nat
  | [] => some resultLen
  | none :: _ => none
  | some p :: ps =>
    if resultLen ≥ sizeMax - p.length then none else joinLength (resultLen + p.length) ps

/-- `do_string_join(sep, parts, parts_len, result_len)`: each part but the last, then `sep`,
appended with `strcat`, then the last part. -/
def doStringJoin (sep : List Char) (parts : List (List Char)) : List Char :=
  parts.dropLast.foldl (fun res p => res ++ p ++ sep) [] ++ parts.getLastD []

/-- `util_string_join(sep, parts, len)`, the `len` slots given as a list. -/
def utilStringJoin (sep : List Char) (parts : List (Option (List Char))) : Option (List Char) :=
  if parts = [] then none
  else if sep.length ≠ 0 ∧ sep.length ≠ 1 ∧ parts.length > sizeMax / sep.length + 1 then none
  else
    match joinLength ((parts.length - 1) * sep.length) parts with
    | none => none
    | some _ => some (doStringJoin sep (parts.filterMap id))

/-! ### The fields between separators -/

lemma splitOnChar_ne_nil (sep : Char) (s : List Char) : splitOnChar sep s ≠ [] := by
  cases s with
  | nil => simp [splitOnChar]
  | cons c cs =>
    rw [splitOnChar]
    split
    · simp
    · split <;> simp

/-- The first field is the text up to the first separator. -/
lemma splitOnChar_head (sep : Char) (s : List Char) :
    (splitOnChar sep s).head? = some (s.takeWhile fun c => c != sep) := by
  induction s with
  | nil => rfl
  | cons c cs ih =>
    by_cases hc : c = sep
    · subst hc
      simp [splitOnChar]
    · rw [splitOnChar, if_neg hc, List.takeWhile_cons_of_pos (by simpa using hc)]
      cases hs : splitOnChar sep cs with
      | nil => exact absurd hs (splitOnChar_ne_nil sep cs)
      | cons f fs =>
        rw [hs] at ih
        cases ih
        rfl

/-- There is more than one field exactly when the text has a separator. -/
lemma one_lt_length_splitOnChar (sep : Char) (s : List Char) :
    1 < (splitOnChar sep s).length ↔ sep ∈ s := by
  induction s with
  | nil => simp [splitOnChar]
  | cons c cs ih =>
    by_cases hc : c = sep
    · subst hc
      have hne := splitOnChar_ne_nil c cs
      simp only [splitOnChar, if_true, List.length_cons, List.mem_cons_self, iff_true]
      have : 0 < (splitOnChar c cs).length := List.length_pos_iff.2 hne
      omega
    · rw [splitOnChar, if_neg hc, List.mem_cons, ← ih]
      cases hs : splitOnChar sep cs with
      | nil => exact absurd hs (splitOnChar_ne_nil sep cs)
      | cons f fs =>
        have hsc : sep ≠ c := fun h => hc h.symm
        simp [hsc]

/-- A separator-free text is one field. -/
lemma splitOnChar_of_not_mem {sep : Char} {f : List Char} (h : sep ∉ f) :
    splitOnChar sep f = [f] := by
  induction f with
  | nil => rfl
  | cons c cs ih =>
    have hc : c ≠ sep := fun hc => h (hc ▸ List.mem_cons_self)
    rw [splitOnChar, if_neg hc, ih fun hx => h (List.mem_cons_of_mem _ hx)]

/-- The fields joined back with the separator are the text. -/
theorem intercalate_splitOnChar (sep : Char) (s : List Char) :
    [sep].intercalate (splitOnChar sep s) = s := by
  induction s with
  | nil => rfl
  | cons c cs ih =>
    obtain ⟨f, fs, hfs⟩ := List.exists_cons_of_ne_nil (splitOnChar_ne_nil sep cs)
    by_cases hc : c = sep
    · rw [splitOnChar, if_pos hc, hfs, List.intercalate_cons_cons, ← hfs, ih, hc]
      rfl
    · rw [splitOnChar, if_neg hc, hfs]
      dsimp only
      rw [List.intercalate_cons_cons_left, ← hfs, ih]

/-- A text with `k` separators has `k + 1` fields. -/
theorem length_splitOnChar (sep : Char) (s : List Char) :
    (splitOnChar sep s).length = s.count sep + 1 := by
  induction s with
  | nil => rfl
  | cons c cs ih =>
    obtain ⟨f, fs, hfs⟩ := List.exists_cons_of_ne_nil (splitOnChar_ne_nil sep cs)
    by_cases hc : c = sep
    · rw [splitOnChar, if_pos hc, List.length_cons, ih, List.count_cons, hc]
      simp
    · have hcount : (c :: cs).count sep = cs.count sep := by simp [hc]
      rw [splitOnChar, if_neg hc, hfs, hcount, ← ih, hfs]
      rfl

/-- What `strsep` cuts: the whole text when it has no delimiter, else the token before the
first delimiter and the text after it. -/
lemma strsep_eq (delim : Char) (s : List Char) :
    (delim ∉ s ∧ strsep delim s = (s, none)) ∨
      ∃ tok rest, delim ∉ tok ∧ s = tok ++ delim :: rest ∧ strsep delim s = (tok, some rest) := by
  induction s with
  | nil => exact .inl ⟨List.not_mem_nil, rfl⟩
  | cons c cs ih =>
    by_cases hc : c = delim
    · refine .inr ⟨[], cs, List.not_mem_nil, by rw [hc]; rfl, ?_⟩
      simp [strsep, hc]
    · have hc' : delim ≠ c := Ne.symm hc
      rcases ih with ⟨hn, he⟩ | ⟨tok, rest, hn, hs, he⟩
      · refine .inl ⟨by simp [hc', hn], ?_⟩
        simp [strsep, hc, he]
      · refine .inr ⟨c :: tok, rest, by simp [hc', hn], by rw [hs]; rfl, ?_⟩
        simp [strsep, hc, he]

/-! ### The arrays -/

attribute [local simp] growCapacity in
lemma le_growCapacity {size increment : Nat} (hinc : 0 < increment) :
    ∀ fuel capacity, size + 1 ≤ capacity + fuel →
      size + 1 ≤ growCapacity size increment fuel capacity := by
  intro fuel
  induction fuel with
  | zero => intro capacity h; exact h
  | succ fuel ih =>
    intro capacity h
    rw [growCapacity]
    split
    · exact ih _ (by omega)
    · omega

lemma self_le_growCapacity (size increment : Nat) :
    ∀ fuel capacity, capacity ≤ growCapacity size increment fuel capacity := by
  intro fuel
  induction fuel with
  | zero => intro capacity; exact Nat.le_refl _
  | succ fuel ih =>
    intro capacity
    rw [growCapacity]
    split
    · exact Nat.le_trans (Nat.le_add_right _ _) (ih _)
    · exact Nat.le_refl _

/-- Growing an array that holds `done` and then zeroed slots leaves at least two zeroed slots
after `done`: one for the next token and one for the terminator. -/
lemma utilGrowArray_eq (done : List (List Char)) (m : Nat) {increment : Nat}
    (hinc : 0 < increment) :
    ∃ m', 2 ≤ m' ∧ utilGrowArray (done.map some ++ List.replicate m none) (done.length + 1)
      increment = done.map some ++ List.replicate m' none := by
  have hlen : (done.map some ++ List.replicate m (none : Option (List Char))).length =
      done.length + m := by simp
  have hge := @le_growCapacity (done.length + 1) increment hinc (done.length + 1 + 1)
    (done.length + m) (by omega)
  have hself := self_le_growCapacity (done.length + 1) increment (done.length + 1 + 1)
    (done.length + m)
  refine ⟨m + (growCapacity (done.length + 1) increment (done.length + 1 + 1) (done.length + m) -
    (done.length + m)), by omega, ?_⟩
  rw [utilGrowArray, hlen, List.append_assoc, List.replicate_add]

lemma set_map_some_replicate (done : List (List Char)) (k : Nat) (x : List Char) :
    (done.map some ++ List.replicate (k + 1) none).set done.length (some x) =
      (done ++ [x]).map some ++ List.replicate k none := by
  rw [List.set_append_right _ _ (by simp)]
  simp [List.replicate_succ]

lemma utilArrayLen_map_some (done : List (List Char)) (pad : CArray) (hpad : pad.head? = some none) :
    utilArrayLen (done.map some ++ pad) = done.length := by
  obtain ⟨rest, rfl⟩ : ∃ rest, pad = none :: rest := by
    cases pad with
    | nil => cases hpad
    | cons x rest => exact ⟨rest, by simpa using hpad⟩
  rw [utilArrayLen, List.takeWhile_append_of_pos (by simp)]
  simp

/-- The slots of `util_string_split_multi` after the loop: the fields of what `cur` held after
the tokens before, then zeroed slots. -/
lemma splitMultiLoop_eq (delim : Char) :
    ∀ (fuel : Nat) (s : List Char) (done : List (List Char)) (m : Nat), s.length < fuel →
      ∃ m', 1 ≤ m' ∧
        splitMultiLoop delim fuel (some s) (done.map some ++ List.replicate m none) done.length =
          ((done ++ splitOnChar delim s).map some ++ List.replicate m' none,
            done.length + (splitOnChar delim s).length) := by
  intro fuel
  -- induction on the fuel: each `strsep` takes one token off `cur`
  induction fuel with
  | zero => intro s _ _ h; omega
  | succ fuel ih =>
    intro s done m hfuel
    obtain ⟨g, hg, hgrow⟩ := utilGrowArray_eq done m (show 0 < 16 by decide)
    obtain ⟨k, rfl⟩ : ∃ k, g = k + 1 := ⟨g - 1, by omega⟩
    have hset := set_map_some_replicate done k
    rcases strsep_eq delim s with ⟨hn, he⟩ | ⟨tok, rest, hn, hs, he⟩
    · -- the last token: `cur` becomes `NULL` and the loop ends
      refine ⟨k, by omega, ?_⟩
      rw [splitMultiLoop, he, hgrow, hset, splitOnChar_of_not_mem hn]
      cases fuel <;> simp [splitMultiLoop]
    · have hrest : rest.length < fuel := by
        rw [hs] at hfuel
        simp at hfuel
        omega
      obtain ⟨m', hm', heq⟩ := ih rest (done ++ [tok]) k hrest
      refine ⟨m', hm', ?_⟩
      rw [splitMultiLoop, he, hgrow]
      dsimp only
      rw [hset, show done.length + 1 = (done ++ [tok]).length by simp, heq, hs,
        splitOnChar_append hn]
      simp
      omega

/-- `util_string_split_multi` gives every field, empty ones included, then `NULL`. -/
theorem utilStringSplitMulti_eq (src : List Char) (delim : Char) :
    utilStringSplitMulti src delim = (splitOnChar delim src).map some ++ [none] := by
  unfold utilStringSplitMulti
  split
  · rename_i h
    subst h
    rfl
  · obtain ⟨m', hm', heq⟩ := splitMultiLoop_eq delim (src.length + 1) src [] 0 (by omega)
    simp only [List.map_nil, List.nil_append, List.replicate_zero, List.length_nil,
      Nat.zero_add] at heq
    rw [heq]
    obtain ⟨k, rfl⟩ : ∃ k, m' = k + 1 := ⟨m' - 1, by omega⟩
    simp [utilShrinkArray, List.take_append, List.replicate_succ]

/-! ### `util_string_split_n` -/

lemma take_utilArrayLen_map (done : List (List Char)) :
    (done.map some ++ [none]).take (utilArrayLen (done.map some ++ [none])) = done.map some := by
  rw [utilArrayLen_map_some done [none] rfl]
  simp

lemma utilArrayAppend_of_take {array : CArray} {done : List (List Char)}
    (h : array.take (utilArrayLen array) = done.map some) (e : List Char) :
    utilArrayAppend array e = (done ++ [e]).map some ++ [none] := by
  rw [utilArrayAppend, h]
  simp

attribute [local simp] splitNLoop in
/-- The loop of `util_string_split_n` from `index`, after `count` pieces: at most `n - count`
more pieces, which joined with the separator give `index` back. -/
lemma splitNLoop_eq (sep : Char) (n : Nat) :
    ∀ (fuel : Nat) (index : List Char) (done : List (List Char)) (array : CArray) (count : Nat),
      array.take (utilArrayLen array) = done.map some → count < n → index.length < fuel →
      ∃ P, splitNLoop sep n fuel index array count = (done ++ P).map some ++ [none] ∧
        [sep].intercalate P = index ∧ P.length = min (n - count) (index.count sep + 1) := by
  intro fuel
  -- induction on the fuel: each separator found cuts one piece off `index`
  induction fuel with
  | zero => intro _ _ _ _ _ _ h; omega
  | succ fuel ih =>
    intro index done array count harr hcount hfuel
    rcases strsep_eq sep index with ⟨hn, he⟩ | ⟨piece, rest, hn, hs, he⟩
    · -- no separator left: the rest is the last piece
      refine ⟨[index], ?_, List.intercalate_singleton, ?_⟩
      · rw [splitNLoop, he]
        exact utilArrayAppend_of_take harr index
      · rw [List.count_eq_zero.2 hn]
        simp
        omega
    · by_cases hlast : count + 1 ≥ n
      · -- the `n`-th separator: the loop stops, and the rest is the last piece
        refine ⟨[index], ?_, List.intercalate_singleton, ?_⟩
        · rw [splitNLoop, he]
          dsimp only
          rw [if_pos hlast]
          exact utilArrayAppend_of_take harr index
        · simp
          omega
      · have hrest : rest.length < fuel := by
          rw [hs] at hfuel
          simp at hfuel
          omega
        have harr' : (utilArrayAppend array piece).take (utilArrayLen (utilArrayAppend array piece)) =
            (done ++ [piece]).map some := by
          rw [utilArrayAppend_of_take harr]
          exact take_utilArrayLen_map _
        obtain ⟨P, hP, hjoin, hlen⟩ := ih rest (done ++ [piece]) _ (count + 1) harr' (by omega) hrest
        have hne : P ≠ [] := by
          intro h
          rw [h, List.length_nil] at hlen
          omega
        obtain ⟨p, ps, rfl⟩ := List.exists_cons_of_ne_nil hne
        refine ⟨piece :: p :: ps, ?_, ?_, ?_⟩
        · rw [splitNLoop, he]
          dsimp only
          rw [if_neg hlast, hP]
          simp
        · rw [List.intercalate_cons_cons, hjoin, hs]
          simp
        · have hcnt : index.count sep = rest.count sep + 1 := by
            rw [hs, List.count_append, List.count_eq_zero.2 hn]
            simp
          rw [hcnt]
          simp only [List.length_cons] at hlen ⊢
          omega

/-- `util_string_split_n` with `n > 0` gives at most `n` pieces, `k + 1` when `s` has `k < n`
separators, then `NULL`; joined with the separator they give `src` back. -/
theorem utilStringSplitN_spec (src : List Char) (sep : Char) {n : Nat} (hn : 0 < n) :
    ∃ P, utilStringSplitN src sep n = some (P.map some ++ [none]) ∧ [sep].intercalate P = src ∧
      P.length = min n (src.count sep + 1) := by
  unfold utilStringSplitN
  rw [if_neg (by omega)]
  split
  · rename_i h
    subst h
    refine ⟨[[]], rfl, rfl, ?_⟩
    simp
    omega
  · obtain ⟨P, hP, hjoin, hlen⟩ := splitNLoop_eq sep n (src.length + 1) src [] [] 0 rfl hn
      (by omega)
    exact ⟨P, by rw [hP]; rfl, hjoin, by simpa using hlen⟩

/-- `util_string_split_n(src, sep, 2)` on a non-empty text: the text when it has no separator,
else the piece before the first separator and the rest. -/
lemma utilStringSplitN_two (src : List Char) (sep : Char) (hne : src ≠ []) :
    (sep ∉ src ∧ utilStringSplitN src sep 2 = some [some src, none]) ∨
      ∃ tok rest, sep ∉ tok ∧ src = tok ++ sep :: rest ∧
        utilStringSplitN src sep 2 = some [some tok, some rest, none] := by
  unfold utilStringSplitN
  rw [if_neg (by omega), if_neg hne]
  rcases strsep_eq sep src with ⟨hn, he⟩ | ⟨tok, rest, hn, hs, he⟩
  · refine .inl ⟨hn, ?_⟩
    rw [splitNLoop, he]
    rfl
  · refine .inr ⟨tok, rest, hn, hs, ?_⟩
    obtain ⟨k, hk⟩ : ∃ k, src.length = k + 1 := ⟨src.length - 1, by
      have := List.length_pos_iff.2 hne
      omega⟩
    rw [splitNLoop, he]
    dsimp only
    rw [if_neg (by omega), hk, splitNLoop]
    -- the second piece is the rest, whether or not it has a separator
    split
    · rfl
    · rw [if_pos (by omega)]
      rfl

/-! ### `util_string_join` -/

lemma foldl_append_sep (sep : List Char) (parts : List (List Char)) (acc : List Char) :
    parts.foldl (fun res p => res ++ p ++ sep) acc = acc ++ (parts.map (· ++ sep)).flatten := by
  induction parts generalizing acc with
  | nil => simp
  | cons p ps ih =>
    rw [List.foldl_cons, ih]
    simp

lemma intercalate_eq_flatten (sep : List Char) :
    ∀ parts : List (List Char),
      sep.intercalate parts = (parts.dropLast.map (· ++ sep)).flatten ++ parts.getLastD []
  | [] => rfl
  | [p] => by simp
  | p :: q :: rest => by
    rw [List.intercalate_cons_cons, intercalate_eq_flatten sep (q :: rest)]
    simp

/-- `do_string_join` puts the separator between the parts. -/
lemma doStringJoin_eq (sep : List Char) (parts : List (List Char)) :
    doStringJoin sep parts = sep.intercalate parts := by
  rw [doStringJoin, foldl_append_sep, List.nil_append, intercalate_eq_flatten]

lemma joinLength_map_some (ps : List (List Char)) :
    ∀ r, r + (ps.map List.length).sum < sizeMax →
      joinLength r (ps.map some) = some (r + (ps.map List.length).sum) := by
  induction ps with
  | nil => intro r _; simp [joinLength]
  | cons p ps ih =>
    intro r h
    simp only [List.map_cons, List.sum_cons] at h ⊢
    rw [joinLength, if_neg (by omega), ih (r + p.length) (by omega)]
    simp only [Option.some.injEq]
    omega

lemma length_intercalate_singleton (sep : Char) :
    ∀ P : List (List Char), ([sep].intercalate P).length = (P.map List.length).sum + (P.length - 1)
  | [] => rfl
  | [p] => by simp
  | p :: q :: rest => by
    rw [List.intercalate_cons_cons, List.length_append, List.length_append,
      length_intercalate_singleton sep (q :: rest)]
    simp only [List.map_cons, List.sum_cons, List.length_cons, List.length_nil]
    omega

/-- `util_string_join` of non-`NULL` parts with a one-character separator, when the result is
shorter than `SIZE_MAX`: the parts with the separator between them. -/
lemma utilStringJoin_map_some (sep : Char) {P : List (List Char)} (hP : P ≠ [])
    (hlen : ([sep].intercalate P).length < sizeMax) :
    utilStringJoin [sep] (P.map some) = some ([sep].intercalate P) := by
  have hsum := length_intercalate_singleton sep P
  unfold utilStringJoin
  rw [if_neg (by simpa using hP), if_neg (by simp), List.length_map, List.length_singleton,
    Nat.mul_one, joinLength_map_some P _ (by omega)]
  simp [doStringJoin_eq, List.filterMap_map]

/-! ### `util_string_split` -/

/-- `strtok_r(str, deli, &reserve_ptr)`: the delimiters skipped, the token up to the next one
(overwritten with `NUL`), and the text after it; `NULL` at the end of the text. -/
def strtokR (sep : Char) (s : List Char) : Option (List Char × List Char) :=
  match s.dropWhile (· = sep) with
  | [] => none
  | t =>
    let r := strsep sep t
    some (r.1, r.2.getD [])

/-- The tokens the `for` loop of `util_string_split` stores, on fuel. -/
def strtokLoop (sep : Char) : Nat → List Char → List (List Char)
  | 0, _ => []
  | fuel + 1, s =>
    match strtokR sep s with
    | none => []
    | some (tok, rest) => tok :: strtokLoop sep fuel rest

lemma strtokLoop_nil (sep : Char) (fuel : Nat) : strtokLoop sep fuel [] = [] := by
  cases fuel <;> rfl

lemma strtokTokens_dropWhile (sep : Char) (s : List Char) :
    strtokTokens sep (s.dropWhile (· = sep)) = strtokTokens sep s := by
  induction s with
  | nil => rfl
  | cons c cs ih =>
    by_cases hc : c = sep
    · rw [List.dropWhile_cons_of_pos (by simpa using hc), ih, strtokTokens, strtokTokens,
        splitOnChar, if_pos hc]
      simp
    · rw [List.dropWhile_cons_of_neg (by simpa using hc)]

/-- The calls of `strtok_r` return the non-empty fields, in order. -/
theorem strtokLoop_eq (sep : Char) :
    ∀ (fuel : Nat) (s : List Char), s.length < fuel → strtokLoop sep fuel s = strtokTokens sep s := by
  intro fuel
  induction fuel with
  | zero => intro _ h; omega
  | succ fuel ih =>
    intro s hfuel
    have hlen : (s.dropWhile (· = sep)).length ≤ s.length := List.length_dropWhile_le _ _
    rw [← strtokTokens_dropWhile, strtokLoop, strtokR]
    generalize ht : s.dropWhile (· = sep) = t at hlen
    cases t with
    | nil => rfl
    | cons x xs =>
      -- the text after the skipped delimiters starts with the token
      have hx : x ≠ sep := by
        have := List.head_dropWhile_not (fun c => decide (c = sep)) (l := s) (by rw [ht]; simp)
        simp only [ht, List.head_cons, decide_eq_false_iff_not] at this
        exact this
      rcases strsep_eq sep (x :: xs) with ⟨hn, he⟩ | ⟨tok, rest, hn, hs, he⟩
      · -- the last token
        dsimp only
        rw [he]
        dsimp only
        rw [Option.getD_none, strtokLoop_nil, strtokTokens, splitOnChar_of_not_mem hn]
        simp
      · have htok : tok ≠ [] := by
          rintro rfl
          exact hx (List.cons.inj hs).1
        dsimp only
        rw [he]
        dsimp only
        rw [Option.getD_some, ih rest (by rw [hs] at hlen; simp at hlen; omega), hs,
          strtokTokens_append hn htok]

/-- Splitting `s` at `c` and joining the pieces with `"c"` gives `s` back: `util_string_split_n`
makes `min n (k + 1)` pieces and `util_string_split_multi` `k + 1`, where `k` counts `c` in `s`,
each array ending in `NULL`; `util_string_split` gives the non-empty fields, or `[""]` when
there is none. -/
theorem utilString_split_join_roundTrip (s : List Char) (c : Char) {n : Nat} (hn : 1 ≤ n)
    (hs : s.length < sizeMax) :
    (∃ P : List (List Char), utilStringSplitN s c n = some (P.map some ++ [none]) ∧
      utilStringJoin [c] (P.map some) = some s ∧ P.length = min n (s.count c + 1)) ∧
    (∃ P : List (List Char), utilStringSplitMulti s c = P.map some ++ [none] ∧
      utilStringJoin [c] (P.map some) = some s ∧ P.length = s.count c + 1) ∧
    (utilStringSplit (String.ofList s) c).map String.toList =
      if (splitOnChar c s).filter (· ≠ []) = [] then [[]] else (splitOnChar c s).filter (· ≠ []) := by
  refine ⟨?_, ?_, ?_⟩
  · obtain ⟨P, hP, hjoin, hlen⟩ := utilStringSplitN_spec s c hn
    have hne : P ≠ [] := by
      intro h
      rw [h, List.length_nil] at hlen
      omega
    refine ⟨P, hP, ?_, hlen⟩
    rw [utilStringJoin_map_some c hne (by rw [hjoin]; exact hs), hjoin]
  · refine ⟨splitOnChar c s, utilStringSplitMulti_eq s c, ?_, length_splitOnChar c s⟩
    rw [utilStringJoin_map_some c (splitOnChar_ne_nil c s)
      (by rw [intercalate_splitOnChar]; exact hs), intercalate_splitOnChar]
  · unfold utilStringSplit
    by_cases h0 : s = []
    · subst h0
      rfl
    · have hne : String.ofList s ≠ "" := by
        intro h
        exact h0 (by simpa using congrArg String.toList h)
      rw [if_neg hne, String.toList_ofList, ← strtokTokens]
      cases strtokTokens c s with
      | nil => rfl
      | cons t ts => simp

theorem utilString_split_join_roundTrip_colon :
    1 ≤ 1 ∧ "a:b".toList.length < sizeMax ∧
      ∃ P : List (List Char), utilStringSplitMulti "a:b".toList ':' = P.map some ++ [none] ∧
        utilStringJoin [':'] (P.map some) = some "a:b".toList ∧
        P.length = "a:b".toList.count ':' + 1 :=
  ⟨by decide, by decide,
    (utilString_split_join_roundTrip "a:b".toList ':' (n := 1) (by decide) (by decide)).2.1⟩

/-! ### Tokens of a text with more added -/

/-- A separator splits the text on its two sides apart. -/
lemma splitOnChar_append_sep (sep : Char) (a b : List Char) :
    splitOnChar sep (a ++ sep :: b) = splitOnChar sep a ++ splitOnChar sep b := by
  induction a with
  | nil => simp [splitOnChar]
  | cons c cs ih =>
    rw [List.cons_append, splitOnChar, splitOnChar, ih]
    by_cases hc : c = sep
    · rw [if_pos hc, if_pos hc, List.cons_append]
    · rw [if_neg hc, if_neg hc]
      obtain ⟨f, fs, hf⟩ := List.exists_cons_of_ne_nil (splitOnChar_ne_nil sep cs)
      rw [hf, List.cons_append]
      rfl

/-- Text without the separator added at the end goes to the last piece. -/
lemma splitOnChar_append_of_not_mem {sep : Char} {t : List Char} (ht : sep ∉ t) (a : List Char) :
    ∃ init last, splitOnChar sep a = init ++ [last] ∧ splitOnChar sep (a ++ t) = init ++ [last ++ t] := by
  induction a with
  | nil => exact ⟨[], [], rfl, by rw [List.nil_append, splitOnChar_of_not_mem ht]; rfl⟩
  | cons c cs ih =>
    obtain ⟨init, last, hs, hst⟩ := ih
    rw [List.cons_append, splitOnChar, splitOnChar, hs, hst]
    by_cases hc : c = sep
    · rw [if_pos hc, if_pos hc]
      exact ⟨[] :: init, last, rfl, rfl⟩
    · rw [if_neg hc, if_neg hc]
      cases init with
      | nil => exact ⟨[], c :: last, rfl, rfl⟩
      | cons i is => exact ⟨(c :: i) :: is, last, rfl, rfl⟩

lemma strtokTokens_append_sep (sep : Char) (a b : List Char) :
    strtokTokens sep (a ++ sep :: b) = strtokTokens sep a ++ strtokTokens sep b := by
  rw [strtokTokens, splitOnChar_append_sep, List.filter_append]
  rfl

/-- A non-empty text without the separator added at the end extends the last token, or makes
one. -/
lemma strtokTokens_append_of_not_mem {sep : Char} {t : List Char} (ht : sep ∉ t) (htne : t ≠ [])
    (a : List Char) :
    ∃ (init : List (List Char)) (last : List Char), strtokTokens sep a = init.filter (fun f => f ≠ []) ++ [last].filter (fun f => f ≠ []) ∧
      strtokTokens sep (a ++ t) = init.filter (fun f => f ≠ []) ++ [last ++ t] := by
  obtain ⟨init, last, hs, hst⟩ := splitOnChar_append_of_not_mem ht a
  refine ⟨init, last, by rw [strtokTokens, hs, List.filter_append], ?_⟩
  rw [strtokTokens, hst, List.filter_append, List.filter_singleton]
  simp [htne]

lemma strtokTokens_of_not_mem {sep : Char} {s : List Char} (h : sep ∉ s) (hne : s ≠ []) :
    strtokTokens sep s = [s] := by
  rw [strtokTokens, splitOnChar_of_not_mem h, List.filter_singleton]
  simp [hne]

end SplitJoin

/-! ## Byte sizes -/

/-- `EINVAL` and `ERANGE`. -/
def einval : Int := 22
def erange : Int := 34

/-- `LLONG_MIN`, `LLONG_MAX` and `INT64_MAX`. -/
def llongMin : Int := -9223372036854775808
def llongMax : Int := 9223372036854775807
def int64Max : Int := 9223372036854775807

/-- `util_safe_llong(numstr, &converted)` (`utils_convert.c`): `strtoll` in base 0 over the
whole text; the value, or `-errno`. -/
def utilSafeLlong (numStr : List Char) : Except Int Int :=
  match Verify.strtol0 numStr with
  | (none, _) => .error (-einval)
  | (some v, rest) =>
    -- `strtoll` sets `ERANGE` whatever follows the digits, and that is tested first
    if v < llongMin ∨ llongMax < v then .error (-erange)
    else if rest ≠ [] then .error (-einval)
    else .ok v

/-- `SIZE_KB` to `SIZE_PB`. -/
def sizeKb : Int := 1024
def sizeMb : Int := 1024 * sizeKb
def sizeGb : Int := 1024 * sizeMb
def sizeTb : Int := 1024 * sizeGb
def sizePb : Int := 1024 * sizeTb

/-- `g_unit_map`: each unit's name and multiple. -/
def gUnitMap : List (String × Int) :=
  [("I", 1), ("B", 1), ("IB", 1),
   ("K", sizeKb), ("KI", sizeKb), ("KB", sizeKb), ("KIB", sizeKb),
   ("M", sizeMb), ("MI", sizeMb), ("MB", sizeMb), ("MIB", sizeMb),
   ("G", sizeGb), ("GI", sizeGb), ("GB", sizeGb), ("GIB", sizeGb),
   ("T", sizeTb), ("TI", sizeTb), ("TB", sizeTb), ("TIB", sizeTb),
   ("P", sizePb), ("PI", sizePb), ("PB", sizePb), ("PIB", sizePb)]

/-- `strcasecmp(a, b) == 0` in the C locale. -/
def strcaseEq (a b : List Char) : Bool := a.map Char.toLower == b.map Char.toLower

/-- `parse_unit_multiple(unit, &mltpl)`. -/
def parseUnitMultiple (unit : List Char) : Except Int Int :=
  if unit = [] then .ok 1
  else
    match gUnitMap.find? fun e => strcaseEq unit e.1.toList with
    | some e => .ok e.2
    | none => .error (-einval)

/-- The fraction's part of `util_parse_size_int_and_float`: `float_real`, from the digits
after the dot. `util_safe_strtod` reads `0.frac` as the binary64 number nearest it, `mlt` is
converted to binary64 for `float_size * mlt`, whose product is rounded again, and each
`(int64_t)` cast truncates. -/
def floatReal (frac : List Char) (mlt : Int) : Except Int Int :=
  -- `strtod` reads `0.frac`; a second dot is left over, and the text is refused
  if !frac.all Char.isDigit then .error (-einval)
  else
    let exact : ℚ := (Verify.digitsValue 10 frac : ℚ) / 10 ^ frac.length
    if Binary64.underflows exact then .error (-erange)
    else
      -- at most `1.0`, which `0.` followed by seventeen nines already rounds to
      let floatSize := Binary64.round exact
      if 0 < mlt then
        if int64Max / mlt < ⌊floatSize⌋ then .error (-erange)
        else .ok ⌊Binary64.round (floatSize * Binary64.round mlt)⌋
      else .ok ⌊floatSize⌋

/-- The integer part of `util_parse_size_int_and_float`, added to `float_real`. -/
def intReal (intPart : List Char) (mlt floatReal : Int) : Except Int Int :=
  match utilSafeLlong intPart with
  | .error e => .error e
  | .ok intSize =>
    if 0 < mlt ∧ int64Max / mlt < intSize then .error (-erange)
    else
      let intReal := if 0 < mlt then intSize * mlt else intSize
      if int64Max - intReal < floatReal then .error (-erange) else .ok (intReal + floatReal)

/-- `util_parse_size_int_and_float(numstr, mlt, &converted)`. -/
def utilParseSizeIntAndFloat (numStr : List Char) (mlt : Int) : Except Int Int :=
  match numStr.span (· ≠ '.') with
  | (intPart, []) => intReal intPart mlt 0
  | (intPart, _ :: frac) =>
    if intPart = [] ∨ frac = [] then .error (-einval)
    else
      match floatReal frac mlt with
      | .error e => .error e
      | .ok f => intReal intPart mlt f

/-- `util_parse_byte_size_string(s, &converted)`. -/
def utilParseByteSizeString (s : List Char) : Except Int Int :=
  match s with
  | [] => .error (-einval)
  | c :: _ =>
    if !c.isDigit then .error (-einval)
    else
      let isNum := fun c : Char => c.isDigit || c = '.'
      match parseUnitMultiple (s.dropWhile isNum) with
      | .error e => .error e
      | .ok mltpl => utilParseSizeIntAndFloat (s.takeWhile isNum) mltpl

/-! ## Decimal sizes -/

section DecimalSizes

open Verify

lemma toNat_of_isDigit {c : Char} (hc : c.isDigit = true) : 48 ≤ c.toNat ∧ c.toNat ≤ 57 := by
  simp only [Char.isDigit, Bool.and_eq_true, decide_eq_true_eq, ge_iff_le,
    UInt32.le_iff_toNat_le] at hc
  exact hc

attribute [local simp] Verify.isDigitOf Verify.digitValue in
lemma isDigitOf_ten {c : Char} (hc : c.isDigit = true) : isDigitOf 10 c = true := by
  have hn := toNat_of_isDigit hc
  have h : '0' ≤ c ∧ c ≤ '9' := by
    simp only [Char.le_def, UInt32.le_iff_toNat_le]
    exact ⟨hn.1, hn.2⟩
  simp only [isDigitOf, digitValue, if_pos h, Option.any_some, decide_eq_true_eq]
  change c.toNat - 48 < 10
  omega

lemma isSpace_of_isDigit {c : Char} (hc : c.isDigit = true) : isSpace c = false := by
  simp only [isSpace, Bool.or_eq_false_iff, decide_eq_false_iff_not]
  refine ⟨⟨⟨⟨⟨?_, ?_⟩, ?_⟩, ?_⟩, ?_⟩, ?_⟩ <;> rintro rfl <;> simp at hc

attribute [local simp] Verify.strtol0 in
/-- `strtol` in base 0 reads decimal digits that do not start with `0` as decimal. -/
lemma strtol0_decimal {d : List Char} (hd : ∀ c ∈ d, c.isDigit = true) (hne : d ≠ [])
    (h0 : d.head? ≠ some '0') : strtol0 d = (some (digitsValue 10 d : Int), []) := by
  obtain ⟨c, cs, rfl⟩ := List.exists_cons_of_ne_nil hne
  have hc := hd c List.mem_cons_self
  have hc0 : c ≠ '0' := fun h => h0 (by simp [h])
  have hcm : c ≠ '-' := by rintro rfl; simp at hc
  have hcp : c ≠ '+' := by rintro rfl; simp at hc
  have htake : (c :: cs).takeWhile (isDigitOf 10) = c :: cs :=
    List.takeWhile_eq_self_iff.2 fun x hx => isDigitOf_ten (hd x hx)
  unfold strtol0
  simp [isSpace_of_isDigit hc, hc0, hcm, hcp, htake]

lemma parseUnitMultiple_pos {u : List Char} {mlt : Int} (hu : parseUnitMultiple u = .ok mlt) :
    0 < mlt := by
  unfold parseUnitMultiple at hu
  split at hu
  · cases hu
    decide
  · split at hu
    · rename_i e he
      cases hu
      have hpos : ∀ e ∈ gUnitMap, 0 < e.2 := by decide
      exact hpos e (List.mem_of_find?_eq_some he)
    · cases hu

lemma utilSafeLlong_decimal {d : List Char} (hd : ∀ c ∈ d, c.isDigit = true) (hne : d ≠ [])
    (h0 : d.head? ≠ some '0') :
    utilSafeLlong d =
      if (digitsValue 10 d : Int) ≤ llongMax then .ok (digitsValue 10 d) else .error (-erange) := by
  have hmin : llongMin ≤ (digitsValue 10 d : Int) := by
    have : llongMin ≤ 0 := by decide
    omega
  unfold utilSafeLlong
  rw [strtol0_decimal hd hne h0]
  by_cases hmax : (digitsValue 10 d : Int) ≤ llongMax
  · simp [hmax, hmin]
  · simp [hmax]

/-- `strtol` in base 0 reads a `0` followed by octal digits as octal. -/
lemma strtol0_octal {ds : List Char} (hd : ∀ c ∈ ds, isDigitOf 8 c = true) :
    strtol0 ('0' :: ds) = (some (digitsValue 8 ('0' :: ds) : Int), []) := by
  have htake : ('0' :: ds).takeWhile (isDigitOf 8) = '0' :: ds := by
    refine List.takeWhile_eq_self_iff.2 fun c hc => ?_
    rcases List.mem_cons.1 hc with rfl | hc
    · decide
    · exact hd c hc
  have hsp : isSpace '0' = false := by decide
  unfold strtol0
  -- `0` and `0d` take the octal branch directly, a longer text because `d` is no `x`
  rcases ds with _ | ⟨x, _ | ⟨d, t⟩⟩
  · simp [hsp, htake]
  · simp [hsp, htake]
  · have hx : ¬ (x = 'x' ∨ x = 'X') := by
      rintro (rfl | rfl) <;> exact absurd (hd _ List.mem_cons_self) (by decide)
    simp [hsp, hx, htake]

/-- `strtol` in base 0 reads `0x` followed by hexadecimal digits as hexadecimal. -/
lemma strtol0_hex {hs : List Char} (hne : hs ≠ []) (hd : ∀ c ∈ hs, isDigitOf 16 c = true) :
    strtol0 ('0' :: 'x' :: hs) = (some (digitsValue 16 hs : Int), []) := by
  obtain ⟨h, t, rfl⟩ := List.exists_cons_of_ne_nil hne
  have htake : (h :: t).takeWhile (isDigitOf 16) = h :: t := List.takeWhile_eq_self_iff.2 hd
  have hsp : isSpace '0' = false := by decide
  unfold strtol0
  simp [hsp, htake, hd h List.mem_cons_self]

/-- A number `strtol` reads from the whole text, in `long long` range, is what
`util_safe_llong` returns. -/
lemma utilSafeLlong_of_strtol0 {s : List Char} {v : Int} (h : strtol0 s = (some v, []))
    (hmin : llongMin ≤ v) (hmax : v ≤ llongMax) : utilSafeLlong s = .ok v := by
  unfold utilSafeLlong
  rw [h]
  simp [Int.not_lt.2 hmin, Int.not_lt.2 hmax]

/-- Digits without a leading zero and a unit: the decimal value times the unit's multiple, or
`-ERANGE` past `INT64_MAX`. -/
theorem utilParseByteSizeString_decimal {d u : List Char} (hd : ∀ c ∈ d, c.isDigit = true)
    (hne : d ≠ []) (h0 : d.head? ≠ some '0') {mlt : Int} (hu : parseUnitMultiple u = .ok mlt)
    (hstop : ∀ c ∈ u.head?, (c.isDigit || c = '.') = false) :
    utilParseByteSizeString (d ++ u) =
      if digitsValue 10 d * mlt ≤ int64Max then .ok (digitsValue 10 d * mlt)
      else .error (-erange) := by
  obtain ⟨c, cs, rfl⟩ := List.exists_cons_of_ne_nil hne
  have hnum : ∀ x ∈ c :: cs, (x.isDigit || x = '.') = true := fun x hx => by simp [hd x hx]
  have hdrop : (c :: cs ++ u).dropWhile (fun x => x.isDigit || x = '.') = u := by
    rw [List.dropWhile_append_of_pos hnum]
    cases u with
    | nil => rfl
    | cons x xs => exact List.dropWhile_cons_of_neg (by simpa using hstop x rfl)
  have htake : (c :: cs ++ u).takeWhile (fun x => x.isDigit || x = '.') = c :: cs := by
    rw [List.takeWhile_append_of_pos hnum]
    cases u with
    | nil => simp
    | cons x xs => simp [List.takeWhile_cons_of_neg, hstop x rfl]
  have hdot : ∀ x ∈ c :: cs, decide (x ≠ '.') = true := fun x hx => by
    have := hd x hx
    simp only [decide_eq_true_eq]
    rintro rfl
    simp at this
  have hspan : (c :: cs).span (· ≠ '.') = (c :: cs, []) := by
    rw [List.span_eq_takeWhile_dropWhile, List.takeWhile_eq_self_iff.2 hdot,
      List.dropWhile_eq_nil_iff.2 hdot]
  have hmlt := parseUnitMultiple_pos hu
  have hc : c.isDigit = true := hd c List.mem_cons_self
  have hparse : utilParseByteSizeString (c :: cs ++ u) = intReal (c :: cs) mlt 0 := by
    unfold utilParseByteSizeString
    simp only [List.cons_append] at hdrop htake ⊢
    simp only [hc, Bool.not_true, Bool.false_eq_true, if_false, hdrop, htake, hu]
    unfold utilParseSizeIntAndFloat
    rw [hspan]
  rw [hparse]
  unfold intReal
  rw [utilSafeLlong_decimal hd hne h0]
  -- the range test of `util_parse_size_int_and_float` is exactly the product's
  have hdiv : int64Max / mlt < digitsValue 10 (c :: cs) ↔
      int64Max < digitsValue 10 (c :: cs) * mlt := Int.ediv_lt_iff_lt_mul hmlt
  by_cases hmax : (digitsValue 10 (c :: cs) : Int) ≤ llongMax
  · rw [if_pos hmax]
    dsimp only
    by_cases hp : digitsValue 10 (c :: cs) * mlt ≤ int64Max
    · rw [if_pos hp, if_neg (by omega), if_pos hmlt, if_neg (by omega), Int.add_zero]
    · rw [if_neg hp, if_pos ⟨hmlt, by omega⟩]
  · -- past `LLONG_MAX`, which is `INT64_MAX`, `strtoll` already fails with `ERANGE`
    have hle : (digitsValue 10 (c :: cs) : Int) ≤ digitsValue 10 (c :: cs) * mlt := by
      simpa using Int.mul_le_mul_of_nonneg_left (show 1 ≤ mlt by omega) (Int.natCast_nonneg _)
    rw [if_neg hmax]
    exact (if_neg fun h => hmax (Int.le_trans hle h)).symm

end DecimalSizes

/-- A leading zero makes the number octal: `010K` is 8 KiB, not 10, and `09K` is refused. -/
theorem utilParseByteSizeString_reads_octal :
    utilParseByteSizeString "010K".toList = .ok 8192 ∧
    Verify.digitsValue 10 "010".toList * sizeKb = 10240 ∧
    utilParseByteSizeString "09K".toList = .error (-einval) := by
  refine ⟨rfl, rfl, rfl⟩

/-! ## Percentages -/

section Percent

open Verify

/-- `LONG_MIN` and `LONG_MAX` (`long` is 64 bits wide). -/
def longMin : Int := -9223372036854775808
def longMax : Int := 9223372036854775807

/-- `strtol(s, NULL, 10)` with `errno` as it stands before the call: the value and `errno`
after it. Out of range the value is clamped to `LONG_MIN` or `LONG_MAX` and `errno` becomes
`ERANGE`; otherwise `errno` is left as it was, also when no digit is read (the value is then 0). -/
def strtol10 (s : List Char) (errno : Int) : Int × Int :=
  let s1 := s.dropWhile isSpace
  let signed : Bool × List Char :=
    match s1 with
    | '-' :: t => (true, t)
    | '+' :: t => (false, t)
    | t => (false, t)
  let n : Int := digitsValue 10 (signed.2.takeWhile (isDigitOf 10))
  let v := if signed.1 then -n else n
  if v < longMin then (longMin, erange)
  else if longMax < v then (longMax, erange)
  else (v, errno)

/-- `util_parse_percent_string(s, &converted)` with `errno` as it stands before the call: the
value stored in `*converted`, or `-EINVAL`. -/
def utilParsePercentString (s : List Char) (errno : Int) : Except Int Int :=
  if s = [] ∨ s.length < 2 ∨ s.getLast? ≠ some '%' ∨
      ¬ s.all (fun c => c.isDigit || c = '%') then .error (-einval)
  else
    -- the last `%` is cut off, and `strtol` reads up to the first other `%`
    let (converted, errno) := strtol10 s.dropLast errno
    if (errno = erange ∧ (converted = longMax ∨ converted = longMin)) ∨
        (errno ≠ 0 ∧ converted = 0) ∨ converted < 0 ∨ 100 < converted then .error (-einval)
    else .ok converted

lemma isDigitOf_ten_eq (c : Char) : isDigitOf 10 c = c.isDigit := by
  cases hc : c.isDigit with
  | true => exact isDigitOf_ten hc
  | false =>
    have h : ¬ ('0' ≤ c ∧ c ≤ '9') := by
      rintro ⟨h0, h9⟩
      have h0' : c.val ≥ '0'.val := h0
      have h9' : c.val ≤ '9'.val := h9
      simp only [Char.isDigit, h0', h9', decide_true, Bool.and_self, Bool.true_eq_false] at hc
    -- a letter is a digit of base 36 but worth at least 10
    simp only [isDigitOf, digitValue, if_neg h]
    split_ifs with ha hA
    · simp only [Option.any_some, decide_eq_false_iff_not]
      omega
    · simp only [Option.any_some, decide_eq_false_iff_not]
      omega
    · rfl

/-- `strtol` in base 10 on a text of digits and `%` reads the leading digits. -/
lemma strtol10_digits {d : List Char} (hd : ∀ c ∈ d, c.isDigit = true ∨ c = '%') (errno : Int) :
    strtol10 d errno =
      if longMax < digitsValue 10 (d.takeWhile Char.isDigit) then (longMax, erange)
      else (digitsValue 10 (d.takeWhile Char.isDigit), errno) := by
  have hdigit : isDigitOf 10 = Char.isDigit := funext isDigitOf_ten_eq
  have hmin : ¬ ((digitsValue 10 (d.takeWhile Char.isDigit) : Int) < longMin) := by
    have : longMin ≤ 0 := by decide
    omega
  cases d with
  | nil => rfl
  | cons c cs =>
    have hc := hd c List.mem_cons_self
    have hsp : isSpace c = false := hc.elim isSpace_of_isDigit (by rintro rfl; rfl)
    -- neither sign can start the text
    have hcm : c ≠ '-' := by
      rcases hc with hc | rfl
      · rintro rfl
        simp at hc
      · decide
    have hcp : c ≠ '+' := by
      rcases hc with hc | rfl
      · rintro rfl
        simp at hc
      · decide
    unfold strtol10
    simp [hsp, hdigit, hcm, hcp, hmin]

lemma getLast?_eq_some_iff_append {s : List Char} {a : Char} :
    s.getLast? = some a ↔ s = s.dropLast ++ [a] := by
  constructor
  · intro h
    exact (List.dropLast_append_getLast? a h).symm
  · intro h
    rw [h, List.getLast?_concat]

/-- The texts the first test lets through: digits and `%`, at least one of them, then `%`. -/
lemma percentShape_iff (s : List Char) :
    ¬ (s = [] ∨ s.length < 2 ∨ s.getLast? ≠ some '%' ∨ ¬ s.all (fun c => c.isDigit || c = '%')) ↔
      ∃ d, s = d ++ ['%'] ∧ d ≠ [] ∧ ∀ c ∈ d, c.isDigit = true ∨ c = '%' := by
  simp only [not_or, not_not, List.all_eq_true, Bool.or_eq_true, decide_eq_true_eq]
  constructor
  · rintro ⟨-, hlen, hlast, hall⟩
    have hs := getLast?_eq_some_iff_append.1 hlast
    refine ⟨s.dropLast, hs, ?_, fun c hc => hall c (List.dropLast_subset _ hc)⟩
    rw [← List.length_pos_iff, List.length_dropLast]
    omega
  · rintro ⟨d, rfl, hne, hd⟩
    have hlen : 0 < d.length := List.length_pos_iff.2 hne
    refine ⟨by simp, by simp; omega, List.getLast?_concat, ?_⟩
    simp only [List.mem_append, List.mem_singleton]
    rintro c (hc | rfl)
    · exact hd c hc
    · exact Or.inr rfl

/-- On a text of that shape, `strtol` reads the leading digits, and the value is accepted when it
is at most 100 and is not a 0 next to a non-zero `errno`. -/
lemma utilParsePercentString_append {d : List Char} (hne : d ≠ [])
    (hd : ∀ c ∈ d, c.isDigit = true ∨ c = '%') (errno : Int) :
    utilParsePercentString (d ++ ['%']) errno =
      if (digitsValue 10 (d.takeWhile Char.isDigit) : Int) ≤ 100 ∧
          ((digitsValue 10 (d.takeWhile Char.isDigit) : Int) ≠ 0 ∨ errno = 0)
      then .ok (digitsValue 10 (d.takeWhile Char.isDigit))
      else .error (-einval) := by
  have hshape := (percentShape_iff (d ++ ['%'])).2 ⟨d, rfl, hne, hd⟩
  unfold utilParsePercentString
  rw [if_neg hshape, List.dropLast_concat, strtol10_digits hd]
  generalize digitsValue 10 (d.takeWhile Char.isDigit) = n
  have hmax : (100 : Int) < longMax := by decide
  have hmin : longMin < 0 := by decide
  by_cases hbig : longMax < n
  · -- out of `long` range: `LONG_MAX` with `ERANGE`, refused by the first test
    rw [if_pos hbig]
    dsimp only
    rw [if_pos (Or.inl ⟨rfl, Or.inl rfl⟩), if_neg (by omega)]
  · rw [if_neg hbig]
    dsimp only
    by_cases hok : (n : Int) ≤ 100 ∧ ((n : Int) ≠ 0 ∨ errno = 0)
    · rw [if_neg (by omega), if_pos hok]
    · rw [if_neg hok, if_pos (by omega)]

/-- What `util_parse_percent_string` accepts: digits and `%`, at least one of them, then `%`;
the value is that of the digits before the first `%`, at most 100, and a 0 only when `errno` was
0 on entry. -/
theorem utilParsePercentString_eq_ok_iff {s : List Char} {errno v : Int} :
    utilParsePercentString s errno = .ok v ↔
      ∃ d, s = d ++ ['%'] ∧ d ≠ [] ∧ (∀ c ∈ d, c.isDigit = true ∨ c = '%') ∧
        v = digitsValue 10 (d.takeWhile Char.isDigit) ∧ v ≤ 100 ∧ (v ≠ 0 ∨ errno = 0) := by
  constructor
  · intro h
    by_cases hs : ∃ d, s = d ++ ['%'] ∧ d ≠ [] ∧ ∀ c ∈ d, c.isDigit = true ∨ c = '%'
    · obtain ⟨d, rfl, hne, hd⟩ := hs
      rw [utilParsePercentString_append hne hd] at h
      split_ifs at h with hok
      cases h
      exact ⟨d, rfl, hne, hd, rfl, hok⟩
    · -- refused by the first test
      have hbad := not_not.1 (mt (percentShape_iff s).1 hs)
      unfold utilParsePercentString at h
      rw [if_pos hbad] at h
      cases h
  · rintro ⟨d, rfl, hne, hd, rfl, hle, hz⟩
    rw [utilParsePercentString_append hne hd, if_pos ⟨hle, hz⟩]

/-- `strspn` lets a second `%` through, and `strtol` stops at it: `%%` is 0 %, `1%0%` is 1 %
and `5%%` is 5 %. A stale `errno` makes the valid `0%` fail. -/
theorem utilParsePercentString_accepts_stray_percent :
    utilParsePercentString "%%".toList 0 = .ok 0 ∧
    utilParsePercentString "1%0%".toList 0 = .ok 1 ∧
    utilParsePercentString "5%%".toList 0 = .ok 5 ∧
    utilParsePercentString "0%".toList 0 = .ok 0 ∧
    utilParsePercentString "0%".toList erange = .error (-einval) := by
  refine ⟨rfl, rfl, rfl, rfl, rfl⟩

end Percent

/-! ## Appending and trimming -/

/-- `MAX_BUFFER_SIZE`. -/
def maxBufferSize : Nat := 4096

/-- `util_string_append(post, pre)` with `post` not `NULL`: `pre`, a `NULL` counting as empty,
followed by `post`. -/
def utilStringAppend (post : List Char) (pre : Option (List Char)) : List Char :=
  pre.getD [] ++ post

/-- `util_trim_newline`: the newlines at the end removed. -/
def utilTrimNewline (s : List Char) : List Char := (s.reverse.dropWhile (· = '\n')).reverse

/-- `util_trim_space`: the `isspace` characters at both ends removed. -/
def utilTrimSpace (s : List Char) : List Char :=
  ((s.dropWhile Verify.isSpace).reverse.dropWhile Verify.isSpace).reverse

end Cutils

end Isulad
