import Mathlib.Data.List.TakeWhile

/-!
# Strings in byte buffers, as `<string.h>` sees them

A C buffer is a list of bytes; the string it holds is what comes before its first `NUL`
(`cstr`). `strnlen(s, n)` measures that string within the first `n` bytes, `calloc` gives a
buffer of zeros and `memcpy` writes bytes over a buffer from an offset.

The one shape these operations keep is a buffer that holds a string and zeros after it,
`padded v size`: the string can be read back from it (`cstr_padded`, `strnlen_padded`), and
writing bytes and a `NUL` right after the string gives the longer string, still padded
(`memcpy_padded`). Copying a padded prefix into a fresh `calloc` buffer keeps the string
(`memcpy_calloc_padded`).

`getlines` cuts a text into the lines `getline` reads from it, one at a time: a text of
newline-ended lines and a last piece is read as those lines, newlines kept, and the piece
(`getlines_lines`).

The bytes are any type with a zero, so that the same lemmas serve `UInt8` buffers and others.
-/

namespace CString

variable {α : Type*} [Zero α] [DecidableEq α]

/-- The string a buffer holds: its bytes up to the first `NUL`. -/
def cstr (s : List α) : List α := s.takeWhile (· ≠ 0)

/-- `strnlen(s, n)`: the length of the string within the first `n` bytes. -/
def strnlen (s : List α) (n : Nat) : Nat := (cstr (s.take n)).length

/-- `calloc(n, 1)`: `n` zero bytes. -/
def calloc (n : Nat) : List α := List.replicate n 0

/-- `memcpy(dst + off, src, len(src))`: the bytes of `src` written over `dst` from `off`. -/
def memcpy (dst : List α) (off : Nat) (src : List α) : List α :=
  dst.take off ++ src ++ dst.drop (off + src.length)

/-- A buffer of `size` bytes holding the string `v` and zeros after it. -/
def padded (v : List α) (size : Nat) : List α := v ++ List.replicate (size - v.length) 0

/-! ## The string a buffer holds -/

omit [DecidableEq α] in
@[simp] lemma length_calloc (n : Nat) : (calloc n : List α).length = n := List.length_replicate

@[simp] lemma cstr_nil : cstr ([] : List α) = [] := rfl

attribute [local simp] cstr in
@[simp] lemma cstr_zero_cons (r : List α) : cstr (0 :: r) = [] := by
  simp [cstr]

lemma cstr_cons_of_ne {c : α} (hc : c ≠ 0) (r : List α) : cstr (c :: r) = c :: cstr r := by
  simp [cstr, hc]

lemma zero_not_mem_cstr (s : List α) : (0 : α) ∉ cstr s := by
  intro h
  simpa using List.mem_takeWhile_imp h

lemma cstr_append_of_not_mem {v : List α} (hv : (0 : α) ∉ v) (r : List α) :
    cstr (v ++ r) = v ++ cstr r := by
  induction v with
  | nil => rfl
  | cons c v ih =>
    have hc : c ≠ 0 := fun h => hv (h ▸ List.mem_cons_self)
    rw [List.cons_append, cstr_cons_of_ne hc, ih (fun h => hv (List.mem_cons_of_mem _ h))]
    rfl

lemma cstr_of_not_mem {v : List α} (hv : (0 : α) ∉ v) : cstr v = v := by
  simpa using cstr_append_of_not_mem hv []

@[simp] lemma cstr_replicate_zero (k : Nat) : cstr (List.replicate k (0 : α)) = [] := by
  cases k with
  | zero => rfl
  | succ k => exact cstr_zero_cons _

lemma length_cstr_le (s : List α) : (cstr s).length ≤ s.length :=
  (List.takeWhile_prefix _).length_le

/-- The first bytes of a buffer, up to the length of its string, are that string's. -/
lemma take_eq_take_cstr {s : List α} {m : Nat} (hm : m ≤ (cstr s).length) :
    s.take m = (cstr s).take m := by
  have hsplit : cstr s ++ s.dropWhile (· ≠ 0) = s := List.takeWhile_append_dropWhile
  calc s.take m = (cstr s ++ s.dropWhile (· ≠ 0)).take m := by rw [hsplit]
    _ = (cstr s).take m := List.take_append_of_le_length hm

/-! ## Padded buffers -/

omit [DecidableEq α] in
attribute [local simp] padded in
lemma length_padded {v : List α} {size : Nat} (h : v.length ≤ size) :
    (padded v size).length = size := by
  simp [padded]
  omega

lemma cstr_padded {v : List α} (hv : (0 : α) ∉ v) (size : Nat) : cstr (padded v size) = v := by
  rw [padded, cstr_append_of_not_mem hv, cstr_replicate_zero, List.append_nil]

omit [DecidableEq α] in
lemma take_padded {v : List α} {n size : Nat} (hv : v.length ≤ n) (hn : n ≤ size) :
    (padded v size).take n = padded v n := by
  rw [padded, padded, List.take_append, List.take_of_length_le hv, List.take_replicate]
  congr 2
  omega

lemma strnlen_padded {v : List α} (hv : (0 : α) ∉ v) {size : Nat} (h : v.length ≤ size) :
    strnlen (padded v size) size = v.length := by
  rw [strnlen, List.take_of_length_le (length_padded h).le, cstr_padded hv]

omit [DecidableEq α] in
attribute [local simp] calloc in
@[simp] lemma padded_nil (size : Nat) : padded ([] : List α) size = calloc size := by
  simp [padded, calloc]

omit [DecidableEq α] in
attribute [local simp] memcpy in
/-- Bytes and a `NUL` written right after the string of a padded buffer lengthen the string. -/
lemma memcpy_padded {v u : List α} {size : Nat} (h : v.length + u.length < size) :
    memcpy (padded v size) v.length (u ++ [0]) = padded (v ++ u) size := by
  obtain ⟨k, hk⟩ : ∃ k, size - (v ++ u).length = k + 1 :=
    ⟨size - (v ++ u).length - 1, by simp only [List.length_append]; omega⟩
  have hv : size - v.length = (u ++ [0]).length + k := by
    simp only [List.length_append, List.length_singleton] at hk ⊢
    omega
  have hdrop : (v ++ List.replicate (size - v.length) (0 : α)).drop (v.length + (u ++ [0]).length)
      = List.replicate k 0 := by
    rw [List.drop_append, List.drop_eq_nil_of_le (by omega), List.nil_append, List.drop_replicate]
    congr 1
    omega
  rw [memcpy, padded, padded, List.take_left, hdrop, hk, List.replicate_succ]
  simp

omit [DecidableEq α] in
/-- `memcpy` of the first `k` bytes of a padded buffer into `n` fresh zeros. -/
lemma memcpy_calloc_padded {v : List α} {k n : Nat} (hv : v.length ≤ k) (hk : k ≤ n) :
    memcpy (calloc n) 0 (padded v k) = padded v n := by
  rw [memcpy, List.take_zero, List.nil_append, length_padded hv, Nat.zero_add, calloc,
    List.drop_replicate, padded, padded, List.append_assoc, List.replicate_append_replicate]
  congr 2
  omega

omit [Zero α] [DecidableEq α] in
/-- Two writes at adjacent offsets are one write of both. -/
lemma memcpy_memcpy {dst a b : List α} {off : Nat} (h : off + a.length ≤ dst.length) :
    memcpy (memcpy dst off a) (off + a.length) b = memcpy dst off (a ++ b) := by
  have hoff : (dst.take off).length = off := by
    rw [List.length_take]
    omega
  have hpre : (dst.take off ++ a).length = off + a.length := by simp [hoff]
  have hdrop : (dst.take off ++ a ++ dst.drop (off + a.length)).drop (off + a.length + b.length)
      = dst.drop (off + (a ++ b).length) := by
    rw [List.drop_append, List.drop_eq_nil_of_le (by omega), List.nil_append, hpre, List.drop_drop]
    simp only [List.length_append]
    congr 1
    omega
  rw [memcpy, memcpy, memcpy, hdrop, List.take_left' hpre]
  simp

omit [Zero α] [DecidableEq α] in
lemma length_memcpy {dst src : List α} {off : Nat} (h : off + src.length ≤ dst.length) :
    (memcpy dst off src).length = dst.length := by
  simp only [memcpy, List.length_append, List.length_take, List.length_drop]
  omega

omit [Zero α] [DecidableEq α] in
/-- A write that covers the whole buffer replaces it. -/
lemma memcpy_of_length {dst src : List α} (h : src.length = dst.length) : memcpy dst 0 src = src := by
  simp [memcpy, h]

/-! ## Reading lines -/

omit [Zero α] in
/-- The lines `getline` returns one after the other: each up to its terminator `nl` and with
it, the last one without it when the text does not end with `nl`. -/
def getlines (nl : α) : List α → List (List α)
  | [] => []
  | c :: cs =>
    if c = nl then [c] :: getlines nl cs
    else
      match getlines nl cs with
      | [] => [[c]]
      | l :: ls => (c :: l) :: ls

omit [Zero α] in
attribute [local simp] getlines in
/-- `getline` never returns an empty line. -/
lemma ne_nil_of_mem_getlines {nl : α} {s l : List α} (h : l ∈ getlines nl s) : l ≠ [] := by
  induction s generalizing l with
  | nil => simp [getlines] at h
  | cons c cs ih =>
    unfold getlines at h
    split_ifs at h
    · rcases List.mem_cons.1 h with rfl | h
      · simp
      · exact ih h
    · -- the first character joins the first line of the rest
      cases hg : getlines nl cs with
      | nil =>
        rw [hg] at h
        simp only [List.mem_singleton] at h
        simp [h]
      | cons l' ls =>
        rw [hg] at h
        rcases List.mem_cons.1 h with rfl | h
        · simp
        · exact ih (hg ▸ List.mem_cons_of_mem _ h)

omit [Zero α] in
/-- A line ended by the newline is read whole, newline included. -/
lemma getlines_line {nl : α} {l : List α} (hl : nl ∉ l) (rest : List α) :
    getlines nl (l ++ nl :: rest) = (l ++ [nl]) :: getlines nl rest := by
  induction l with
  | nil => simp [getlines]
  | cons c cs ih =>
    have hc : c ≠ nl := fun h => hl (h ▸ List.mem_cons_self)
    rw [List.cons_append, getlines, if_neg hc, ih (fun h => hl (List.mem_cons_of_mem _ h))]
    rfl

omit [Zero α] in
/-- A last line without a newline is read as it is. -/
lemma getlines_last {nl : α} {l : List α} (hl : nl ∉ l) (hne : l ≠ []) : getlines nl l = [l] := by
  induction l with
  | nil => exact absurd rfl hne
  | cons c cs ih =>
    have hc : c ≠ nl := fun h => hl (h ▸ List.mem_cons_self)
    rw [getlines, if_neg hc]
    cases cs with
    | nil => rfl
    | cons d ds => rw [ih (fun h => hl (List.mem_cons_of_mem _ h)) (List.cons_ne_nil d ds)]

omit [Zero α] in
/-- A text of newline-ended lines and a last piece is read as those lines and, when it is not
empty, the piece. -/
lemma getlines_lines {nl : α} {ls : List (List α)} (hls : ∀ l ∈ ls, nl ∉ l) {last : List α}
    (hlast : nl ∉ last) :
    getlines nl ((ls.map (· ++ [nl])).flatten ++ last) =
      ls.map (· ++ [nl]) ++ (if last = [] then [] else [last]) := by
  induction ls with
  | nil =>
    by_cases he : last = []
    · subst he
      rfl
    · simp [he, getlines_last hlast he]
  | cons l ls ih =>
    have hl := hls l List.mem_cons_self
    rw [List.map_cons, List.flatten_cons, List.append_assoc, List.append_assoc, List.singleton_append,
      getlines_line hl, ih (fun l' h => hls l' (List.mem_cons_of_mem _ h))]
    rfl

end CString
