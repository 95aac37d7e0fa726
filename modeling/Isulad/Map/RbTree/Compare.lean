import Isulad.Map.RbTree.Heap
import Isulad.Framework.Comparator
import Mathlib.Data.Int.Order.Basic

/-!
# The comparators `map_new` installs

`map_new` accepts no comparator of its own (anything but `MAP_DEFAULT_CMP_FUNC` is an error)
and installs one by key type: `rbtree_ptr_cmp`, `rbtree_int_cmp` or `rbtree_str_cmp`. Each is
a strict total order on its keys (`CmpSpec`):

* pointers and `int`s are compared as numbers, through `cmpOfLt`;
* C strings are compared character by character up to the terminating NUL. On strings with no
  NUL inside, that is the lexicographic order of the characters followed by the NUL
  (`rbtreeStrCmp_eq`), whether `char` is signed or not.
-/

namespace Isulad

open ColouredTree

namespace RbTree

/-- `rbtree_ptr_cmp`: pointer keys, compared as addresses. -/
def rbtreePtrCmp (first last : Ptr) : Int :=
  (if first > last then 1 else 0) - (if first < last then 1 else 0)

/-- `rbtree_int_cmp`: the `int`s the keys point to. -/
def rbtreeIntCmp (key1 key2 : Int32) : Int :=
  (if key1 > key2 then 1 else 0) - (if key1 < key2 then 1 else 0)

/-- `rbtree_str_cmp`, over the characters of the two strings as the `int`s they promote to in
`a > b`; past the end of a list is the terminating NUL. -/
def rbtreeStrCmp : List Int → List Int → Int
  | [], key2 =>
    let b := key2.headD 0
    (if (0 : Int) > b then 1 else 0) - (if (0 : Int) < b then 1 else 0)
  | a :: key1, key2 =>
    let b := key2.headD 0
    if a = 0 ∨ a ≠ b then (if a > b then 1 else 0) - (if a < b then 1 else 0)
    else rbtreeStrCmp key1 key2.tail

/-- A C string key: its characters, none of them the NUL that ends it. -/
structure CString where
  chars : List Int
  nul_free : 0 ∉ chars
  deriving DecidableEq

/-- The key of the sentinel, which C leaves `NULL` and nothing compares. -/
instance : Inhabited CString := ⟨⟨[], List.not_mem_nil⟩⟩

/-- `rbtree_str_cmp` on the keys of a string map. -/
def cstringCmp (a b : CString) : Int := rbtreeStrCmp a.chars b.chars

theorem cmpSpec_rbtreePtrCmp : CmpSpec rbtreePtrCmp :=
  CmpSpec.of_injective id Function.injective_id

theorem cmpSpec_rbtreeIntCmp : CmpSpec rbtreeIntCmp := by
  have h : rbtreeIntCmp = fun a b => cmpOfLt a.toInt b.toInt := by
    funext a b
    simp only [rbtreeIntCmp, cmpOfLt, gt_iff_lt, Int32.lt_iff_toInt_lt]
  rw [h]
  exact CmpSpec.of_injective Int32.toInt fun _ _ => Int32.toInt_inj.1

/-- On NUL-free strings `rbtree_str_cmp` is the lexicographic comparison of the strings with
their terminators. -/
theorem rbtreeStrCmp_eq {s t : List Int} (hs : 0 ∉ s) (ht : 0 ∉ t) :
    rbtreeStrCmp s t = cmpOfLt (s ++ [0]) (t ++ [0]) := by
  -- induction on the first string; the second is split at each step
  induction s generalizing t with
  | nil =>
    cases t with
    | nil => simp [rbtreeStrCmp]
    | cons b t =>
      have hb : (0 : Int) ≠ b := fun h => ht (h ▸ List.mem_cons_self)
      simp only [rbtreeStrCmp, List.headD_cons, List.nil_append, List.cons_append,
        cmpOfLt_cons, if_neg hb]
      rfl
  | cons a s ih =>
    have ha : a ≠ 0 := fun h => hs (h ▸ List.mem_cons_self)
    cases t with
    | nil =>
      simp only [rbtreeStrCmp, List.headD_nil, List.cons_append, List.nil_append,
        cmpOfLt_cons, ha, ne_eq, not_false_eq_true, or_true, if_true]
      rfl
    | cons b t =>
      simp only [rbtreeStrCmp, List.headD_cons, List.tail_cons, List.cons_append, cmpOfLt_cons]
      by_cases hab : a = b
      · subst hab
        simp only [ha, ne_eq, not_true_eq_false, or_self, if_false, if_true]
        exact ih (fun h => hs (List.mem_cons_of_mem _ h)) (fun h => ht (List.mem_cons_of_mem _ h))
      · simp only [hab, ne_eq, not_false_eq_true, or_true, if_true, if_false]
        rfl

theorem cmpSpec_rbtreeStrCmp : CmpSpec cstringCmp := by
  have h : cstringCmp = fun a b => cmpOfLt (a.chars ++ [0]) (b.chars ++ [0]) := by
    funext a b
    exact rbtreeStrCmp_eq a.nul_free b.nul_free
  rw [h]
  refine CmpSpec.of_injective (fun a : CString => a.chars ++ [0]) fun a b hab => ?_
  cases a
  cases b
  simpa using hab

end RbTree

end Isulad
