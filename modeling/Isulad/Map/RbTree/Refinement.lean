import Isulad.Map.RbTree.Erase
import Isulad.Map.RbTree.Insert
import Isulad.Map.RbTree.Compare
import Isulad.Framework.Simulation
import Isulad.Framework.PartialMap
import Mathlib.Data.Set.Card

/-!
# The red-black tree implements a finite map

A tree changes only through `rbtree_insert`, `rbtree_replace` and `rbtree_remove`
(`rbtreeCall`), starting from `rbtree_new`. The same calls on a finite map `κ → Option ν`
(`mapCall`) say what the tree is for: insertion refuses a present key, replacement always
binds, removal refuses an absent key.

`Abstracts cmp t M`: the heap `t` stores a red-black search tree (`Valid`) whose bindings are
`M`. With a comparator that is a strict total order:

* `rbtreeCall_simulates`: every call keeps `Abstracts` and returns what the call on the map
  returns, so by `Simulates.run` any sequence of calls on the tree returns what it returns on
  the map (`run_rbtreeCall`);
* `Abstracts.search`, `Abstracts.size`: `rbtree_search` reads `M`, `rbtree_size` counts its
  bindings;
* a failed call leaves the tree as it was (`rbtreeCall_of_false`);
* a heap stands for at most one map (`Abstracts.unique`).

So every tree reachable from `rbtree_new` is valid (`valid_of_reachable`), and the calls on it
are the calls on its map (`reachable_refines_finiteMap`), which are those of `PartialMap`
(`mapCall_insert`, `mapCall_replace`, `mapCall_remove`).
-/

namespace Isulad

open ColouredTree Simulation

namespace RbTree

variable {κ ν : Type}

/-! ## The calls that change a tree -/

/-- A call of `rbtree_insert`, `rbtree_replace` or `rbtree_remove`, with its key and value. -/
inductive MapCall (κ ν : Type)
  | insert (key : κ) (value : ν)
  | replace (key : κ) (value : ν)
  | remove (key : κ)

variable (cmp : κ → κ → Int)

/-- A call on a tree: the tree it leaves and what it returns. -/
def rbtreeCall (t : RbTree κ ν) : MapCall κ ν → RbTree κ ν × Bool
  | .insert key value => rbtreeInsert cmp t key value
  | .replace key value => rbtreeReplace cmp t key value
  | .remove key => rbtreeRemove cmp t key

/-! ## The finite map -/

section Abstract

open Classical

/-- The calls on a finite map. -/
noncomputable def mapCall (M : κ → Option ν) : MapCall κ ν → (κ → Option ν) × Bool
  | .insert k v => if M k = none then (Function.update M k (some v), true) else (M, false)
  | .replace k v => (Function.update M k (some v), true)
  | .remove k => if M k = none then (M, false) else (Function.update M k none, true)

/-- The bindings of a search tree of slots. -/
def mapOf (T : CTree (Slot κ ν)) (k : κ) : Option ν := (lookup Slot.key cmp k T).map Slot.value

/-- A valid red-black tree: the heap stores a tree (each node's `parent` names its parent, the
root's names the sentinel, the sentinel is black) whose in-order keys strictly increase and
which is balanced with a black root (no red node has a red child, and every path from the root
to a leaf has as many black nodes). -/
def Valid (t : RbTree κ ν) : Prop := ∃ T, Represents t T ∧ T.IsRbSearch Slot.key cmp

/-- `t` is a valid red-black tree whose bindings are `M`. -/
def Abstracts (t : RbTree κ ν) (M : κ → Option ν) : Prop :=
  ∃ T, Represents t T ∧ T.IsRbSearch Slot.key cmp ∧ mapOf cmp T = M

variable {cmp}

lemma Abstracts.valid {t : RbTree κ ν} {M : κ → Option ν} (h : Abstracts cmp t M) :
    Valid cmp t := by
  obtain ⟨T, hR, hT, -⟩ := h
  exact ⟨T, hR, hT⟩

/-- A heap stands for at most one map. -/
lemma Abstracts.unique {t : RbTree κ ν} {M M' : κ → Option ν} (h : Abstracts cmp t M)
    (h' : Abstracts cmp t M') : M = M' := by
  obtain ⟨T, hR, -, rfl⟩ := h
  obtain ⟨T', hR', -, rfl⟩ := h'
  rw [hR.unique hR']

variable (hc : CmpSpec cmp)
include hc

attribute [local simp] mapOf in
/-- A tree whose `lookup` changes at `k` only, to `o`, has its map changed at `k` only. -/
lemma mapOf_eq_update {T T' : CTree (Slot κ ν)} {k : κ} {o : Option (Slot κ ν)}
    (h : ∀ k', lookup Slot.key cmp k' T' = if cmp k' k = 0 then o else lookup Slot.key cmp k' T) :
    mapOf cmp T' = Function.update (mapOf cmp T) k (o.map Slot.value) := by
  funext k'
  rw [mapOf, h k', Function.update_apply]
  by_cases hk : k' = k
  · simp [hk, (hc.eq_zero_iff k k).2 rfl]
  · simp [hk, (hc.eq_zero_iff k' k).not.2 hk, mapOf]

/-- The bindings of a search tree are its keys, each once. -/
lemma ncard_mapOf {T : CTree (Slot κ ν)} (ho : T.Ordered Slot.key cmp) :
    {k | mapOf cmp T k ≠ none}.ncard = T.toList.length := by
  have hset : {k | mapOf cmp T k ≠ none} = ↑(T.toList.map Slot.key).toFinset := by
    ext k
    simp only [Set.mem_ofPred_eq, Finset.mem_coe, List.mem_toFinset, List.mem_map, mapOf, lookup,
      ne_eq, Option.map_eq_none_iff, List.find?_eq_none, decide_eq_true_eq, hc.eq_zero_iff,
      not_forall, not_not, exists_prop]
    exact exists_congr fun x => and_congr_right fun _ => eq_comm
  have hnd : (T.toList.map Slot.key).Nodup :=
    (ordered_iff_keys.1 ho).imp fun h => hc.ne_of_neg h
  rw [hset, Set.ncard_coe_finset, List.toFinset_card_of_nodup hnd, List.length_map]

end Abstract

/-! ## The tree simulates the map -/

section Simulation

open Classical

variable {cmp} (hc : CmpSpec cmp)
include hc

attribute [local simp] rbtreeCall mapCall in
theorem rbtreeInsert_simulates {t : RbTree κ ν} {M : κ → Option ν} (h : Abstracts cmp t M)
    (k : κ) (v : ν) :
    Abstracts cmp (rbtreeInsert cmp t k v).1 (mapCall M (.insert k v)).1 ∧
      (rbtreeInsert cmp t k v).2 = (mapCall M (.insert k v)).2 := by
  obtain ⟨T, hR, hT, rfl⟩ := h
  by_cases hk : lookup Slot.key cmp k T = none
  · -- an absent key: a node allocated at `next` joins the tree
    have habs : ∀ y ∈ T.toList, cmp k y.key ≠ 0 := fun y hy => by
      simpa using List.find?_eq_none.1 hk y hy
    obtain ⟨hres, hrep⟩ := rbtreeInsert_of_absent cmp hc hR hT k v hk
    have hM : mapOf cmp T k = none := by simp [mapOf, hk]
    rw [mapCall, if_pos hM, hres]
    refine ⟨⟨_, hrep, hT.insertRb hc habs, ?_⟩, rfl⟩
    exact mapOf_eq_update hc fun k' => lookup_insertRb hc hT habs k'
  · have hM : mapOf cmp T k ≠ none := by simpa [mapOf] using hk
    rw [rbtreeInsert_of_present cmp hc hR hT k v hk, mapCall, if_neg hM]
    exact ⟨⟨T, hR, hT, rfl⟩, rfl⟩

theorem rbtreeReplace_simulates {t : RbTree κ ν} {M : κ → Option ν} (h : Abstracts cmp t M)
    (k : κ) (v : ν) :
    Abstracts cmp (rbtreeReplace cmp t k v).1 (mapCall M (.replace k v)).1 ∧
      (rbtreeReplace cmp t k v).2 = (mapCall M (.replace k v)).2 := by
  obtain ⟨T, hR, hT, rfl⟩ := h
  by_cases hk : lookup Slot.key cmp k T = none
  · -- an absent key: `rbtree_replace` is `rbtree_insert`, which binds it
    have hM : mapOf cmp T k = none := by simp [mapOf, hk]
    have hins := rbtreeInsert_simulates hc ⟨T, hR, hT, rfl⟩ k v
    rw [mapCall, if_pos hM] at hins
    rw [rbtreeReplace_of_absent cmp hc hR hT k v hk, mapCall]
    exact hins
  · -- a present key: its value is rewritten in place
    obtain ⟨hres, hrep⟩ := rbtreeReplace_of_present cmp hc hR hT k v hk
    obtain ⟨p, l, c, x, r, hz, hx⟩ := zoom_of_lookup_ne_none hc hT.ordered hk
    rw [mapCall, hres]
    refine ⟨⟨_, hrep, hT.modifyRb hz rfl, ?_⟩, rfl⟩
    have hmap := mapOf_eq_update hc fun k' =>
      lookup_modifyRb (g := fun s => { s with value := v }) hc hT hz rfl k'
    rw [hx] at hmap
    exact hmap

theorem rbtreeRemove_simulates {t : RbTree κ ν} {M : κ → Option ν} (h : Abstracts cmp t M)
    (k : κ) :
    Abstracts cmp (rbtreeRemove cmp t k).1 (mapCall M (.remove k)).1 ∧
      (rbtreeRemove cmp t k).2 = (mapCall M (.remove k)).2 := by
  obtain ⟨T, hR, hT, rfl⟩ := h
  by_cases hk : lookup Slot.key cmp k T = none
  · have hM : mapOf cmp T k = none := by simp [mapOf, hk]
    rw [rbtreeRemove_of_absent cmp hc hR hT k hk, mapCall, if_pos hM]
    exact ⟨⟨T, hR, hT, rfl⟩, rfl⟩
  · -- a present key: its node leaves the tree
    have hM : mapOf cmp T k ≠ none := by simpa [mapOf] using hk
    obtain ⟨hres, hrep⟩ := rbtreeRemove_of_present cmp hc hR hT k hk
    obtain ⟨p, l, c, x, r, hz, hx⟩ := zoom_of_lookup_ne_none hc hT.ordered hk
    rw [mapCall, if_neg hM, hres]
    refine ⟨⟨_, hrep, hT.eraseRb, ?_⟩, rfl⟩
    have hmap := mapOf_eq_update hc fun k' => lookup_eraseRb hc hT hz k'
    rw [hx] at hmap
    exact hmap

/-- Every call on a tree is the call on its map. -/
theorem rbtreeCall_simulates : Simulates (Abstracts cmp) (rbtreeCall cmp) (mapCall (κ := κ) (ν := ν)) := by
  intro t M call h
  cases call with
  | insert k v => exact rbtreeInsert_simulates hc h k v
  | replace k v => exact rbtreeReplace_simulates hc h k v
  | remove k => exact rbtreeRemove_simulates hc h k

/-- A call that fails leaves the tree as it was. -/
theorem rbtreeCall_of_false {t : RbTree κ ν} (h : Valid cmp t) (call : MapCall κ ν)
    (hfail : (rbtreeCall cmp t call).2 = false) : (rbtreeCall cmp t call).1 = t := by
  obtain ⟨T, hR, hT⟩ := h
  cases call with
  | insert k v =>
    by_cases hk : lookup Slot.key cmp k T = none
    · exact absurd hfail (by simp [rbtreeCall, (rbtreeInsert_of_absent cmp hc hR hT k v hk).1])
    · simp [rbtreeCall, rbtreeInsert_of_present cmp hc hR hT k v hk]
  | replace k v =>
    have := (rbtreeReplace_simulates hc ⟨T, hR, hT, rfl⟩ k v).2
    simp [rbtreeCall, this, mapCall] at hfail
  | remove k =>
    by_cases hk : lookup Slot.key cmp k T = none
    · simp [rbtreeCall, rbtreeRemove_of_absent cmp hc hR hT k hk]
    · exact absurd hfail (by simp [rbtreeCall, (rbtreeRemove_of_present cmp hc hR hT k hk).1])

/-- `rbtree_search` reads the map. -/
theorem Abstracts.search {t : RbTree κ ν} {M : κ → Option ν} (h : Abstracts cmp t M) (k : κ) :
    rbtreeSearch cmp t k = M k := by
  obtain ⟨T, hR, hT, rfl⟩ := h
  exact rbtreeSearch_eq_lookup cmp hc k hR hT.ordered

/-- `rbtree_size` counts the bindings of the map. -/
theorem Abstracts.size {t : RbTree κ ν} {M : κ → Option ν} (h : Abstracts cmp t M) :
    rbtreeSize t = {k | M k ≠ none}.ncard := by
  obtain ⟨T, hR, hT, rfl⟩ := h
  rw [rbtreeSize_eq hR, ncard_mapOf hc hT.ordered]

end Simulation

/-! ## Trees reachable from `rbtree_new` -/

section Reachable

open Classical

variable [Inhabited κ] [Inhabited ν]

/-- `rbtree_new` stores the empty tree. -/
theorem represents_rbtreeNew : Represents (rbtreeNew : RbTree κ ν) .nil := by
  refine ⟨trivial, rfl, List.nodup_nil, fun a ha => absurd ha List.not_mem_nil, ?_, ?_, ?_⟩ <;>
    simp [rbtreeNew, rbtreeCreateNode]

theorem abstracts_rbtreeNew : Abstracts cmp (rbtreeNew : RbTree κ ν) fun _ => none :=
  ⟨.nil, represents_rbtreeNew, ⟨List.Pairwise.nil, 0, .nil⟩, rfl⟩

variable {cmp}

/-- The run lemma: every tree reachable from `rbtree_new` stands for the map the same calls
reach from the empty one. -/
theorem reachable_abstracts (hc : CmpSpec cmp) {t : RbTree κ ν}
    (h : Reachable (rbtreeCall cmp) rbtreeNew t) :
    ∃ M, Reachable mapCall (fun _ => none) M ∧ Abstracts cmp t M :=
  (rbtreeCall_simulates hc).reachable (abstracts_rbtreeNew cmp) h

/-- Any sequence of calls from `rbtree_new` returns what it returns on the empty map. -/
theorem run_rbtreeCall (hc : CmpSpec cmp) (calls : List (MapCall κ ν)) :
    (run (rbtreeCall cmp) rbtreeNew calls).2 = (run mapCall (fun _ => none) calls).2 :=
  ((rbtreeCall_simulates hc).run (abstracts_rbtreeNew cmp) calls).2

/-- Every tree that `rbtree_insert`, `rbtree_replace` and `rbtree_remove` calls reach from
`rbtree_new`, whether they succeed or fail, is a valid red-black tree. -/
theorem valid_of_reachable (hc : CmpSpec cmp) {t : RbTree κ ν}
    (h : Reachable (rbtreeCall cmp) rbtreeNew t) :
    ∃ T, Represents t T ∧ T.IsRbSearch Slot.key cmp := by
  obtain ⟨M, -, T, hR, hT, -⟩ := reachable_abstracts hc h
  exact ⟨T, hR, hT⟩

/-- Calls with `int` keys on a new tree. Inserting 1 to 6 in order rotates at the root on the
third insertion, which makes 2 the root, and below it on the fifth; 3 is then replaced,
inserting the present 4 is refused, removing the root 2, which has two children, moves its
successor 3 into its place, and removing the absent 9 is refused. -/
def intCalls : List (MapCall Int32 Int32) :=
  [.insert 1 10, .insert 2 20, .insert 3 30, .insert 4 40, .insert 5 50, .insert 6 60,
    .replace 3 33, .insert 4 44, .remove 2, .remove 9]

/-- The tree `intCalls` leave. -/
def intRunTree : RbTree Int32 Int32 := (run (rbtreeCall rbtreeIntCmp) rbtreeNew intCalls).1

/-- The tree the `int` calls leave, after the rotations, the refused calls and the removal of
a node with two children, is valid; its root is 3. -/
theorem valid_of_reachable_int :
    CmpSpec rbtreeIntCmp ∧ Reachable (rbtreeCall rbtreeIntCmp) rbtreeNew intRunTree ∧
      (run (rbtreeCall rbtreeIntCmp) rbtreeNew intCalls).2 =
        [true, true, true, true, true, true, true, false, true, false] ∧
      (intRunTree.heap intRunTree.root).key = 3 ∧
      ∃ T, Represents intRunTree T ∧ T.IsRbSearch Slot.key rbtreeIntCmp :=
  ⟨cmpSpec_rbtreeIntCmp, Reachable.init.run intCalls, by decide +kernel, by decide +kernel,
    valid_of_reachable cmpSpec_rbtreeIntCmp (Reachable.init.run intCalls)⟩

/-- A reachable tree stands for exactly one finite map `M`, and for that map: each call
succeeds as the call on `M` does and leaves a tree standing for the map the call on `M`
leaves, a failed call leaves the tree unchanged, `rbtree_search` returns `M k`, and
`rbtree_size` is the number of keys `M` binds. -/
theorem reachable_refines_finiteMap (hc : CmpSpec cmp) {t : RbTree κ ν}
    (h : Reachable (rbtreeCall cmp) rbtreeNew t) :
    (∃! M, Abstracts cmp t M) ∧
      ∀ M, Abstracts cmp t M →
        (∀ call, Abstracts cmp (rbtreeCall cmp t call).1 (mapCall M call).1 ∧
          (rbtreeCall cmp t call).2 = (mapCall M call).2 ∧
          ((rbtreeCall cmp t call).2 = false → (rbtreeCall cmp t call).1 = t)) ∧
        (∀ k, rbtreeSearch cmp t k = M k) ∧ rbtreeSize t = {k | M k ≠ none}.ncard := by
  obtain ⟨M, -, hM⟩ := reachable_abstracts hc h
  refine ⟨⟨M, hM, fun M' hM' => hM'.unique hM⟩, fun M' hM' => ⟨fun call => ?_, hM'.search hc,
    hM'.size hc⟩⟩
  obtain ⟨hA, hout⟩ := rbtreeCall_simulates hc t M' call hM'
  exact ⟨hA, hout, rbtreeCall_of_false hc hM'.valid call⟩

/-- The strings `a1`, `a2`, `a3`, `b`, `cd` and `z`. -/
def strA1 : CString := ⟨[97, 49], by decide⟩
def strA2 : CString := ⟨[97, 50], by decide⟩
def strA3 : CString := ⟨[97, 51], by decide⟩
def strB : CString := ⟨[98], by decide⟩
def strCd : CString := ⟨[99, 100], by decide⟩
def strZ : CString := ⟨[122], by decide⟩

/-- Calls with string keys on a new tree. Inserting `a1`, `a2`, `a3`, `b` and `cd` in order
rotates at the root on the third insertion, which makes `a2` the root, and below it on the
fifth; `b` is then replaced, inserting the present `a1` is refused, removing the root `a2`,
which has two children, moves its successor `a3` into its place, and removing the absent `z` is
refused. -/
def strCalls : List (MapCall CString Nat) :=
  [.insert strA1 1, .insert strA2 2, .insert strA3 3, .insert strB 4, .insert strCd 5,
    .replace strB 6, .insert strA1 7, .remove strA2, .remove strZ]

/-- The tree `strCalls` leave. -/
def strRunTree : RbTree CString Nat := (run (rbtreeCall cstringCmp) rbtreeNew strCalls).1

/-- The tree the string calls leave, after the rotations, the refused calls and the removal of
a node with two children, stands for one map, the one that binds `a1`, `a3`, `b` and `cd`, and
refines it. -/
theorem reachable_refines_finiteMap_str :
    CmpSpec cstringCmp ∧ Reachable (rbtreeCall cstringCmp) rbtreeNew strRunTree ∧
      (run (rbtreeCall cstringCmp) rbtreeNew strCalls).2 =
        [true, true, true, true, true, true, false, true, false] ∧
      rbtreeSearch cstringCmp strRunTree strB = some 6 ∧
      rbtreeSearch cstringCmp strRunTree strA2 = none ∧ rbtreeSize strRunTree = 4 ∧
      (∃! M, Abstracts cstringCmp strRunTree M) ∧
      ∀ M, Abstracts cstringCmp strRunTree M →
        (∀ call, Abstracts cstringCmp (rbtreeCall cstringCmp strRunTree call).1 (mapCall M call).1 ∧
          (rbtreeCall cstringCmp strRunTree call).2 = (mapCall M call).2 ∧
          ((rbtreeCall cstringCmp strRunTree call).2 = false →
            (rbtreeCall cstringCmp strRunTree call).1 = strRunTree)) ∧
        (∀ k, rbtreeSearch cstringCmp strRunTree k = M k) ∧
        rbtreeSize strRunTree = {k | M k ≠ none}.ncard :=
  ⟨cmpSpec_rbtreeStrCmp, Reachable.init.run strCalls, by decide +kernel, by decide +kernel,
    by decide +kernel, by decide +kernel,
    reachable_refines_finiteMap cmpSpec_rbtreeStrCmp (Reachable.init.run strCalls)⟩

end Reachable

/-! ## The calls of `PartialMap`

With decidable keys the calls on the finite map are `PartialMap.insertNew`,
`PartialMap.replace` and `PartialMap.erase`, which the models of the maps built on `map.c` use. -/

section Computable

variable [DecidableEq κ] (M : κ → Option ν)

theorem mapCall_insert (k : κ) (v : ν) : mapCall M (.insert k v) = PartialMap.insertNew M k v := by
  cases hk : M k with
  | none =>
    simp only [mapCall, hk, if_true, PartialMap.insertNew_of_none hk]
    -- the map's update decides equality classically
    congr
    exact Subsingleton.elim _ _
  | some w => simp [mapCall, hk]

theorem mapCall_replace (k : κ) (v : ν) : mapCall M (.replace k v) = PartialMap.replace M k v := by
  simp only [mapCall, PartialMap.replace]
  congr
  exact Subsingleton.elim _ _

theorem mapCall_remove (k : κ) : mapCall M (.remove k) = PartialMap.erase M k := by
  cases hk : M k with
  | none => simp [mapCall, hk]
  | some w =>
    simp only [mapCall, hk, reduceCtorEq, if_false, PartialMap.erase_of_some hk]
    congr
    exact Subsingleton.elim _ _

end Computable

end RbTree

end Isulad
