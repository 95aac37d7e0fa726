import Isulad.Map.RbTree.Iterator
import Mathlib

/-!
# Looking a container up (`containers_store.c`)

`containers_store_get(id_or_name)` tries three rules in turn: the container stored under the
id `id_or_name` (`containers_store_get_by_id`, a `map_search` of the store); the one stored under
the id that the name index gives for the name `id_or_name` (`containers_store_get_by_name`); and
the one stored under the only id that starts with `id_or_name` (`containers_store_get_by_prefix`).
The last walks the whole store with a map iterator and gives up at a second match.

The walk is the iterator's walk of `rb_tree.c`, which visits the slots of the stored tree once
each in order (`RbTree.forwardRun_eq`), so the loop is a scan of the tree's entries
(`containersStoreGetByPrefix_eq`): it finds the container of the one entry whose id has the
prefix, and nothing when there are none or several. Over the maps `M` and `N` the store and the
index stand for, `containersStoreGet_resolves` states the three rules.
-/

namespace Isulad

namespace RbTree

open ColouredTree

variable {κ ν : Type}

section Bindings

variable {cmp : κ → κ → Int} (hc : CmpSpec cmp)
include hc

/-- Two slots of an ordered tree with one key are one slot. -/
lemma eq_of_key_eq {T : CTree (Slot κ ν)} (ho : T.Ordered Slot.key cmp) {x y : Slot κ ν}
    (hx : x ∈ T.toList) (hy : y ∈ T.toList) (hk : x.key = y.key) : x = y := by
  have hnodup : (T.toList.map Slot.key).Nodup :=
    List.pairwise_map.2 (ho.imp fun h => hc.ne_of_neg h)
  exact List.inj_on_of_nodup_map hnodup hx hy hk

/-- The map of an ordered tree binds `k` to `v` exactly when a slot of the tree holds both. -/
lemma mapOf_eq_some_iff {T : CTree (Slot κ ν)} (ho : T.Ordered Slot.key cmp) {k : κ} {v : ν} :
    mapOf cmp T k = some v ↔ ∃ s ∈ T.toList, s.key = k ∧ s.value = v := by
  unfold mapOf lookup
  constructor
  · intro h
    obtain ⟨x, hx, rfl⟩ := Option.map_eq_some_iff.1 h
    have hkx := List.find?_some hx
    refine ⟨x, List.mem_of_find?_eq_some hx, ?_, rfl⟩
    exact ((hc.eq_zero_iff _ _).1 (by simpa using hkx)).symm
  · rintro ⟨s, hs, rfl, rfl⟩
    obtain ⟨x, hx⟩ : ∃ x, T.toList.find? (fun y => cmp s.key y.key = 0) = some x :=
      Option.isSome_iff_exists.1 (List.find?_isSome.2 ⟨s, hs, by simp [(hc.eq_zero_iff _ _).2 rfl]⟩)
    have hkx : cmp s.key x.key = 0 := by simpa using List.find?_some hx
    have hxs : x = s :=
      eq_of_key_eq hc ho (List.mem_of_find?_eq_some hx) hs ((hc.eq_zero_iff _ _).1 hkx).symm
    rw [hx, hxs]
    rfl

end Bindings

end RbTree

namespace ContainersStore

open ColouredTree RbTree

variable {α : Type}

/-- `containers_store_get_by_id(id)`: `map_search` on the store, which maps ids to containers. -/
def containersStoreGetById (store : RbTree CString α) (id : CString) : Option α :=
  rbtreeSearch cstringCmp store id

/-- `name_index_get(name)`: `map_search` on the name index, which maps names to ids. -/
def nameIndexGet (index : RbTree CString CString) (name : CString) : Option CString :=
  rbtreeSearch cstringCmp index name

/-- `containers_store_get_by_name(name)`. -/
def containersStoreGetByName (store : RbTree CString α) (index : RbTree CString CString)
    (name : CString) : Option α :=
  match nameIndexGet index name with
  | none => none
  | some id => containersStoreGetById store id

/-- `strncmp(container_id, prefix, strlen(prefix)) == 0`: the id starts with the prefix. -/
def hasPrefix (containerId pfx : CString) : Bool := pfx.chars.isPrefixOf containerId.chars

/-- The `for (; map_itor_valid(itor); map_itor_next(itor))` loop of
`containers_store_get_by_prefix` from the node the iterator stands at, on fuel: the container
found so far when the loop ends, or `none` for the `goto unlock` at a second match. -/
def getByPrefixLoop (store : RbTree CString α) (pfx : CString) :
    Nat → Ptr → Option α → Option (Option α)
  | 0, _, cont => some cont
  | fuel + 1, node, cont =>
    if rbtreeIteratorValid store node then
      if hasPrefix (rbtreeIteratorKey store node) pfx then
        match cont with
        | some _ => none
        | none =>
          getByPrefixLoop store pfx fuel (rbtreeIteratorNext store node).1
            (some (rbtreeIteratorValue store node))
      else getByPrefixLoop store pfx fuel (rbtreeIteratorNext store node).1 cont
    else some cont

/-- `containers_store_get_by_prefix(prefix)`. The store has fewer nodes than its allocation count
`next`, so that much fuel runs the loop to its end. -/
def containersStoreGetByPrefix (store : RbTree CString α) (pfx : CString) : Option α :=
  (getByPrefixLoop store pfx store.next (rbtreeIteratorNew store) none).join

/-- `containers_store_get(id_or_name)`: by id, then by name, then by a unique prefix of an id. -/
def containersStoreGet (store : RbTree CString α) (index : RbTree CString CString)
    (idOrName : CString) : Option α :=
  match containersStoreGetById store idOrName with
  | some cont => some cont
  | none =>
    match containersStoreGetByName store index idOrName with
    | some cont => some cont
    | none => containersStoreGetByPrefix store idOrName

/-! ## The prefix loop over the entries it visits -/

/-- The loop of `containers_store_get_by_prefix` over the entries it visits, in order. -/
def prefixScan (pfx : CString) : List (CString × α) → Option α → Option (Option α)
  | [], cont => some cont
  | e :: rest, cont =>
    if hasPrefix e.1 pfx then
      match cont with
      | some _ => none
      | none => prefixScan pfx rest (some e.2)
    else prefixScan pfx rest cont

/-- The entry stored at a node. -/
def entryAt (store : RbTree CString α) (node : Ptr) : CString × α :=
  (rbtreeIteratorKey store node, rbtreeIteratorValue store node)

attribute [local simp] getByPrefixLoop prefixScan entryAt in
/-- The loop visits the nodes of `rbtree_iterator_next`'s walk: `map_itor_valid` after a step is
what the step returned. -/
lemma getByPrefixLoop_eq (store : RbTree CString α) (pfx : CString) :
    ∀ (fuel : Nat) (node : Ptr) (cont : Option α),
      getByPrefixLoop store pfx fuel node cont =
        prefixScan pfx ((iteratorLoop (rbtreeIteratorNext store) fuel
          (node, decide (node ≠ store.nil))).map (entryAt store ∘ Prod.fst)) cont := by
  intro fuel
  induction fuel with
  | zero => intro node cont; rfl
  | succ fuel ih =>
    intro node cont
    by_cases hnode : node = store.nil
    · simp [getByPrefixLoop, iteratorLoop, rbtreeIteratorValid, hnode, prefixScan]
    · obtain ⟨n', hn'⟩ : ∃ n', rbtreeIteratorNext store node = (n', decide (n' ≠ store.nil)) :=
        ⟨rbtreeSuccessor store node, by simp [rbtreeIteratorNext, hnode]⟩
      have hvalid : rbtreeIteratorValid store node = true := by
        simpa [rbtreeIteratorValid] using hnode
      have hloop : iteratorLoop (rbtreeIteratorNext store) (fuel + 1) (node, decide (node ≠ store.nil)) =
          (node, decide (n' ≠ store.nil)) ::
            iteratorLoop (rbtreeIteratorNext store) fuel (n', decide (n' ≠ store.nil)) := by
        rw [iteratorLoop, if_pos (by simpa using hnode), hn']
      rw [hloop, List.map_cons]
      simp only [getByPrefixLoop, prefixScan, hvalid, if_true, hn', Function.comp_apply, entryAt]
      by_cases hpre : hasPrefix (rbtreeIteratorKey store node) pfx = true
      · simp only [hpre, if_true]
        cases cont with
        | some c => rfl
        | none => exact ih _ _
      · simp only [hpre, Bool.false_eq_true, if_false]
        exact ih _ _

/-- After a first match, the loop fails at any other. -/
lemma prefixScan_some (pfx : CString) (c : α) :
    ∀ l : List (CString × α), prefixScan pfx l (some c) =
      if l.filter (fun e => hasPrefix e.1 pfx) = [] then some (some c) else none := by
  intro l
  induction l with
  | nil => rfl
  | cons e rest ih =>
    by_cases hpre : hasPrefix e.1 pfx = true
    · rw [prefixScan, if_pos hpre, List.filter_cons_of_pos (p := fun e : CString × α => hasPrefix e.1 pfx) hpre, if_neg (List.cons_ne_nil _ _)]
    · rw [prefixScan, if_neg hpre, List.filter_cons_of_neg (p := fun e : CString × α => hasPrefix e.1 pfx) hpre, ih]

/-- The loop finds the entry of the one key with the prefix, nothing when there is none, and
fails when there are two or more. -/
lemma prefixScan_none (pfx : CString) :
    ∀ l : List (CString × α), prefixScan pfx l none =
      match l.filter (fun e => hasPrefix e.1 pfx) with
      | [] => some none
      | [e] => some (some e.2)
      | _ :: _ :: _ => none := by
  intro l
  induction l with
  | nil => rfl
  | cons e rest ih =>
    by_cases hpre : hasPrefix e.1 pfx = true
    · rw [prefixScan, if_pos hpre, List.filter_cons_of_pos (p := fun e : CString × α => hasPrefix e.1 pfx) hpre]
      rw [prefixScan_some]
      cases rest.filter (fun e => hasPrefix e.1 pfx) with
      | nil => rfl
      | cons f fs => rfl
    · rw [prefixScan, if_neg hpre, List.filter_cons_of_neg (p := fun e : CString × α => hasPrefix e.1 pfx) hpre, ih]

/-- The entries of the slots of a tree, in order. -/
def entries (T : CTree (Slot CString α)) : List (CString × α) :=
  T.toList.map fun s => (s.key, s.value)

attribute [local simp] entries in
/-- On a store holding `T`, the loop from a new iterator visits the entries of `T` in order. -/
lemma iteratorLoop_entries {store : RbTree CString α} {T : CTree (Slot CString α)}
    (h : Represents store T) {fuel : Nat} (hfuel : T.toList.length ≤ fuel) :
    (iteratorLoop (rbtreeIteratorNext store) fuel
        (rbtreeIteratorNew store, decide (rbtreeIteratorNew store ≠ store.nil))).map
      (entryAt store ∘ Prod.fst) = entries T := by
  have hrun : iteratorLoop (rbtreeIteratorNext store) fuel
      (rbtreeIteratorNew store, decide (rbtreeIteratorNew store ≠ store.nil)) = forwardRun store fuel :=
    rfl
  rw [hrun, forwardRun_eq h hfuel, map_markLast_fst, addrs, List.map_map, entries]
  apply List.map_congr_left
  intro s hs
  simp only [Function.comp_apply, entryAt, rbtreeIteratorKey, rbtreeIteratorValue,
    h.realises.key_eq s hs, h.realises.value_eq s hs]

/-- `containers_store_get_by_prefix` on a store holding `T`: the value of the one entry whose id
has the prefix, or nothing. -/
theorem containersStoreGetByPrefix_eq {store : RbTree CString α} {T : CTree (Slot CString α)}
    (h : Represents store T) (pfx : CString) :
    containersStoreGetByPrefix store pfx =
      match (entries T).filter fun e => hasPrefix e.1 pfx with
      | [e] => some e.2
      | _ => none := by
  have hfuel : T.toList.length ≤ store.next := by
    have := h.length_addrs_lt
    rw [addrs, List.length_map] at this
    omega
  unfold containersStoreGetByPrefix
  rw [getByPrefixLoop_eq, iteratorLoop_entries h hfuel, prefixScan_none]
  cases (entries T).filter fun e => hasPrefix e.1 pfx with
  | nil => rfl
  | cons e rest =>
    cases rest with
    | nil => rfl
    | cons f fs => rfl

/-! ## What a lookup returns -/

lemma singleton_match_eq_some {l : List (CString × α)} {c : α} :
    (match l with
      | [e] => some e.2
      | _ => none) = some c ↔ ∃ e, l = [e] ∧ e.2 = c := by
  cases l with
  | nil => simp
  | cons e rest => cases rest <;> simp

/-- A list whose elements have pairwise distinct images and all the image of `x`, one of them,
is `[x]`. -/
lemma eq_singleton_of_pairwise_ne {β γ : Type} {f : β → γ} {l : List β} {x : β}
    (hp : l.Pairwise fun a b => f a ≠ f b) (hx : x ∈ l) (hall : ∀ y ∈ l, f y = f x) : l = [x] := by
  cases l with
  | nil => cases hx
  | cons a rest =>
    obtain ⟨ha, hrest⟩ := List.pairwise_cons.1 hp
    have hnil : rest = [] := by
      cases rest with
      | nil => rfl
      | cons b bs =>
        exact absurd ((hall a List.mem_cons_self).trans (hall b (by simp)).symm) (ha b (by simp))
    subst hnil
    rw [List.mem_singleton.1 hx]

/-- An entry of a store's tree is a binding of its map. -/
lemma mem_entries_iff {T : CTree (Slot CString α)} (ho : T.Ordered Slot.key cstringCmp)
    (e : CString × α) : e ∈ entries T ↔ mapOf cstringCmp T e.1 = some e.2 := by
  rw [mapOf_eq_some_iff cmpSpec_rbtreeStrCmp ho, entries, List.mem_map]
  constructor
  · rintro ⟨s, hs, rfl⟩
    exact ⟨s, hs, rfl, rfl⟩
  · rintro ⟨s, hs, hk, hv⟩
    exact ⟨s, hs, by rw [hk, hv]⟩

/-- `containers_store_get_by_prefix` on a store whose map is `M`: the container of the one id
with the prefix. -/
theorem containersStoreGetByPrefix_eq_some {store : RbTree CString α} {M : CString → Option α}
    (hA : Abstracts cstringCmp store M) (pfx : CString) (c : α) :
    containersStoreGetByPrefix store pfx = some c ↔
      ∃ k, M k = some c ∧ hasPrefix k pfx = true ∧
        ∀ k', hasPrefix k' pfx = true → M k' ≠ none → k' = k := by
  obtain ⟨T, hR, hT, rfl⟩ := hA
  have hmem := mem_entries_iff hT.ordered
  have hpair : (entries T).Pairwise fun a b => a.1 ≠ b.1 := by
    rw [entries, List.pairwise_map]
    exact hT.ordered.imp fun h => cmpSpec_rbtreeStrCmp.ne_of_neg h
  rw [containersStoreGetByPrefix_eq hR, singleton_match_eq_some]
  constructor
  · rintro ⟨e, he, rfl⟩
    obtain ⟨heT, hpre⟩ := List.mem_filter.1 (he ▸ List.mem_singleton_self e)
    refine ⟨e.1, (hmem e).1 heT, by simpa using hpre, ?_⟩
    -- any other id with the prefix would be a second entry of the filter
    intro k' hk' hM
    obtain ⟨v', hv'⟩ := Option.ne_none_iff_exists'.1 hM
    have hin : (k', v') ∈ (entries T).filter fun e => hasPrefix e.1 pfx :=
      List.mem_filter.2 ⟨(hmem (k', v')).2 hv', by simpa using hk'⟩
    rw [he, List.mem_singleton] at hin
    rw [← hin]
  · rintro ⟨k, hk, hpre, huniq⟩
    have hin : (k, c) ∈ (entries T).filter fun e => hasPrefix e.1 pfx :=
      List.mem_filter.2 ⟨(hmem (k, c)).2 hk, by simpa using hpre⟩
    have hall : ∀ e ∈ (entries T).filter (fun e => hasPrefix e.1 pfx), e.1 = (k, c).1 := by
      intro e he
      obtain ⟨heT, hp⟩ := List.mem_filter.1 he
      exact huniq e.1 (by simpa using hp) (by rw [(hmem e).1 heT]; simp)
    exact ⟨(k, c), eq_singleton_of_pairwise_ne (hpair.filter _) hin hall, rfl⟩

/-- `containers_store_get(s)` on a store whose map is `M` and a name index whose map is `N`
returns `c` exactly when `c` is stored under the id `s`; or, with no id `s`, when the index maps
the name `s` to the id of `c`; or, with neither, when `c` is stored under the one id that has the
prefix `s`. Two ids with the prefix `s` leave the prefix rule with nothing. -/
theorem containersStoreGet_resolves {store : RbTree CString α} {index : RbTree CString CString}
    {M : CString → Option α} {N : CString → Option CString}
    (hS : Abstracts cstringCmp store M) (hI : Abstracts cstringCmp index N) (s : CString) (c : α) :
    (containersStoreGet store index s = some c ↔
      M s = some c ∨
      (M s = none ∧ ∃ id, N s = some id ∧ M id = some c) ∨
      (M s = none ∧ (∀ id, N s = some id → M id = none) ∧
        ∃ k, M k = some c ∧ hasPrefix k s = true ∧
          ∀ k', hasPrefix k' s = true → M k' ≠ none → k' = k)) ∧
    ((∃ k₁ k₂, k₁ ≠ k₂ ∧ hasPrefix k₁ s = true ∧ hasPrefix k₂ s = true ∧ M k₁ ≠ none ∧
        M k₂ ≠ none) → containersStoreGetByPrefix store s = none) := by
  have hsearchS := hS.search cmpSpec_rbtreeStrCmp
  have hsearchI := hI.search cmpSpec_rbtreeStrCmp
  have hpfx := containersStoreGetByPrefix_eq_some hS s
  constructor
  · unfold containersStoreGet containersStoreGetByName nameIndexGet containersStoreGetById
    rw [hsearchS s, hsearchI s]
    -- the three rules, tried in order
    cases hMs : M s with
    | some c' => simp
    | none =>
      cases hNs : N s with
      | none => simp [hpfx]
      | some id =>
        dsimp only
        rw [hsearchS id]
        cases hMid : M id with
        | some c' => simp [hMid]
        | none => simp [hpfx, hMid]
  · rintro ⟨k₁, k₂, hne, h₁, h₂, hM₁, hM₂⟩
    by_contra hsome
    obtain ⟨c', hc'⟩ := Option.ne_none_iff_exists'.1 hsome
    obtain ⟨k, -, -, huniq⟩ := (hpfx c').1 hc'
    exact hne ((huniq k₁ h₁ hM₁).trans (huniq k₂ h₂ hM₂).symm)

/-- The names `web` and `db`, and the strings `a` and `c`. -/
def strWeb : CString := ⟨[119, 101, 98], by decide⟩
def strDb : CString := ⟨[100, 98], by decide⟩
def strA : CString := ⟨[97], by decide⟩
def strC : CString := ⟨[99], by decide⟩

/-- A name index that maps `web` to the id `b` and `db` to the id `cd`. -/
def nameIndex : RbTree CString CString :=
  (Simulation.run (rbtreeCall cstringCmp) rbtreeNew [.insert strWeb strB, .insert strDb strCd]).1

/-- Over the store `strCalls` leave, which holds the containers `1`, `3`, `6` and `5` under the
ids `a1`, `a3`, `b` and `cd`, and `nameIndex`: `a1` resolves by its id, `web` by the name
index, `c` by the one id it starts, and `a`, which starts two ids, by no prefix. -/
theorem containersStoreGet_resolves_sample :
    ∃ (M : CString → Option Nat) (N : CString → Option CString),
      Abstracts cstringCmp strRunTree M ∧ Abstracts cstringCmp nameIndex N ∧
      containersStoreGet strRunTree nameIndex strA1 = some 1 ∧
      (M strWeb = none ∧ N strWeb = some strB ∧
        containersStoreGet strRunTree nameIndex strWeb = some 6) ∧
      (M strC = none ∧ N strC = none ∧
        (∃ k, M k = some 5 ∧ hasPrefix k strC = true ∧
          ∀ k', hasPrefix k' strC = true → M k' ≠ none → k' = k)) ∧
      containersStoreGetByPrefix strRunTree strA = none := by
  have hS : Abstracts cstringCmp strRunTree
      (Simulation.run mapCall (fun _ => none) strCalls).1 :=
    ((rbtreeCall_simulates cmpSpec_rbtreeStrCmp).run (abstracts_rbtreeNew cstringCmp) strCalls).1
  have hI : Abstracts cstringCmp nameIndex
      (Simulation.run mapCall (fun _ => none) [.insert strWeb strB, .insert strDb strCd]).1 :=
    ((rbtreeCall_simulates cmpSpec_rbtreeStrCmp).run (abstracts_rbtreeNew cstringCmp) _).1
  -- the two maps at the strings looked up, read off the trees by `rbtree_search`
  have hM := hS.search cmpSpec_rbtreeStrCmp
  have hN := hI.search cmpSpec_rbtreeStrCmp
  have hMa1 : rbtreeSearch cstringCmp strRunTree strA1 = some 1 := by decide +kernel
  have hMa3 : rbtreeSearch cstringCmp strRunTree strA3 = some 3 := by decide +kernel
  have hMb : rbtreeSearch cstringCmp strRunTree strB = some 6 := by decide +kernel
  have hMweb : rbtreeSearch cstringCmp strRunTree strWeb = none := by decide +kernel
  have hMc : rbtreeSearch cstringCmp strRunTree strC = none := by decide +kernel
  have hNweb : rbtreeSearch cstringCmp nameIndex strWeb = some strB := by decide +kernel
  have hNc : rbtreeSearch cstringCmp nameIndex strC = none := by decide +kernel
  have hgetC : containersStoreGet strRunTree nameIndex strC = some 5 := by decide +kernel
  rw [hM] at hMa1 hMa3 hMb hMweb hMc
  rw [hN] at hNweb hNc
  refine ⟨_, _, hS, hI, (containersStoreGet_resolves hS hI strA1 1).1.2 (Or.inl hMa1),
    ⟨hMweb, hNweb, (containersStoreGet_resolves hS hI strWeb 6).1.2
      (Or.inr (Or.inl ⟨hMweb, strB, hNweb, hMb⟩))⟩, ⟨hMc, hNc, ?_⟩,
    (containersStoreGet_resolves hS hI strA 0).2
      ⟨strA1, strA3, by decide, by decide, by decide, by simp [hMa1], by simp [hMa3]⟩⟩
  -- `c` is neither an id nor a name, so it resolves by the prefix rule
  rcases (containersStoreGet_resolves hS hI strC 5).1.1 hgetC with h | ⟨-, id, h, -⟩ | ⟨-, -, h⟩
  · rw [hMc] at h
    cases h
  · rw [hNc] at h
    cases h
  · exact h

end ContainersStore

end Isulad
