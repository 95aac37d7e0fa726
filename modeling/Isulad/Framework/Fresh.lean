import Mathlib.Data.List.Nodup

/-!
# Adding what is not there yet

A loop that walks a list of candidates, skips each one whose key it has already seen, and
otherwise writes it out and records its key, is `addFresh`. What it writes is `fresh`: the
candidates whose key is neither among the keys seen at the start nor the key of an earlier
candidate, in order (`addFresh_eq`).

The written candidates are a sublist of the candidates (`fresh_sublist`), none has a key seen
at the start (`key_not_mem_of_mem_fresh`), no two share a key (`nodup_map_fresh`), and every
candidate whose key was not seen has one of its key among them (`exists_mem_fresh`).

A list that grows by `appendNew`, each value appended unless it is already there, ends as the
list followed by the fresh values (`foldl_appendNew`): without duplicates if it had none, and
holding every value offered.
-/

namespace Fresh

variable {α β γ : Type} [DecidableEq β] (key : α → β)

/-- The candidates with a key not in `seen` and not the key of an earlier candidate. -/
def fresh : List β → List α → List α
  | _, [] => []
  | seen, x :: xs => if key x ∈ seen then fresh seen xs else x :: fresh (seen ++ [key x]) xs

/-- The loop: each candidate with a key not seen is written and its key recorded. -/
def addFresh (write : γ → α → γ) : List α → γ × List β → γ × List β
  | [], s => s
  | x :: xs, (c, seen) =>
    addFresh write xs (if key x ∈ seen then (c, seen) else (write c x, seen ++ [key x]))

attribute [local simp] fresh in
/-- The loop writes the fresh candidates, in order, and records their keys. -/
lemma addFresh_eq (write : γ → α → γ) (xs : List α) (c : γ) (seen : List β) :
    addFresh key write xs (c, seen) =
      ((fresh key seen xs).foldl write c, seen ++ (fresh key seen xs).map key) := by
  induction xs generalizing c seen with
  | nil => simp [addFresh, fresh]
  | cons x xs ih =>
    by_cases hx : key x ∈ seen <;> simp [addFresh, fresh, hx, ih]

lemma fresh_sublist (seen : List β) (xs : List α) : (fresh key seen xs).Sublist xs := by
  induction xs generalizing seen with
  | nil => exact List.Sublist.slnil
  | cons x xs ih =>
    unfold fresh
    split_ifs
    · exact (ih seen).cons x
    · exact (ih _).cons_cons x

lemma key_not_mem_of_mem_fresh {seen : List β} {xs : List α} {y : α}
    (hy : y ∈ fresh key seen xs) : key y ∉ seen := by
  induction xs generalizing seen with
  | nil => simp [fresh] at hy
  | cons x xs ih =>
    unfold fresh at hy
    split_ifs at hy with hx
    · exact ih hy
    · rcases List.mem_cons.1 hy with rfl | hy
      · exact hx
      · exact fun hs => ih hy (List.mem_append_left _ hs)

lemma nodup_map_fresh (seen : List β) (xs : List α) : ((fresh key seen xs).map key).Nodup := by
  induction xs generalizing seen with
  | nil => simp [fresh]
  | cons x xs ih =>
    unfold fresh
    split_ifs with hx
    · exact ih seen
    · rw [List.map_cons, List.nodup_cons]
      refine ⟨fun hmem => ?_, ih _⟩
      -- a later fresh candidate has a key other than the one just recorded
      obtain ⟨y, hy, hky⟩ := List.mem_map.1 hmem
      exact key_not_mem_of_mem_fresh key hy
        (hky ▸ List.mem_append_right _ (List.mem_singleton_self _))

lemma exists_mem_fresh {seen : List β} {xs : List α} {x : α} (hx : x ∈ xs)
    (hnot : key x ∉ seen) : ∃ y ∈ fresh key seen xs, key y = key x := by
  induction xs generalizing seen with
  | nil => simp at hx
  | cons z xs ih =>
    unfold fresh
    split_ifs with hz
    · rcases List.mem_cons.1 hx with rfl | hx
      · exact absurd hz hnot
      · exact ih hx hnot
    · by_cases hkey : key x = key z
      · exact ⟨z, List.mem_cons_self, hkey.symm⟩
      · rcases List.mem_cons.1 hx with rfl | hx
        · exact absurd rfl hkey
        · have hnot' : key x ∉ seen ++ [key z] := fun h =>
            (List.mem_append.1 h).elim hnot fun h' => hkey (List.mem_singleton.1 h')
          obtain ⟨y, hy, hky⟩ := ih hx hnot'
          exact ⟨y, List.mem_cons_of_mem _ hy, hky⟩

/-! ## Appending what is not there yet

With the list written so far as the keys seen, the loop is `appendNew` folded over the
candidates, and what it appends is `fresh id`. -/

/-- `x` appended to `l` unless `l` has it. -/
def appendNew (l : List β) (x : β) : List β := if x ∈ l then l else l ++ [x]

lemma foldl_appendNew (xs l : List β) : xs.foldl appendNew l = l ++ fresh id l xs := by
  induction xs generalizing l with
  | nil => simp [fresh]
  | cons x xs ih =>
    by_cases hx : x ∈ l <;> simp [appendNew, fresh, hx, ih]

/-- Appending keeps a list free of duplicates. -/
lemma nodup_foldl_appendNew {l : List β} (hl : l.Nodup) (xs : List β) :
    (xs.foldl appendNew l).Nodup := by
  rw [foldl_appendNew, List.nodup_append]
  refine ⟨hl, by simpa using nodup_map_fresh id l xs, fun a ha b hb hab => ?_⟩
  subst hab
  exact key_not_mem_of_mem_fresh id hb ha

/-- After the loop the list holds what it held and every candidate. -/
lemma mem_foldl_appendNew {l xs : List β} {y : β} :
    y ∈ xs.foldl appendNew l ↔ y ∈ l ∨ y ∈ xs := by
  rw [foldl_appendNew, List.mem_append]
  constructor
  · rintro (hy | hy)
    · exact Or.inl hy
    · exact Or.inr ((fresh_sublist id l xs).subset hy)
  · rintro (hy | hy)
    · exact Or.inl hy
    · by_cases hl : y ∈ l
      · exact Or.inl hl
      · obtain ⟨z, hz, rfl⟩ := exists_mem_fresh id hy hl
        exact Or.inr hz

end Fresh
