import Mathlib

/-!
# Filter arguments (`filters.c`)

A `filters_args` maps each filter field (`label`, `reference`, ...) to the set of values given
for it, a map of maps in C. `filters_args_match_kv_list` is the label test of the container
list: every value `k` or `k=v` of the field must be satisfied by the labels, `k` by a label
`k` and `k=v` by the label `k` with value `v` (`filtersArgsMatchKvList_iff`).
-/

namespace Isulad

namespace Filters

/-- `struct filters_args`: each field with its values. -/
abbrev FiltersArgs := List (String × List String)

/-- `map_search(filters->fields, field)`. -/
def FiltersArgs.search (filters : FiltersArgs) (field : String) : Option (List String) :=
  filters.lookup field

/-- `filters_args_add`: add a value to a field, creating the field when it is new. -/
def filtersArgsAdd (filters : FiltersArgs) (name value : String) : FiltersArgs :=
  match filters with
  | [] => [(name, [value])]
  | (k, vs) :: rest =>
    if k = name then (k, if value ∈ vs then vs else vs ++ [value]) :: rest
    else (k, vs) :: filtersArgsAdd rest name value

/-- `strchr(copy, '=')` and the cut there: the key, and the value after the first `=`. -/
def splitAtFirstEq : List Char → List Char × Option (List Char)
  | [] => ([], none)
  | c :: cs =>
    if c = '=' then ([], some cs)
    else
      let r := splitAtFirstEq cs
      (c :: r.1, r.2)

/-- One value of the loop of `do_filters_args_match_kv_list`: its key is a label, with the
value after `=` when there is one. -/
def kvMatches (sources : List (String × String)) (name2match : String) : Bool :=
  let kv := splitAtFirstEq name2match.toList
  match sources.lookup (String.ofList kv.1) with
  | none => false
  | some sourcesValue =>
    match kv.2 with
    | none => true
    | some v => String.ofList v = sourcesValue

/-- `filters_args_match_kv_list(filters, field, sources)`; `sources` is `none` when `NULL`. -/
def filtersArgsMatchKvList (filters : FiltersArgs) (field : String)
    (sources : Option (List (String × String))) : Bool :=
  match filters.search field with
  | none => true
  | some [] => true
  | some values =>
    match sources with
    | none => false
    | some [] => false
    | some sources => values.all (kvMatches sources)

/-- `filters_args_exact_match`. -/
def filtersArgsExactMatch (filters : FiltersArgs) (field source : String) : Bool :=
  match filters.search field with
  | none => true
  | some [] => true
  | some values => values.contains source

/-- `filters_args_match`: an exact match, or a value that as a regular expression matches
`source`; `regMatch pattern source` is `util_reg_match(pattern, source) == 0`. -/
def filtersArgsMatch (regMatch : String → String → Bool) (filters : FiltersArgs)
    (field source : String) : Bool :=
  filtersArgsExactMatch filters field source ||
    ((filters.search field).getD []).any fun name2match => regMatch name2match source

/-- `k` or `k=v` is satisfied by the labels. -/
lemma kvMatches_iff (sources : List (String × String)) (name2match : String) :
    kvMatches sources name2match = true ↔
      ∃ value, sources.lookup (String.ofList (splitAtFirstEq name2match.toList).1) = some value ∧
        ∀ v, (splitAtFirstEq name2match.toList).2 = some v → String.ofList v = value := by
  unfold kvMatches
  cases hl : sources.lookup (String.ofList (splitAtFirstEq name2match.toList).1) with
  | none => simp [hl]
  | some value =>
    cases hv : (splitAtFirstEq name2match.toList).2 <;> simp [hl, hv]

/-- The container label filter is all-of: every value of the field holds of the labels. -/
theorem filtersArgsMatchKvList_iff {filters : FiltersArgs} {field : String}
    {values : List String} (hvalues : filters.search field = some values) (hne : values ≠ [])
    (sources : List (String × String)) (hsources : sources ≠ []) :
    filtersArgsMatchKvList filters field (some sources) = true ↔
      ∀ v ∈ values, kvMatches sources v = true := by
  unfold filtersArgsMatchKvList
  rw [hvalues]
  cases values with
  | nil => exact absurd rfl hne
  | cons v vs =>
    cases sources with
    | nil => exact absurd rfl hsources
    | cons s ss => simp [List.all_eq_true]

end Filters

end Isulad
