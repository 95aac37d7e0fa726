import Isulad.Filters
import Mathlib.Data.List.Basic

/-!
# Listing containers (`list.c`)

`container_list_cb` folds the request's filters into a `filters_args` (`fold_filter`: only the
fields `id`, `label`, `name` and `status`, and a status filter lists stopped containers too),
takes the id and name of every container from the name index, and then looks at each id
(`pack_list_containers`, `get_container_info`): a container that is not running is dropped
unless all are asked for (`get_cnt_state`), and one that fails a filter is dropped
(`container_info_match`). Name and id filters match exactly or as regular expressions
(`filters_args_match`), the status filter by the status's name, the label filter all-of
(`filters_args_match_kv_list`).

When a name or an id filter is given, a "fast path" runs first (`filter_by_name_id_matches`):
each id filter is resolved to the one container whose id starts with it
(`containers_store_get_by_prefix`), and name filters add the containers whose names match. If
that finds nothing, or two id filters resolve to one container, nothing is listed; otherwise
every id is handed on. So the fast path never narrows the list, and only decides whether the
list is empty, by tests that depend on the other containers of the store: with `abc1` and
`abc10` stored, the id filter `abc1` is a prefix of both and lists neither, although `abc1`
passes every test of its own (`containerListCb_depends_on_other_containers`).

Whatever is listed is listed once and passes every test of its own (`containerListCb_sound`,
`containerListCb_nodup`), and with no name or id filter the list is exactly the store's
containers that pass them (`containerListCb_of_no_name_id`). The regular expression matcher
is a parameter, `regMatch pattern source` standing for `util_reg_match(pattern, source) == 0`.
-/

namespace Isulad

namespace ContainerList

open Filters

/-! ## Containers and their status -/

/-- `defaultContainerTime`: the start and finish time of a container that never ran. -/
def defaultContainerTime : String := "0001-01-01T00:00:00Z"

/-- The fields of `container_config_v2_state` that `state_judge_status` reads. -/
structure ContainerState where
  running : Bool
  paused : Bool
  restarting : Bool
  starting : Bool
  startedAt : Option String
  finishedAt : Option String
  deriving DecidableEq, Repr

/-- `Container_Status`. -/
inductive ContainerStatus
  | unknown
  | created
  | starting
  | running
  | stopped
  | paused
  | restarting
  deriving DecidableEq, Repr

/-- `state_judge_status(state)`. -/
def stateJudgeStatus (state : ContainerState) : ContainerStatus :=
  if state.running then
    if state.paused then .paused
    else if state.restarting then .restarting
    else .running
  else if state.starting then .starting
  else
    match state.startedAt, state.finishedAt with
    | some startedAt, some finishedAt =>
      if startedAt = defaultContainerTime ∧ finishedAt = defaultContainerTime then .created
      else .stopped
    | _, _ => .unknown

/-- `state_to_string(cs)`. -/
def stateToString : ContainerStatus → String
  | .unknown => "unknown"
  | .created => "inited"
  | .starting => "starting"
  | .running => "running"
  | .stopped => "exited"
  | .paused => "paused"
  | .restarting => "restarting"

/-- `is_valid_state_string(state)`. -/
def isValidStateString (state : String) : Bool :=
  state = "paused" || state = "restarting" || state = "running" || state = "dead" ||
    state = "created" || state = "exited"

/-- What the list reads of a container: its id, name, state and labels. -/
structure Container where
  id : String
  name : String
  state : ContainerState
  labels : List (String × String)
  deriving DecidableEq, Repr

/-- The containers of `g_containers_store`, in the order of their ids; no two share an id. -/
structure Store where
  containers : List Container
  ids_nodup : (containers.map Container.id).Nodup

/-- `containers_store_get_by_prefix(pre)`: the one container whose id starts with `pre`;
none when no id or more than one does. -/
def containersStoreGetByPrefix (store : Store) (pre : String) : Option Container :=
  match store.containers.filter fun c => pre.toList.isPrefixOf c.id.toList with
  | [c] => some c
  | _ => none

/-- `containers_store_get(id_or_name)`: by id, then by name, then by id prefix. -/
def containersStoreGet (store : Store) (idOrName : String) : Option Container :=
  match store.containers.find? (·.id = idOrName) with
  | some c => some c
  | none =>
    match store.containers.find? (·.name = idOrName) with
    | some c => some c
    | none => containersStoreGetByPrefix store idOrName

/-- `name_index_get_all()`: each container's id with its name. -/
def nameIndexGetAll (store : Store) : List (String × String) :=
  store.containers.map fun c => (c.id, c.name)

/-! ## The request and its filters -/

/-- `container_list_request`: whether to list stopped containers, and the filters. -/
structure ContainerListRequest where
  all : Bool
  filters : List (String × List String)

/-- `struct list_context`. -/
structure ListContext where
  all : Bool
  psFilters : FiltersArgs

/-- `accepted_ps_filter_tags`. -/
def acceptedPsFilterTags : List String := ["id", "label", "name", "status"]

/-- `do_add_filters(filter_key, filter_value, ctx)`. -/
def doAddFilters (filterKey : String) : List String → ListContext → Except String ListContext
  | [], ctx => .ok ctx
  | v :: vs, ctx =>
    if filterKey = "status" ∧ !isValidStateString v then
      .error ("Unrecognised filter value for status: " ++ v)
    else
      let all := if filterKey = "status" then true else ctx.all
      doAddFilters filterKey vs ⟨all, filtersArgsAdd ctx.psFilters filterKey v⟩

/-- `fold_filter(request)`. -/
def foldFilter (request : ContainerListRequest) : Except String ListContext :=
  go request.filters ⟨request.all, []⟩
where
  go : List (String × List String) → ListContext → Except String ListContext
    | [], ctx => .ok ctx
    | (key, values) :: rest, ctx =>
      if key ∉ acceptedPsFilterTags then .error ("Invalid filter '" ++ key ++ "'")
      else
        match doAddFilters key values ctx with
        | .error e => .error e
        | .ok ctx => go rest ctx

/-- `filters_args_get(filters, field)`: the values of a field. -/
def filtersArgsGet (filters : FiltersArgs) (field : String) : List String :=
  (filters.search field).getD []

/-! ## The fast path -/

section FastPath

variable (regMatch : String → String → Bool)

/-- `append_ids(map_id_name, &filtered_ids)`: the ids. -/
def appendIds (mapIdName : List (String × String)) : List String := mapIdName.map Prod.fst

/-- `insert_matched_id(ids, matches, ...)`: the container each id filter names by prefix;
`none` when `map_insert` refuses one already there. -/
def insertMatchedId (store : Store) : List String → List String → Option (List String)
  | [], matched => some matched
  | i :: ids, matched =>
    match containersStoreGetByPrefix store i with
    | none => insertMatchedId store ids matched
    | some cont =>
      if cont.id ∈ matched then none else insertMatchedId store ids (matched ++ [cont.id])

/-- `filter_by_name(ctx, map_id_name, matches, idsearch)`: add the ids whose names match;
with `idsearch` only ids already matched. -/
def filterByName (filters : FiltersArgs) (mapIdName : List (String × String)) (idsearch : Bool)
    (matched : List String) : List String :=
  mapIdName.foldl (fun m entry =>
    if idsearch && !m.contains entry.1 then m
    else if filtersArgsMatch regMatch filters "name" entry.2 then
      (if entry.1 ∈ m then m else m ++ [entry.1])
    else m) matched

/-- `filter_by_name_id_matches(ctx, map_id_name)`: the ids to look at; `[]` for `NULL`. -/
def filterByNameIdMatches (store : Store) (filters : FiltersArgs)
    (mapIdName : List (String × String)) : List String :=
  let names := filtersArgsGet filters "name"
  let ids := filtersArgsGet filters "id"
  if names.length = 0 ∧ ids.length = 0 then appendIds mapIdName
  else
    let idsearch := decide (0 < ids.length)
    match insertMatchedId store ids [] with
    | none => []
    | some matched =>
      let matched :=
        if 0 < names.length then filterByName regMatch filters mapIdName idsearch matched
        else matched
      -- the matched ids only decide whether anything is listed: all ids are handed on
      if 0 < matched.length then appendIds mapIdName else []

/-! ## Each container's own tests -/

/-- `get_cnt_state`: a container that is not running is listed only when all are asked for. -/
def getCntState (ctx : ListContext) (state : ContainerState) : Bool := state.running || ctx.all

/-- `container_info_match(ctx, map_labels, isuladinfo, cont_state)`. -/
def containerInfoMatch (filters : FiltersArgs) (c : Container) : Bool :=
  filtersArgsMatch regMatch filters "name" c.name &&
    filtersArgsMatch regMatch filters "id" c.id &&
    (match stateJudgeStatus c.state with
      | .created =>
        filtersArgsMatch regMatch filters "status" "created" ||
          filtersArgsMatch regMatch filters "status" "inited"
      | cs => filtersArgsMatch regMatch filters "status" (stateToString cs)) &&
    filtersArgsMatchKvList filters "label" (some c.labels)

/-- `get_container_info(name, ctx)`: the container listed for an id, if it is. -/
def getContainerInfo (store : Store) (ctx : ListContext) (name : String) : Option Container :=
  match containersStoreGet store name with
  | none => none
  | some cont =>
    if getCntState ctx cont.state && containerInfoMatch regMatch ctx.psFilters cont then some cont
    else none

/-- `container_list_cb(request, &response)`: the containers listed, or the error message. -/
def containerListCb (store : Store) (request : ContainerListRequest) :
    Except String (List Container) :=
  match foldFilter request with
  | .error e => .error e
  | .ok ctx =>
    let mapIdName := nameIndexGetAll store
    if mapIdName.length = 0 then .ok []
    else
      let idsarray := filterByNameIdMatches regMatch store ctx.psFilters mapIdName
      .ok (idsarray.filterMap (getContainerInfo regMatch store ctx))

/-- What listing means: a container is listed when the request admits it on its own. -/
def Admits (ctx : ListContext) (c : Container) : Prop :=
  getCntState ctx c.state = true ∧ containerInfoMatch regMatch ctx.psFilters c = true

instance (ctx : ListContext) (c : Container) : Decidable (Admits regMatch ctx c) :=
  inferInstanceAs (Decidable (_ ∧ _))

/-! ## What the list returns -/

/-- An id of the store finds its own container first. -/
lemma find?_id_of_mem {cs : List Container} (hnd : (cs.map Container.id).Nodup) {c : Container}
    (hc : c ∈ cs) : cs.find? (·.id = c.id) = some c := by
  induction cs with
  | nil => cases hc
  | cons d ds ih =>
    rw [List.map_cons, List.nodup_cons] at hnd
    rcases List.mem_cons.1 hc with rfl | hc
    · simp
    · have hne : d.id ≠ c.id := fun h => hnd.1 (h ▸ List.mem_map_of_mem hc)
      simp [hne, ih hnd.2 hc]

lemma containersStoreGet_id {store : Store} {c : Container} (hc : c ∈ store.containers) :
    containersStoreGet store c.id = some c := by
  simp [containersStoreGet, find?_id_of_mem store.ids_nodup hc]

/-- Looked up by its id, a container is listed exactly when the request admits it. -/
lemma getContainerInfo_id {store : Store} (ctx : ListContext) {c : Container}
    (hc : c ∈ store.containers) :
    getContainerInfo regMatch store ctx c.id = if Admits regMatch ctx c then some c else none := by
  simp only [getContainerInfo, containersStoreGet_id hc, Admits, Bool.and_eq_true]
  rfl

attribute [local simp] nameIndexGetAll in
/-- Handed every id, `pack_list_containers` lists the containers the request admits. -/
theorem filterMap_getContainerInfo (store : Store) (ctx : ListContext) :
    (appendIds (nameIndexGetAll store)).filterMap (getContainerInfo regMatch store ctx) =
      store.containers.filter fun c => decide (Admits regMatch ctx c) := by
  have hids : appendIds (nameIndexGetAll store) = store.containers.map Container.id := by
    simp [appendIds, nameIndexGetAll]
  rw [hids, List.filterMap_map, ← List.filterMap_eq_filter]
  apply List.filterMap_congr
  intro c hc
  simp [getContainerInfo_id regMatch ctx hc, Option.guard]

attribute [local simp] filterByNameIdMatches in
/-- The fast path hands on every id or none. -/
lemma filterByNameIdMatches_cases (store : Store) (filters : FiltersArgs)
    (mapIdName : List (String × String)) :
    filterByNameIdMatches regMatch store filters mapIdName = [] ∨
      filterByNameIdMatches regMatch store filters mapIdName = appendIds mapIdName := by
  unfold filterByNameIdMatches
  dsimp only
  split
  · exact .inr rfl
  · split
    · exact .inl rfl
    -- the name filters change the matched ids, and only their number is read
    · split <;> (split <;> simp)

/-- The list is empty or the store's containers that the request admits. -/
theorem containerListCb_ok {store : Store} {request : ContainerListRequest}
    {cs : List Container} (h : containerListCb regMatch store request = .ok cs) :
    ∃ ctx, foldFilter request = .ok ctx ∧
      (cs = [] ∨ cs = store.containers.filter fun c => decide (Admits regMatch ctx c)) := by
  unfold containerListCb at h
  split at h
  · cases h
  · rename_i ctx hctx
    refine ⟨ctx, hctx, ?_⟩
    dsimp only at h
    split at h
    · exact .inl (Except.ok.inj h).symm
    · rcases filterByNameIdMatches_cases regMatch store ctx.psFilters (nameIndexGetAll store)
        with hids | hids <;> rw [hids] at h
      · exact .inl (Except.ok.inj h).symm
      · exact .inr ((Except.ok.inj h).symm.trans (filterMap_getContainerInfo regMatch store ctx))

/-- Whatever is listed is a container of the store that passes every test of its own. -/
theorem containerListCb_sound {store : Store} {request : ContainerListRequest}
    {cs : List Container} (h : containerListCb regMatch store request = .ok cs) :
    ∃ ctx, foldFilter request = .ok ctx ∧ ∀ c ∈ cs, c ∈ store.containers ∧ Admits regMatch ctx c := by
  obtain ⟨ctx, hctx, rfl | rfl⟩ := containerListCb_ok regMatch h
  · exact ⟨ctx, hctx, fun c hc => by cases hc⟩
  · refine ⟨ctx, hctx, fun c hc => ?_⟩
    rw [List.mem_filter, decide_eq_true_iff] at hc
    exact hc

/-- No container is listed twice. -/
theorem containerListCb_nodup {store : Store} {request : ContainerListRequest}
    {cs : List Container} (h : containerListCb regMatch store request = .ok cs) :
    (cs.map Container.id).Nodup := by
  obtain ⟨ctx, -, rfl | rfl⟩ := containerListCb_ok regMatch h
  · exact List.nodup_nil
  · exact store.ids_nodup.sublist ((List.filter_sublist).map Container.id)

/-- With no name or id filter the fast path does not run, and the list is exactly the
containers the request admits. -/
theorem containerListCb_of_no_name_id {store : Store} {request : ContainerListRequest}
    {ctx : ListContext} (hctx : foldFilter request = .ok ctx)
    (hnames : filtersArgsGet ctx.psFilters "name" = [])
    (hids : filtersArgsGet ctx.psFilters "id" = []) :
    containerListCb regMatch store request =
      .ok (store.containers.filter fun c => decide (Admits regMatch ctx c)) := by
  unfold containerListCb
  rw [hctx]
  dsimp only
  split
  · rename_i hempty
    have : store.containers = [] := by simpa [nameIndexGetAll] using hempty
    simp [this]
  · have hfast : filterByNameIdMatches regMatch store ctx.psFilters (nameIndexGetAll store) =
        appendIds (nameIndexGetAll store) := by
      simp [filterByNameIdMatches, hnames, hids]
    rw [hfast, filterMap_getContainerInfo]

end FastPath

/-! ## One container's listing depends on another -/

/-- A container that runs. -/
def runningState : ContainerState := ⟨true, false, false, false, some "2024-01-01T00:00:00Z", none⟩

def abc1 : Container := ⟨"abc1", "web", runningState, []⟩

def abc10 : Container := ⟨"abc10", "db", runningState, []⟩

/-- `isula ps --filter id=abc1`. -/
def idRequest : ContainerListRequest := ⟨false, [("id", ["abc1"])]⟩

def aloneStore : Store := ⟨[abc1], by decide⟩

def sharedStore : Store := ⟨[abc1, abc10], by decide⟩

/-- For every regular expression matcher, `abc1` passes every test of its own and is listed
when it is alone, but not once `abc10` is stored, whose id also starts with `abc1`. -/
theorem containerListCb_depends_on_other_containers (regMatch : String → String → Bool) :
    (∃ ctx, foldFilter idRequest = .ok ctx ∧ Admits regMatch ctx abc1) ∧
    containerListCb regMatch aloneStore idRequest = .ok [abc1] ∧
    abc1 ∈ sharedStore.containers ∧
    containerListCb regMatch sharedStore idRequest = .ok [] :=
  ⟨⟨_, rfl, rfl, rfl⟩, rfl, List.mem_cons_self, rfl⟩

end ContainerList

end Isulad
