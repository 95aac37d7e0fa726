import Isulad.Framework.PartialMap
import Isulad.Framework.Simulation

/-!
# The name index and the containers store (`containers_store.c`)

The daemon keeps two maps: the name index `g_indexs` from each container name to its id, and
the containers store `g_containers_store` from each id to its container, whose
`common_config->name` is the container's name. The requests that change them run
concurrently, each as a few critical sections under the maps' own locks:

* create (`maintain_container_id`, `container_create_cb`, `register_new_container`): add the
  name, set the container up, register it, or remove the name again when the setup fails;
* rename (`container_rename`): move the index entry to the new name, set the name, save the
  container, and on a failed save (`restore_names_at_fail`) set the old name back and move
  the entry back;
* delete (`do_cleanup_container_resources`): unregister the container, then remove its name;
* restore (`restore_container_by_runtime`): add the name of a container loaded from disk and
  register it.

The maps are those of `map.c`, a red-black tree that implements a finite map whose calls are
those of `PartialMap` (`RbTree.reachable_refines_finiteMap`, `RbTree.mapCall_insert`), so here
they are partial functions with those calls. A request is modelled per container: requests on one container are serialised
by its lock, and the machine runs at most one in flight for each container, in any
interleaving with those of the others.

Each request holds, while in flight, the name the index should give its container
(`Thread.held`). So long as every save of a rename succeeds and ids are fresh, the index is at
every moment the inverse of what the store and the requests in flight hold (`Inv`), and when
no request is in flight it is exactly the inverse of the containers' names
(`consistent_of_quiescent`). A failed save breaks this once another container has taken the
old name meanwhile: the restore cannot move the entry back, and two containers keep one name
(`containerRename_restore_keeps_taken_name`).
-/

namespace Isulad

namespace ContainersStore

open PartialMap Simulation

/-! ## The maps -/

/-- The name index and the containers store; the store keeps of each container its name. -/
structure Maps where
  index : String → Option String
  store : String → Option String

/-- `name_index_add(name, id)`. -/
def nameIndexAdd (m : Maps) (name id : String) : Maps × Bool :=
  let r := insertNew m.index name id
  ({ m with index := r.1 }, r.2)

/-- `name_index_rename(new_name, old_name, id)`: insert the new name, then remove the old;
when the removal fails the insertion stays. -/
def nameIndexRename (m : Maps) (newName oldName id : String) : Maps × Bool :=
  match insertNew m.index newName id with
  | (_, false) => (m, false)
  | (index, true) =>
    let r := erase index oldName
    ({ m with index := r.1 }, r.2)

/-- `name_index_remove(name)`. -/
def nameIndexRemove (m : Maps) (name : String) : Maps × Bool :=
  let r := erase m.index name
  ({ m with index := r.1 }, r.2)

/-- `containers_store_add(id, cont)`, a `map_replace`, with the container named `name`. -/
def containersStoreAdd (m : Maps) (id name : String) : Maps × Bool :=
  let r := replace m.store id name
  ({ m with store := r.1 }, r.2)

/-- `containers_store_remove(id)`. -/
def containersStoreRemove (m : Maps) (id : String) : Maps × Bool :=
  let r := erase m.store id
  ({ m with store := r.1 }, r.2)

/-- `cont->common_config->name = name` on the registered container `id`. -/
def setName (m : Maps) (id name : String) : Maps :=
  { m with store := Function.update m.store id (some name) }

section MapLemmas

variable {m : Maps} {name id : String}

attribute [local simp] nameIndexAdd in
@[simp] lemma nameIndexAdd_of_none (h : m.index name = none) :
    nameIndexAdd m name id = (⟨Function.update m.index name (some id), m.store⟩, true) := by
  simp [nameIndexAdd, h]

@[simp] lemma nameIndexAdd_of_some {j : String} (h : m.index name = some j) :
    nameIndexAdd m name id = (m, false) := by
  simp [nameIndexAdd, h]

@[simp] lemma nameIndexRemove_fst : (nameIndexRemove m name).1 =
    ⟨Function.update m.index name none, m.store⟩ := by
  simp [nameIndexRemove, erase_fst]

@[simp] lemma containersStoreAdd_fst : (containersStoreAdd m id name).1 =
    ⟨m.index, Function.update m.store id (some name)⟩ := rfl

@[simp] lemma containersStoreRemove_fst : (containersStoreRemove m id).1 =
    ⟨m.index, Function.update m.store id none⟩ := by
  simp [containersStoreRemove, erase_fst]

@[simp] lemma setName_index : (setName m id name).index = m.index := rfl

@[simp] lemma setName_store : (setName m id name).store = Function.update m.store id (some name) :=
  rfl

attribute [local simp] nameIndexRename in
/-- A rename to a name in use fails and changes nothing. -/
@[simp] lemma nameIndexRename_of_some {newName oldName j : String} (h : m.index newName = some j) :
    nameIndexRename m newName oldName id = (m, false) := by
  simp [nameIndexRename, h]

/-- A rename to a free name from a name in the index moves the entry. -/
lemma nameIndexRename_of_none {newName oldName j : String} (h : m.index newName = none)
    (hold : m.index oldName = some j) (hne : oldName ≠ newName) :
    nameIndexRename m newName oldName id =
      (⟨Function.update (Function.update m.index newName (some id)) oldName none, m.store⟩,
        true) := by
  have hold' : Function.update m.index newName (some id) oldName = some j := by
    rw [Function.update_of_ne hne, hold]
  simp [nameIndexRename, h, hold']

end MapLemmas

/-! ## Requests -/

/-- A request on one container. -/
inductive Request
  | create (name : String)
  | rename (newName : String)
  | delete
  | restore (name : String)
  deriving DecidableEq, Repr

/-- Where a request in flight stands. -/
inductive Thread
  /-- `maintain_container_id`, before `name_index_add`. -/
  | createAdd (name : String)
  /-- The name is added; the container is being set up and registered. -/
  | createRegister (name : String)
  /-- `container_rename`, before `name_index_rename`. -/
  | renameStart (newName : String)
  /-- The index holds the new name; the name is set and the container saved next. -/
  | renameSave (newName oldName : String)
  /-- `do_cleanup_container_resources`, before `containers_store_remove`. -/
  | deleteStart
  /-- The container is unregistered; `name_index_remove` is next. -/
  | deleteIndex (name : String)
  /-- `restore_container_by_runtime` on one loaded container. -/
  | restoreLoad (name : String)
  deriving DecidableEq, Repr

/-- The first step of a request. -/
def Request.start : Request → Thread
  | .create name => .createAdd name
  | .rename newName => .renameStart newName
  | .delete => .deleteStart
  | .restore name => .restoreLoad name

/-- One critical section of the request in flight on the container `id`: the maps it leaves
and where the request then stands (`none` once it has returned). `ok` is the outcome of the
work of this section that can fail: the container's setup for a create, `container_to_disk`
for a rename, the cleanup for a delete. The id of a create is the one `try_generate_id` drew. -/
def threadStep (m : Maps) (id : String) : Thread → Bool → Maps × Option Thread
  | .createAdd name, _ =>
    match nameIndexAdd m name id with
    | (m', true) => (m', some (.createRegister name))
    | (_, false) => (m, none)
  | .createRegister name, ok =>
    -- the setup failed: `clean_nameindex`
    if ok then ((containersStoreAdd m id name).1, none) else ((nameIndexRemove m name).1, none)
  | .renameStart newName, _ =>
    match m.store id with
    | none => (m, none)
    | some oldName =>
      if oldName = newName then (m, none)
      else
        match nameIndexRename m newName oldName id with
        | (m', true) => (m', some (.renameSave newName oldName))
        | (m', false) => (m', none)
  | .renameSave newName oldName, ok =>
    -- a failed `container_to_disk`: `restore_names_at_fail`, whose rename may fail unnoticed
    if ok then (setName m id newName, none)
    else ((nameIndexRename (setName m id oldName) oldName newName id).1, none)
  | .deleteStart, ok =>
    match m.store id with
    | none => (m, none)
    | some name => if ok then ((containersStoreRemove m id).1, some (.deleteIndex name)) else (m, none)
  | .deleteIndex name, _ => ((nameIndexRemove m name).1, none)
  | .restoreLoad name, _ =>
    match nameIndexAdd m name id with
    | (m', true) => ((containersStoreAdd m' id name).1, none)
    | (_, false) => (m, none)

/-! ## The machine -/

/-- The maps and the request in flight on each container. -/
structure System where
  maps : Maps
  threads : String → Option Thread

/-- What happens next: a request arrives on a container, or the request in flight on a
container takes its next step with the given outcome. -/
inductive Event
  | request (id : String) (r : Request)
  | step (id : String) (ok : Bool)

/-- The daemon before any container. -/
def init : System := ⟨⟨fun _ => none, fun _ => none⟩, fun _ => none⟩

/-- One event. A request on a container with one in flight waits for its lock. -/
def step (s : System) : Event → System × Unit
  | .request id r =>
    match s.threads id with
    | none => ({ s with threads := Function.update s.threads id (some r.start) }, ())
    | some _ => (s, ())
  | .step id ok =>
    match s.threads id with
    | none => (s, ())
    | some t =>
      let r := threadStep s.maps id t ok
      (⟨r.1, Function.update s.threads id r.2⟩, ())

/-- The container an event is about. -/
def Event.id : Event → String
  | .request id _ => id
  | .step id _ => id

attribute [local simp] step Event.id in
/-- An event leaves the requests on the other containers where they stand. -/
lemma step_threads_of_ne (s : System) {e : Event} {id : String} (h : e.id ≠ id) :
    (step s e).1.threads id = s.threads id := by
  cases e with
  | request i r =>
    simp only [Event.id] at h
    simp only [step]
    split <;> simp [Function.update_of_ne (Ne.symm h)]
  | step i ok =>
    simp only [Event.id] at h
    simp only [step]
    split <;> simp [Function.update_of_ne (Ne.symm h)]

/-! ## What the requests in flight hold -/

/-- The name the index should give the container while its request stands at `t`, when the
store registers it as `stored`: the name a create has added, the new name a rename has moved
the entry to, the name a delete has still to remove; else the registered name. -/
def Thread.held (stored : Option String) : Thread → Option String
  | .createRegister name => some name
  | .renameSave newName _ => some newName
  | .deleteIndex name => some name
  | _ => stored

section Held

variable (stored : Option String)

@[simp] lemma Thread.held_createAdd (name : String) : (Thread.createAdd name).held stored = stored :=
  rfl

@[simp] lemma Thread.held_createRegister (name : String) :
    (Thread.createRegister name).held stored = some name := rfl

@[simp] lemma Thread.held_renameStart (newName : String) :
    (Thread.renameStart newName).held stored = stored := rfl

@[simp] lemma Thread.held_renameSave (newName oldName : String) :
    (Thread.renameSave newName oldName).held stored = some newName := rfl

@[simp] lemma Thread.held_deleteStart : Thread.deleteStart.held stored = stored := rfl

@[simp] lemma Thread.held_deleteIndex (name : String) :
    (Thread.deleteIndex name).held stored = some name := rfl

@[simp] lemma Thread.held_restoreLoad (name : String) :
    (Thread.restoreLoad name).held stored = stored := rfl

end Held

/-- The name held for a container with the request `t` in flight, if any. -/
def heldName (stored : Option String) : Option Thread → Option String
  | none => stored
  | some t => t.held stored

@[simp] lemma heldName_none (stored : Option String) : heldName stored none = stored := rfl

@[simp] lemma heldName_some (stored : Option String) (t : Thread) :
    heldName stored (some t) = t.held stored := rfl

/-- The name held for each container. -/
def System.view (s : System) (id : String) : Option String :=
  heldName (s.maps.store id) (s.threads id)

/-- What a request in flight needs of its container's registration: none until a create or a
restore registers it and after a delete unregisters it, the old name during a rename's save. -/
def Thread.Fits (stored : Option String) : Thread → Prop
  | .createAdd _ | .createRegister _ | .deleteIndex _ | .restoreLoad _ => stored = none
  | .renameSave _ oldName => stored = some oldName
  | .renameStart _ | .deleteStart => True

/-- The invariant: the index is the inverse of the names held, and each request fits. -/
structure Inv (s : System) : Prop where
  inverse : IsInverse s.maps.index s.view
  fits : ∀ id t, s.threads id = some t → t.Fits (s.maps.store id)

/-- A create or a restore, whose container is new. -/
def Request.isNew : Request → Bool
  | .create _ | .restore _ => true
  | .rename _ | .delete => false

/-- A rename about to save its container. -/
def Thread.saves : Thread → Bool
  | .renameSave _ _ => true
  | _ => false

/-- The runs the positive result is about: a create or a restore comes with a fresh id, and
every `container_to_disk` of a rename succeeds. -/
def Admissible (s : System) : Event → Prop
  | .request id r => r.isNew = true → s.maps.store id = none
  | .step id ok => (s.threads id).any Thread.saves = true → ok = true

instance (s : System) : (e : Event) → Decidable (Admissible s e)
  | .request id r => inferInstanceAs (Decidable (r.isNew = true → s.maps.store id = none))
  | .step id ok => inferInstanceAs (Decidable ((s.threads id).any Thread.saves = true → ok = true))

/-- What a critical section of the request on `id` does: it moves the binding of `id` in the
index as the name held moves, leaves the other registrations alone, and leaves a request that
fits. -/
structure Sound (m : Maps) (id : String) (t : Thread) (r : Maps × Option Thread) : Prop where
  move : Move id m.index (t.held (m.store id)) r.1.index (heldName (r.1.store id) r.2)
  frame : ∀ j, j ≠ id → r.1.store j = m.store j
  fits : ∀ t', r.2 = some t' → t'.Fits (r.1.store id)

/-! ## Each critical section is sound -/

section Sections

variable {m : Maps} {id : String}

/-- A section that changes nothing and returns. -/
lemma sound_keep {t : Thread} (ht : t.held (m.store id) = m.store id) :
    Sound m id t (m, none) := by
  refine ⟨?_, fun _ _ => rfl, fun _ h => by cases h⟩
  rw [ht, heldName_none]
  exact .keep _ _

attribute [local simp] threadStep in
lemma sound_createAdd {name : String} (hfit : m.store id = none) :
    Sound m id (.createAdd name) (threadStep m id (.createAdd name) ok) := by
  cases hn : m.index name with
  | none =>
    simp only [threadStep, nameIndexAdd_of_none hn]
    refine ⟨?_, fun _ _ => rfl, ?_⟩
    · rw [Thread.held_createAdd, hfit, heldName_some, Thread.held_createRegister]
      exact .bind _ _ hn
    · rintro t' ⟨⟩
      exact hfit
  | some j =>
    simp only [threadStep, nameIndexAdd_of_some hn]
    exact sound_keep rfl

attribute [local simp] heldName Thread.held in
lemma sound_createRegister {name : String} (hfit : m.store id = none) :
    Sound m id (.createRegister name) (threadStep m id (.createRegister name) ok) := by
  cases ok with
  | true =>
    simp only [threadStep, if_true, containersStoreAdd_fst]
    refine ⟨?_, fun j hj => Function.update_of_ne hj _ _, fun _ h => by cases h⟩
    simp only [heldName, Thread.held, Function.update_self]
    exact .keep _ _
  | false =>
    simp only [threadStep, Bool.false_eq_true, if_false, nameIndexRemove_fst]
    refine ⟨?_, fun _ _ => rfl, fun _ h => by cases h⟩
    simp only [heldName, hfit]
    exact .unbind _ _

/-- The rename's first section: given that the index holds the container's name, it moves
the entry to a free new name, or changes nothing. -/
lemma sound_renameStart {newName : String}
    (hidx : ∀ n, m.store id = some n → m.index n = some id) :
    Sound m id (.renameStart newName) (threadStep m id (.renameStart newName) ok) := by
  cases hs : m.store id with
  | none =>
    simp only [threadStep, hs]
    exact sound_keep (by rw [hs]; rfl)
  | some oldName =>
    simp only [threadStep, hs]
    by_cases he : oldName = newName
    · rw [if_pos he]
      exact sound_keep (by rw [hs]; rfl)
    rw [if_neg he]
    cases hn : m.index newName with
    | none =>
      rw [nameIndexRename_of_none hn (hidx oldName hs) he]
      refine ⟨?_, fun _ _ => rfl, ?_⟩
      · simp only [Thread.held, heldName, hs]
        exact .rebind _ _ _ hn
      · rintro t' ⟨⟩
        exact hs
    | some j =>
      rw [nameIndexRename_of_some hn]
      exact sound_keep (by rw [hs]; rfl)

/-- The rename's save, when `container_to_disk` succeeds. -/
lemma sound_renameSave {newName oldName : String} :
    Sound m id (.renameSave newName oldName) (threadStep m id (.renameSave newName oldName) true) := by
  simp only [threadStep, if_true]
  refine ⟨?_, fun j hj => Function.update_of_ne hj _ _, fun _ h => by cases h⟩
  simp only [setName_index, setName_store, heldName, Thread.held, Function.update_self]
  exact .keep _ _

lemma sound_deleteStart : Sound m id .deleteStart (threadStep m id .deleteStart ok) := by
  cases hs : m.store id with
  | none =>
    simp only [threadStep, hs]
    exact sound_keep (by rw [hs]; rfl)
  | some name =>
    cases ok with
    | true =>
      simp only [threadStep, hs, if_true, containersStoreRemove_fst]
      refine ⟨?_, fun j hj => Function.update_of_ne hj _ _, ?_⟩
      · simp only [heldName, Thread.held, hs]
        exact .keep _ _
      · rintro t' ⟨⟩
        exact Function.update_self _ _ _
    | false =>
      simp only [threadStep, hs, Bool.false_eq_true, if_false]
      exact sound_keep (by rw [hs]; rfl)

lemma sound_deleteIndex {name : String} (hfit : m.store id = none) :
    Sound m id (.deleteIndex name) (threadStep m id (.deleteIndex name) ok) := by
  simp only [threadStep, nameIndexRemove_fst]
  refine ⟨?_, fun _ _ => rfl, fun _ h => by cases h⟩
  simp only [heldName, Thread.held, hfit]
  exact .unbind _ _

lemma sound_restoreLoad {name : String} (hfit : m.store id = none) :
    Sound m id (.restoreLoad name) (threadStep m id (.restoreLoad name) ok) := by
  cases hn : m.index name with
  | none =>
    simp only [threadStep, nameIndexAdd_of_none hn, containersStoreAdd_fst]
    refine ⟨?_, fun j hj => Function.update_of_ne hj _ _, fun _ h => by cases h⟩
    simp only [heldName, Thread.held, hfit, Function.update_self]
    exact .bind _ _ hn
  | some j =>
    simp only [threadStep, nameIndexAdd_of_some hn]
    exact sound_keep rfl

/-- Every critical section a fitting request takes is sound, given that the index holds the
name held for the container and that a rename's save succeeds. -/
theorem threadStep_sound {t : Thread} {ok : Bool} (hfit : t.Fits (m.store id))
    (hidx : ∀ n, t.held (m.store id) = some n → m.index n = some id)
    (hok : ∀ newName oldName, t = .renameSave newName oldName → ok = true) :
    Sound m id t (threadStep m id t ok) := by
  cases t with
  | createAdd name => exact sound_createAdd hfit
  | createRegister name => exact sound_createRegister hfit
  | renameStart newName => exact sound_renameStart hidx
  | renameSave newName oldName =>
    rw [hok newName oldName rfl]
    exact sound_renameSave
  | deleteStart => exact sound_deleteStart
  | deleteIndex name => exact sound_deleteIndex hfit
  | restoreLoad name => exact sound_restoreLoad hfit

end Sections

/-! ## The invariant over every admissible run -/

attribute [local simp] System.view in
lemma inv_init : Inv init :=
  ⟨fun _ _ => by simp [init, System.view], fun _ _ h => by cases h⟩

/-- A request that arrives holds what the store registers, and fits when its id is fresh. -/
lemma inv_request {s : System} {id : String} {r : Request} (hs : Inv s)
    (ht : s.threads id = none) (hnew : r.isNew = true → s.maps.store id = none) :
    Inv { s with threads := Function.update s.threads id (some r.start) } := by
  have hview : System.view { s with threads := Function.update s.threads id (some r.start) } =
      s.view := by
    funext j
    by_cases hj : j = id
    · subst hj
      cases r <;> simp [System.view, Request.start, ht]
    · simp [System.view, Function.update_of_ne hj]
  refine ⟨hview ▸ hs.inverse, fun j t hj => ?_⟩
  dsimp only at hj ⊢
  by_cases hji : j = id
  · subst hji
    rw [Function.update_self, Option.some.injEq] at hj
    subst hj
    cases r with
    | create name => exact hnew rfl
    | rename newName => trivial
    | delete => trivial
    | restore name => exact hnew rfl
  · rw [Function.update_of_ne hji] at hj
    exact hs.fits j t hj

/-- A sound section keeps the invariant. -/
lemma inv_section {s : System} {id : String} {t : Thread} {r : Maps × Option Thread} (hs : Inv s)
    (ht : s.threads id = some t) (hsound : Sound s.maps id t r) :
    Inv ⟨r.1, Function.update s.threads id r.2⟩ := by
  have hview : System.view ⟨r.1, Function.update s.threads id r.2⟩ =
      Function.update s.view id (heldName (r.1.store id) r.2) := by
    funext j
    by_cases hj : j = id
    · subst hj
      simp [System.view]
    · simp [System.view, Function.update_of_ne hj, hsound.frame j hj]
  have hheld : s.view id = t.held (s.maps.store id) := by simp [System.view, ht]
  refine ⟨hview ▸ hs.inverse.move (hheld ▸ hsound.move), fun j t' hj => ?_⟩
  dsimp only at hj ⊢
  by_cases hji : j = id
  · subst hji
    rw [Function.update_self] at hj
    exact hsound.fits t' hj
  · rw [Function.update_of_ne hji] at hj
    rw [hsound.frame j hji]
    exact hs.fits j t' hj

/-- The step lemma: an admissible event keeps the invariant. -/
theorem step_inv {s : System} {e : Event} (hs : Inv s) (he : Admissible s e) :
    Inv (step s e).1 := by
  cases e with
  | request id r =>
    cases ht : s.threads id with
    | some t =>
      simp only [step, ht]
      exact hs
    | none =>
      simp only [step, ht]
      exact inv_request hs ht he
  | step id ok =>
    cases ht : s.threads id with
    | none =>
      simp only [step, ht]
      exact hs
    | some t =>
      simp only [step, ht]
      -- the index holds the name held for the container, by the invariant itself
      have hidx : ∀ n, t.held (s.maps.store id) = some n → s.maps.index n = some id :=
        fun n hn => (hs.inverse n id).2 (by simp [System.view, ht, hn])
      have hok : ∀ newName oldName, t = .renameSave newName oldName → ok = true := by
        rintro newName oldName rfl
        exact he (by simp [ht, Thread.saves])
      exact inv_section hs ht (threadStep_sound (hs.fits id t ht) hidx hok)

/-- The run lemma: every state an admissible run reaches satisfies the invariant. -/
theorem inv_of_reachableUnder {s : System} (h : ReachableUnder Admissible step init s) : Inv s :=
  h.invariant inv_init fun _ _ hs he => step_inv hs he

/-- The name index and the store agree: the index gives each name the container registered
under it, and no two containers share a name. -/
def Consistent (s : System) : Prop :=
  (∀ n id, s.maps.index n = some id ↔ s.maps.store id = some n) ∧
    ∀ id₁ id₂ n, s.maps.store id₁ = some n → s.maps.store id₂ = some n → id₁ = id₂

/-- With no request in flight the names held are the registered names. -/
lemma Inv.consistent {s : System} (hs : Inv s) (hq : ∀ id, s.threads id = none) :
    Consistent s := by
  have hview : s.view = s.maps.store := funext fun id => by simp [System.view, hq id]
  have hinv := hs.inverse
  rw [hview] at hinv
  exact ⟨hinv, fun _ _ _ h₁ h₂ => hinv.symm.injective h₁ h₂⟩

/-- Whenever no request is in flight after an admissible run (fresh ids, successful saves, in
any interleaving of requests on different containers), the name index and the containers'
names agree. -/
theorem consistent_of_quiescent {s : System} (h : ReachableUnder Admissible step init s)
    (hq : ∀ id, s.threads id = none) : Consistent s :=
  (inv_of_reachableUnder h).consistent hq

/-- Runs that do not touch a container leave its request where it stands. -/
lemma run_threads_of_forall_ne (s : System) {events : List Event} {id : String}
    (h : ∀ e ∈ events, e.id ≠ id) : (run step s events).1.threads id = s.threads id := by
  induction events generalizing s with
  | nil => rfl
  | cons e events ih =>
    rw [run_cons, ih _ fun e' he' => h e' (List.mem_cons_of_mem e he'),
      step_threads_of_ne s (h e List.mem_cons_self)]

/-! ## A failed save after the old name is taken -/

/-- `a` is renamed from `x` to `y`; before its save, `b` is created as `x`; then the save of
`a` fails. -/
def renameRace : System :=
  (run step init [.request "a" (.create "x"), .step "a" true, .step "a" true,
    .request "a" (.rename "y"), .step "a" true,
    .request "b" (.create "x"), .step "b" true, .step "b" true,
    .step "a" false]).1

/-- `restore_names_at_fail` names `a` `x` again, but cannot give it the index entry `x`, which
`b` holds. With no request left in flight, the index gives `y` to `a` and both containers are
named `x`. -/
theorem containerRename_restore_keeps_taken_name :
    (∀ id, renameRace.threads id = none) ∧ renameRace.maps.index "y" = some "a" ∧
      renameRace.maps.index "x" = some "b" ∧ renameRace.maps.store "a" = some "x" ∧
      renameRace.maps.store "b" = some "x" ∧ ¬ Consistent renameRace := by
  have hq : ∀ id, renameRace.threads id = none := by
    intro id
    by_cases ha : id = "a"
    · subst ha
      decide
    by_cases hb : id = "b"
    · subst hb
      decide
    rw [renameRace, run_threads_of_forall_ne _ (by simp [Event.id, Ne.symm ha, Ne.symm hb])]
    rfl
  have hsa : renameRace.maps.store "a" = some "x" := by decide
  have hsb : renameRace.maps.store "b" = some "x" := by decide
  refine ⟨hq, by decide, by decide, hsa, hsb, fun hc => ?_⟩
  -- two containers share the name `x`
  exact absurd (hc.2 "a" "b" "x" hsa hsb) (by decide)

end ContainersStore

end Isulad
