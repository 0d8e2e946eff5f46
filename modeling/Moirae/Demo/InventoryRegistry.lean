import Moirae.Demo.InventoryNaming
import Moirae.Runs.Registry

/-! The names of inventories as a register: the reservations in the cache are
what is held, the table of projections is its index, and every step of the
handlers is a step of the register or none. -/
namespace Moirae.Inventory

open Demo

namespace World

variable {db : Repository}

/-- The name that an execution holds, and what it knows about it. -/
def candidate (c : Creation) : Option (String × Registry.Stage) :=
  match c.stage with
  | .reserved => some (c.input.name, .unknown)
  | .checked true => some (c.input.name, .present)
  | .checked false => some (c.input.name, .absent)
  | _ => none

/-- The names as a register of entries, whose index is the table of
projections. -/
def registry (sha1 : Option String → String) (s : World db) : Registry.State Nat String where
  held := {name | s.cache.Contains "InventoryAggregate__name" (sha1 (some name))}
  index := {name | ∃ id, db.nameOf s.table id = some name}
  entries := s.created
  candidate i := s.creations[i]?.bind candidate
  settled := {name | ∃ e ∈ s.handlings,
    e.created = true ∧ e.stage = .ended ∧ e.aggregate.state.name = some name}
  abandoned := {name | ∃ c ∈ s.creations, c.stage = .failed ∧ c.input.name = name}

section

variable {sha1 : Option String → String} {named : String → String} {s t : World db}

/-- One creation goes on, and its candidate with it. -/
theorem candidate_set {creations : List Creation} {i : Nat} {c : Creation}
    (hc : creations[i]? = some c) (c' : Creation) :
    (fun j => (creations.set i c')[j]?.bind candidate) =
      Function.update (fun j => creations[j]?.bind candidate) i (candidate c') := by
  obtain ⟨hi, _⟩ := List.getElem?_eq_some_iff.mp hc
  funext j
  rw [Function.update_apply, List.getElem?_set]
  by_cases hj : i = j
  · subst hj
    simp [hi]
  · simp [hj, Ne.symm hj]

/-- A name more is reserved. -/
theorem held_reserve (hSha1 : Function.Injective sha1) (cache : MemoryCache) (name : String) :
    {other | (ValueReservation.reserveValue sha1 cache (nameReservation (some name))).1.Contains
        "InventoryAggregate__name" (sha1 (some other))} =
      insert name {other | cache.Contains "InventoryAggregate__name" (sha1 (some other))} := by
  ext other
  change (cache.addToSet "InventoryAggregate__name" (sha1 (some name))).1.Contains _ _ ↔ _
  rw [MemoryCache.contains_addToSet, hSha1.eq_iff]
  simp [or_comm]

/-- A name less is reserved. -/
theorem held_release (hSha1 : Function.Injective sha1) (cache : MemoryCache)
    (name : Option String) :
    {other | (ValueReservation.releaseValue sha1 cache (nameReservation name)).1.Contains
        "InventoryAggregate__name" (sha1 (some other))} =
      {other | cache.Contains "InventoryAggregate__name" (sha1 (some other))} \
        {other | name = some other} := by
  ext other
  change (cache.removeFromSet "InventoryAggregate__name" (sha1 name)).1.Contains _ _ ↔ _
  rw [MemoryCache.contains_removeFromSet, hSha1.eq_iff]
  simp [eq_comm]

/-- A creation goes on without failing: it holds another name, or knows more. -/
theorem registry_setCreation (sha1 : Option String → String) {i : Nat} {c : Creation}
    (hc : s.creations[i]? = some c) (hOld : c.stage ≠ .failed) (cache : MemoryCache)
    {stage : CreationStage} (hStage : stage ≠ .failed) :
    ({ s with cache, creations := s.creations.set i { c with stage } } : World db).registry sha1 =
      { s.registry sha1 with
        held := {name | cache.Contains "InventoryAggregate__name" (sha1 (some name))}
        candidate := Function.update (s.registry sha1).candidate i
          (candidate { c with stage }) } := by
  apply Registry.State.ext
  · rfl
  · rfl
  · rfl
  · exact candidate_set hc _
  · rfl
  · ext name
    change (∃ other ∈ s.creations.set i _, _) ↔ _
    rw [exists_mem_set_of_not hc fun h => hOld h.1]
    simp [hStage, registry]

/-- A creation whose query fails keeps its name, and nothing will release it. -/
theorem registry_failQuery {i : Nat} {c : Creation} (hc : s.creations[i]? = some c)
    (hOld : c.stage ≠ .failed) :
    ({ s with creations := s.creations.set i { c with stage := .failed } } :
      World db).registry sha1 =
      { s.registry sha1 with
        candidate := Function.update (s.registry sha1).candidate i none
        abandoned := insert c.input.name (s.registry sha1).abandoned } := by
  apply Registry.State.ext
  · rfl
  · rfl
  · rfl
  · exact candidate_set hc _
  · rfl
  · ext name
    change (∃ other ∈ s.creations.set i _, _) ↔ _
    rw [exists_mem_set_of_not hc fun h => hOld h.1]
    rw [Set.mem_insert_iff, eq_comm (a := name)]
    simp [registry]

/-- An aggregate without a failure behind it saved its projection. -/
theorem registry_save (h : s.Consistent named) {k : Nat} {e : Handling}
    (he : s.handlings[k]? = some e) (hMerged : e.stage = .merged) {table : db.Table}
    (hSave : db.save s.table (toProjection e.aggregate) = some table) :
    let t : World db := { s with
      table
      handlings := s.handlings.set k { e with stage := if e.created then .saved else .ended } }
    t.registry sha1 = s.registry sha1 ∨ Registry.Step (s.registry sha1) (t.registry sha1) := by
  have hMem := List.mem_of_getElem? he
  have hNames := h.nameOf_save hMem hSave
  intro t
  have hSettled : (t.registry sha1).settled = (s.registry sha1).settled := by
    ext name
    change (∃ other ∈ s.handlings.set k _, _) ↔ _
    rw [exists_mem_set_of_not he fun hEnded => by rw [hMerged] at hEnded; cases hEnded.2.1]
    cases hCreated : e.created with
    | true => simp [registry]
    | false => simp [registry]
  cases hName : e.aggregate.state.name with
  | none =>
      left
      have hSame : ∀ id, db.nameOf table id = db.nameOf s.table id := by
        intro id
        rw [hNames, hName, if_neg (by simp)]
      apply Registry.State.ext
      · rfl
      · ext name
        change (∃ id, db.nameOf table id = some name) ↔ _
        simp [hSame, registry]
      · rfl
      · rfl
      · exact hSettled
      · rfl
  | some name =>
      obtain ⟨hOwn, hIn⟩ := (h.loaded_of_handling hMem).name name hName
      have hEntry : name ∈ (s.registry sha1).entries :=
        (mem_created_iff h).mpr ⟨_, hIn, hOwn.symm⟩
      have hEq : t.registry sha1 =
          { s.registry sha1 with index := insert name (s.registry sha1).index } := by
        apply Registry.State.ext
        · rfl
        · ext other
          change (∃ id, db.nameOf table id = some other) ↔ _
          constructor
          · intro hSome
            obtain ⟨id, hId⟩ := hSome
            rw [hNames] at hId
            split at hId
            · next hHere =>
                rw [hHere.1, ← hOwn] at hId
                exact Or.inl (Option.some.inj hId).symm
            · exact Or.inr ⟨id, hId⟩
          · intro hOther
            rcases hOther with rfl | ⟨id, hId⟩
            · refine ⟨e.aggregate.streamId, ?_⟩
              rw [hNames, if_pos ⟨rfl, by rw [hName]; rfl⟩, ← hOwn]
            · refine ⟨id, ?_⟩
              rw [hNames]
              split
              · rw [(h.rows id other hId).1]
              · exact hId
        · rfl
        · rfl
        · exact hSettled
        · rfl
      right
      rw [hEq]
      exact .show name hEntry

/-- The handler of the created event releases the name of its aggregate. -/
theorem registry_release (hSha1 : Function.Injective sha1) (h : s.Consistent named) {k : Nat}
    {e : Handling} (he : s.handlings[k]? = some e) (hSaved : e.stage = .saved) :
    Registry.Step (s.registry sha1) (({ s with
      cache := (ValueReservation.releaseValue sha1 s.cache
        (nameReservation e.aggregate.state.name)).1
      handlings := s.handlings.set k { e with stage := .ended } } : World db).registry sha1) := by
  have hHandles := h.handlings e (List.mem_of_getElem? he)
  obtain ⟨hCreated, hRow⟩ := hHandles.saved hSaved
  have hName := hHandles.name hCreated
  have hIndex : named e.aggregate.streamId ∈ (s.registry sha1).index := ⟨_, hRow⟩
  have hEq : ({ s with
      cache := (ValueReservation.releaseValue sha1 s.cache
        (nameReservation e.aggregate.state.name)).1
      handlings := s.handlings.set k { e with stage := .ended } } : World db).registry sha1 =
      { s.registry sha1 with
        held := (s.registry sha1).held \ {named e.aggregate.streamId}
        settled := insert (named e.aggregate.streamId) (s.registry sha1).settled } := by
    apply Registry.State.ext
    · change {other | (ValueReservation.releaseValue sha1 s.cache
        (nameReservation e.aggregate.state.name)).1.Contains "InventoryAggregate__name"
          (sha1 (some other))} = _
      rw [held_release hSha1, hName]
      ext other
      simp only [Set.mem_sdiff, Set.mem_ofPred_eq, Option.some.injEq, Set.mem_singleton_iff,
        eq_comm (a := other)]
      rfl
    · rfl
    · rfl
    · rfl
    · ext other
      change (∃ e' ∈ s.handlings.set k _, _) ↔ _
      rw [exists_mem_set_of_not he fun hEnded => by rw [hSaved] at hEnded; cases hEnded.2.1]
      rw [Set.mem_insert_iff, eq_comm (a := other)]
      simp [registry, hCreated, hName]
    · rfl
  rw [hEq]
  exact .settle _ hIndex

/-- An event in the store adds the name that it creates. -/
theorem registry_push (event : IEvent EventData) :
    ({ s with store := s.store.push event } : World db).registry sha1 =
      { s.registry sha1 with entries := s.created ++ [event].filterMap createdName } := by
  apply Registry.State.ext
  · rfl
  · rfl
  · exact List.filterMap_append
  · rfl
  · rfl
  · rfl

/-- An event that creates nothing adds no name. -/
theorem registry_push_of_ne {event : IEvent EventData} (h : event.name ≠ "InventoryCreatedEvent") :
    ({ s with store := s.store.push event } : World db).registry sha1 = s.registry sha1 := by
  have hNone : createdName event = none := by
    rw [createdName, if_neg h]
  rw [registry_push, List.filterMap_cons, hNone]
  exact congrArg (fun entries => { s.registry sha1 with entries }) (List.append_nil _)

/-- Executions that begin hold nothing yet. -/
theorem registry_addCreation (c : Creation) (h : c.stage = .merged) :
    ({ s with creations := s.creations ++ [c] } : World db).registry sha1 =
      s.registry sha1 := by
  apply Registry.State.ext
  · rfl
  · rfl
  · rfl
  · funext j
    change (s.creations ++ [c])[j]?.bind candidate = s.creations[j]?.bind candidate
    rw [List.getElem?_append]
    split
    · rfl
    · next hBeyond =>
        rw [List.getElem?_eq_none (Nat.le_of_not_lt hBeyond), Option.bind_none,
          Option.bind_eq_none_iff]
        intro c' hc'
        rw [List.mem_singleton.mp (List.mem_of_getElem? hc'), candidate, h]
  · rfl
  · ext name
    change (∃ c' ∈ s.creations ++ [c], _) ↔ _
    simp [registry, h]

/-- A handler that has only loaded its aggregate is not seen by the registry. -/
theorem registry_addHandling (e : Handling) (h : e.stage = .merged) :
    ({ s with handlings := s.handlings ++ [e] } : World db).registry sha1 =
      s.registry sha1 := by
  apply Registry.State.ext
  · rfl
  · rfl
  · rfl
  · rfl
  · ext name
    change (∃ e' ∈ s.handlings ++ [e], _) ↔ _
    simp [registry, h]
  · rfl

/-- Neither is one that was refused. -/
theorem registry_failSave {k : Nat} {e : Handling} (he : s.handlings[k]? = some e)
    (h : e.stage = .merged) :
    ({ s with handlings := s.handlings.set k { e with stage := .failed } } :
      World db).registry sha1 = s.registry sha1 := by
  apply Registry.State.ext
  · rfl
  · rfl
  · rfl
  · rfl
  · ext name
    change (∃ e' ∈ s.handlings.set k _, _) ↔ _
    rw [exists_mem_set_of_not he fun hEnded => by rw [h] at hEnded; cases hEnded.2.1]
    simp [registry]
  · rfl

/-- What one step does to the register. -/
def Refines (sha1 : Option String → String) (named : String → String) (s t : World db) : Prop :=
  t.Consistent named ∧
    (t.registry sha1 = s.registry sha1 ∨
      Registry.Step (s.registry sha1) (t.registry sha1))

/-- A step that the registry does not see. -/
theorem refines_refl (h : s.Consistent named) : Refines sha1 named s s := ⟨h, Or.inl rfl⟩

/-- The candidate of a creation that exists. -/
theorem candidate_eq {i : Nat} {c : Creation} (hc : s.creations[i]? = some c) :
    (s.registry sha1).candidate i = candidate c := by
  change s.creations[i]?.bind candidate = _
  rw [hc, Option.bind_some]

/-- The name is reserved, unless it already was. -/
theorem refines_reserve (hSha1 : Function.Injective sha1) (h : s.Consistent named) {i : Nat}
    {c : Creation} (hc : s.creations[i]? = some c) (hStage : c.stage = .merged)
    {cache : MemoryCache} {succeeded : Bool}
    (hReserve : ValueReservation.reserveValue sha1 s.cache (nameReservation (some c.input.name)) =
      (cache, succeeded)) (error : Thrown) :
    Refines sha1 named s { s with
      cache
      creations := s.creations.set i
        { c with stage := if succeeded then .reserved else .ended (.error error) } } := by
  refine ⟨h.setCreation hc _ _, ?_⟩
  have hCandidate : (s.registry sha1).candidate i = candidate c := candidate_eq hc
  rw [candidate, hStage] at hCandidate
  have hHeld := held_reserve hSha1 s.cache c.input.name
  have hResult := s.cache.addToSet_succeeds_iff "InventoryAggregate__name"
    (sha1 (some c.input.name))
  change (ValueReservation.reserveValue sha1 s.cache
    (nameReservation (some c.input.name))).2 = true ↔ _ at hResult
  rw [hReserve] at hHeld hResult
  rw [registry_setCreation sha1 hc (by rw [hStage]; simp) _ (by split <;> simp), hHeld]
  cases succeeded with
  | true => exact Or.inr (.hold i c.input.name hCandidate (hResult.mp rfl))
  | false =>
      have hKnown : c.input.name ∈ (s.registry sha1).held := by
        by_contra hFree
        cases hResult.mpr hFree
      left
      apply Registry.State.ext
      · exact Set.insert_eq_of_mem hKnown
      · rfl
      · rfl
      · exact Function.update_eq_self_iff.mpr hCandidate.symm
      · rfl
      · rfl

/-- The table of projections is asked for the name. -/
theorem refines_query (h : s.Consistent named) {i : Nat} {c : Creation}
    (hc : s.creations[i]? = some c) (hStage : c.stage = .reserved) :
    Refines sha1 named s { s with
      creations := s.creations.set i
        { c with stage := .checked (nameExists db s.table c.input.name) } } := by
  refine ⟨h.setCreation hc s.cache _, Or.inr ?_⟩
  have hCandidate : (s.registry sha1).candidate i = candidate c := candidate_eq hc
  rw [candidate, hStage] at hCandidate
  rw [registry_setCreation sha1 hc (by rw [hStage]; simp) s.cache (by simp)]
  cases hExists : nameExists db s.table c.input.name with
  | true => exact .findPresent i c.input.name hCandidate (nameExists_iff.mp hExists)
  | false =>
      refine .findAbsent i c.input.name hCandidate fun hIndex => ?_
      rw [nameExists_iff.mpr hIndex] at hExists
      cases hExists

/-- The name is taken, and the reservation is given back. -/
theorem refines_giveBack (hSha1 : Function.Injective sha1) (h : s.Consistent named) {i : Nat}
    {c : Creation} (hc : s.creations[i]? = some c) (hStage : c.stage = .checked true)
    (error : Thrown) :
    Refines sha1 named s { s with
      cache := (ValueReservation.releaseValue sha1 s.cache
        (nameReservation (some c.input.name))).1
      creations := s.creations.set i { c with stage := .ended (.error error) } } := by
  refine ⟨h.setCreation hc _ _, Or.inr ?_⟩
  have hCandidate : (s.registry sha1).candidate i = candidate c := candidate_eq hc
  rw [candidate, hStage] at hCandidate
  have hSingle : {other | some c.input.name = some other} = ({c.input.name} : Set String) := by
    ext other
    simp [eq_comm]
  rw [registry_setCreation sha1 hc (by rw [hStage]; simp) _ (by simp), held_release hSha1, hSingle]
  exact .letGo i c.input.name hCandidate

/-- The created event is committed. -/
theorem refines_commit (h : s.Consistent named) {i : Nat} {c : Creation}
    (hc : s.creations[i]? = some c) (hStage : c.stage = .checked false)
    {event : IEvent EventData} (hEvent : EventNamed named event)
    (hName : createdName event = some c.input.name) :
    Refines sha1 named s { s with
      store := s.store.push event
      creations := s.creations.set i { c with stage := .ended (.ok ()) } } := by
  have hc' : ({ s with store := s.store.push event } : World db).creations[i]? = some c := hc
  refine ⟨(h.push hEvent).setCreation hc' s.cache _, Or.inr ?_⟩
  have hCandidate : (s.registry sha1).candidate i = candidate c := candidate_eq hc
  rw [candidate, hStage] at hCandidate
  have hOpen : c.stage ≠ .failed := by
    rw [hStage]
    simp
  have hEnded : CreationStage.ended (.ok ()) ≠ .failed := by simp
  have hEq := registry_setCreation sha1 hc' hOpen s.cache hEnded
  rw [registry_push] at hEq
  refine hEq ▸ ?_
  simp only [List.filterMap_cons, hName, List.filterMap_nil]
  exact .enter i c.input.name hCandidate

/-- An execution of `CreateInventoryHandler` goes on to its next await. -/
theorem refines_resumeCreate (hSha1 : Function.Injective sha1) (h : s.Consistent named) {i : Nat}
    {c : Creation} (hc : s.creations[i]? = some c) (hStep : s.resumeCreate sha1 i c = some t) :
    Refines sha1 named s t := by
  unfold resumeCreate at hStep
  split at hStep
  · next hStage =>
      obtain rfl := Option.some.inj hStep
      exact refines_reserve hSha1 h hc hStage rfl _
  · next hStage =>
      obtain rfl := Option.some.inj hStep
      exact refines_query h hc hStage
  · next hStage =>
      obtain rfl := Option.some.inj hStep
      exact refines_giveBack hSha1 h hc hStage _
  · next hStage =>
      obtain ⟨event, hCommit, hEvent, hName, _⟩ := h.applyAndCommit (List.mem_of_getElem? hc)
      rw [hCommit] at hStep
      obtain rfl := Option.some.inj hStep
      exact refines_commit h hc hStage hEvent hName
  · cases hStep

/-- A handler saves a name, or releases one, or nothing is seen of it. -/
theorem refines_resumeHandle (hSha1 : Function.Injective sha1) (h : s.Consistent named) {k : Nat}
    {e : Handling} (he : s.handlings[k]? = some e) (hStep : s.resumeHandle sha1 k e = some t) :
    Refines sha1 named s t := by
  unfold resumeHandle at hStep
  split at hStep
  · next hStage =>
      obtain ⟨table, hSave, rfl⟩ := Option.map_eq_some_iff.mp hStep
      exact ⟨h.save he hSave, registry_save h he hStage hSave⟩
  · next hStage =>
      obtain rfl := Option.some.inj hStep
      exact ⟨h.setHandling he _ (by simp), Or.inr (registry_release hSha1 h he hStage)⟩
  · cases hStep

/-- The call of a handler is not seen by the registry. -/
theorem refines_handle (h : s.Consistent named) {event : IEvent EventData}
    (hEvent : event ∈ s.store.sent) {created : Bool}
    (hKind : created = true → event.name = "InventoryCreatedEvent")
    (hStep : s.handle created event = some t) : Refines sha1 named s t := by
  unfold handle at hStep
  split at hStep
  · obtain rfl := Option.some.inj hStep
    exact refines_refl h
  · next hMerge =>
      obtain rfl := Option.some.inj hStep
      exact ⟨h.addHandling hEvent hKind hMerge, Or.inl (registry_addHandling _ rfl)⟩

/-- Whatever the executions do, the register makes one of its steps or none. -/
theorem step_refines (hSha1 : Function.Injective sha1) (h : s.Consistent named) {a : Action}
    (hAsks : a.Asks named) (hStep : step sha1 s a = some t) : Refines sha1 named s t := by
  cases a with
  | create streamId input command uuid now =>
      simp only [step] at hStep
      split at hStep
      · obtain rfl := Option.some.inj hStep
        exact refines_refl h
      · next hMerge =>
          obtain rfl := Option.some.inj hStep
          exact ⟨h.addCreation hMerge hAsks command uuid now,
            Or.inl (registry_addCreation _ rfl)⟩
  | resumeCreate i =>
      obtain ⟨c, hc, hStep⟩ := Option.bind_eq_some_iff.mp hStep
      exact refines_resumeCreate hSha1 h hc hStep
  | failQuery i =>
      obtain ⟨c, hc, hStep⟩ := Option.bind_eq_some_iff.mp hStep
      split at hStep
      · next hStage =>
          obtain rfl := Option.some.inj hStep
          refine ⟨h.setCreation hc s.cache .failed, Or.inr ?_⟩
          rw [registry_failQuery hc (by rw [hStage]; simp)]
          refine .giveUp i c.input.name ⟨.unknown, ?_⟩
          rw [candidate_eq hc, candidate, hStage]
      · cases hStep
  | catchError i uuid now =>
      obtain ⟨c, hc, hStep⟩ := Option.bind_eq_some_iff.mp hStep
      split at hStep
      · obtain rfl := Option.some.inj hStep
        refine ⟨h.push (eventNamed_of_failed rfl), Or.inl (registry_push_of_ne ?_)⟩
        show "InventoryCreatedFailedEvent" ≠ "InventoryCreatedEvent"
        decide
      · cases hStep
  | remove input command =>
      simp only [step] at hStep
      split at hStep
      · obtain rfl := Option.some.inj hStep
        exact refines_refl h
      · next hMerge =>
          obtain rfl := Option.some.inj hStep
          exact ⟨h.addRemoval hMerge command, Or.inl rfl⟩
  | resumeRemove j uuid now =>
      obtain ⟨r, hr, hStep⟩ := Option.bind_eq_some_iff.mp hStep
      have hLoaded : Loaded named s.store.sent r.aggregate := by
        refine h.aggregates r.aggregate (List.mem_append_left _ (List.mem_append_right _ ?_))
        exact List.mem_map_of_mem (List.mem_of_getElem? hr)
      split at hStep
      · cases hStep
      · dsimp only at hStep
        split at hStep
        · obtain rfl := Option.some.inj hStep
          exact ⟨h.setRemoval hr _, Or.inl rfl⟩
        · next hStore =>
            obtain ⟨event, rfl, hRemoved⟩ := removed_of_ok hLoaded hStore
            obtain rfl := Option.some.inj hStep
            have hr' : ({ s with store := s.store.push event } : World db).removals[j]? = some r :=
              hr
            refine ⟨(h.push (eventNamed_of_removed hRemoved)).setRemoval hr' _, Or.inl ?_⟩
            exact registry_push_of_ne (by rw [hRemoved]; decide)
  | handle place =>
      obtain ⟨event, hPlace, hStep⟩ := Option.bind_eq_some_iff.mp hStep
      have hEvent := List.mem_of_getElem? hPlace
      split at hStep
      · next hKind => exact refines_handle h hEvent (fun _ => hKind) hStep
      · exact refines_handle h hEvent (fun hCreated => by cases hCreated) hStep
      · cases hStep
  | resumeHandle k =>
      obtain ⟨e, he, hStep⟩ := Option.bind_eq_some_iff.mp hStep
      exact refines_resumeHandle hSha1 h he hStep
  | failSave k =>
      obtain ⟨e, he, hStep⟩ := Option.bind_eq_some_iff.mp hStep
      split at hStep
      · next hStage =>
          obtain rfl := Option.some.inj hStep
          exact ⟨h.setHandling he s.cache (by simp), Or.inl (registry_failSave he hStage)⟩
      · cases hStep

end

end World

end Moirae.Inventory
