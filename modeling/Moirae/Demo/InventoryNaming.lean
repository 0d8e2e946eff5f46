import Moirae.Core.EventSource
import Moirae.Demo.InventoryRuns

/-! Names of inventories: each stream is meant for one name, and whatever has a
name, be it an event, an aggregate or a row, has the one of its stream. -/
namespace Moirae.Inventory

open Demo

/-- Every command to create the inventory of a stream asks for one name, so a
command that is executed again asks for the same. -/
def Action.Asks (named : String → String) : Action → Prop
  | .create streamId input _ _ _ => input.name = named streamId
  | _ => True

/-- The name that a created event gives. -/
def createdName (event : IEvent EventData) : Option String :=
  if event.name = "InventoryCreatedEvent" then event.data.name else none

/-- The events of the inventory domain, where a created event has the name that
its stream is meant for. -/
def EventNamed (named : String → String) (event : IEvent EventData) : Prop :=
  Known event ∧
    (event.name = "InventoryCreatedEvent" → event.data.name = some (named event.streamId))

/-- A removal says nothing about the name. -/
theorem eventNamed_of_removed {named : String → String} {event : IEvent EventData}
    (h : event.name = "InventoryRemovedEvent") : EventNamed named event :=
  ⟨Or.inr (Or.inl h), fun hCreated => by
    rw [h] at hCreated
    exact absurd hCreated (by decide)⟩

/-- Nor does a failed creation. -/
theorem eventNamed_of_failed {named : String → String} {event : IEvent EventData}
    (h : event.name = "InventoryCreatedFailedEvent") : EventNamed named event :=
  ⟨Or.inr (Or.inr h), fun hCreated => by
    rw [h] at hCreated
    exact absurd hCreated (by decide)⟩

/-- A creation has the name of its stream. -/
theorem EventNamed.createdName {named : String → String} {event : IEvent EventData}
    (h : EventNamed named event) (hCreated : event.name = "InventoryCreatedEvent") :
    createdName event = some (named event.streamId) := by
  rw [Inventory.createdName, if_pos hCreated]
  exact h.2 hCreated

/-- Only a creation gives a name, the one of its stream. -/
theorem EventNamed.of_createdName {named : String → String} {event : IEvent EventData}
    {name : String} (h : EventNamed named event) (hName : Inventory.createdName event = some name) :
    event.name = "InventoryCreatedEvent" ∧ name = named event.streamId := by
  by_cases hCreated : event.name = "InventoryCreatedEvent"
  · rw [h.createdName hCreated] at hName
    exact ⟨hCreated, (Option.some.inj hName).symm⟩
  · rw [Inventory.createdName, if_neg hCreated] at hName
    cases hName

/-- The inventory of the stream was created. -/
def CreatedIn (sent : List (IEvent EventData)) (streamId : String) : Prop :=
  ∃ event ∈ sent, event.name = "InventoryCreatedEvent" ∧ event.streamId = streamId

instance (sent : List (IEvent EventData)) (streamId : String) :
    Decidable (CreatedIn sent streamId) :=
  inferInstanceAs (Decidable (∃ event ∈ sent, _))

/-- A stream stays created. -/
theorem CreatedIn.append {sent : List (IEvent EventData)} {streamId : String}
    (h : CreatedIn sent streamId) (more : List (IEvent EventData)) :
    CreatedIn (sent ++ more) streamId := by
  obtain ⟨old, hOld, hKind⟩ := h
  exact ⟨old, List.mem_append_left _ hOld, hKind⟩

/-- An aggregate as the factory left it: all of its events are committed, and
if it has a name, that is the one of its stream. -/
structure Loaded (named : String → String) (sent : List (IEvent EventData))
    (aggregate : InventoryAggregate) : Prop where
  commitFn : aggregate.commitFn = true
  start : aggregate.uncommittedStart = aggregate.eventHistory.length
  name : ∀ name, aggregate.state.name = some name →
    name = named aggregate.streamId ∧ CreatedIn sent aggregate.streamId

/-- What was loaded stays loaded from an earlier state of the stream. -/
theorem Loaded.append {named : String → String} {sent : List (IEvent EventData)}
    {aggregate : InventoryAggregate} (h : Loaded named sent aggregate)
    (more : List (IEvent EventData)) : Loaded named (sent ++ more) aggregate :=
  { h with name := fun name hName => ⟨(h.name name hName).1, (h.name name hName).2.append more⟩ }

structure Creating (named : String → String) (c : Creation) : Prop where
  kind : c.event.name = "InventoryCreatedEvent"
  data : c.event.data.name = some c.input.name
  streamId : c.event.streamId = c.aggregate.streamId
  asks : c.input.name = named c.event.streamId

structure Handles (named : String → String) (rows : String → Option String) (h : Handling) :
    Prop where
  name : h.created = true → h.aggregate.state.name = some (named h.aggregate.streamId)
  saved : h.stage = .saved → h.created = true ∧
    rows h.aggregate.streamId = some (named h.aggregate.streamId)

namespace World

variable {db : Repository}

/-- The names of all created events, in the order they were committed in. -/
def created (s : World db) : List String := s.store.sent.filterMap createdName

/-- The aggregates of all executions. -/
def aggregates (s : World db) : List InventoryAggregate :=
  s.creations.map (·.aggregate) ++ s.removals.map (·.aggregate) ++
    s.handlings.map (·.aggregate)

/-- Everything that has a name has the one that its stream is meant for. -/
structure Consistent (named : String → String) (s : World db) : Prop where
  filed : ∀ streamId,
    s.store.readFromStream streamId = s.store.sent.filter (·.streamId = streamId)
  events : ∀ event ∈ s.store.sent, EventNamed named event
  aggregates : ∀ aggregate ∈ s.aggregates, Loaded named s.store.sent aggregate
  creations : ∀ c ∈ s.creations, Creating named c
  handlings : ∀ h ∈ s.handlings, Handles named (db.nameOf s.table) h
  rows : ∀ id name, db.nameOf s.table id = some name →
    name = named id ∧ CreatedIn s.store.sent id

/-- Before anything happens all of it holds. -/
theorem consistent_new (named : String → String) : (new : World db).Consistent named where
  filed _ := rfl
  events _ hEvent := absurd hEvent List.not_mem_nil
  aggregates _ hAggregate := absurd hAggregate List.not_mem_nil
  creations _ hCreation := absurd hCreation List.not_mem_nil
  handlings _ hHandling := absurd hHandling List.not_mem_nil
  rows id name hName := by
    rw [new, db.nameOf_empty] at hName
    cases hName

section

variable {named : String → String} {s t : World db}

/-- An aggregate from the store has the name of its stream, once that was
created. -/
theorem Consistent.loaded (h : s.Consistent named) (streamId : String) :
    ∃ aggregate, AggregateFactory.mergeContext inventoryAggregate s.store streamId =
        .ok aggregate ∧
      aggregate.streamId = streamId ∧ Loaded named s.store.sent aggregate ∧
      (CreatedIn s.store.sent streamId → aggregate.state.name = some (named streamId)) := by
  have hEvents : ∀ event ∈ s.store.readFromStream streamId,
      EventNamed named event ∧ event ∈ s.store.sent ∧ event.streamId = streamId := by
    intro event hEvent
    rw [h.filed, List.mem_filter, decide_eq_true_iff] at hEvent
    exact ⟨h.events event hEvent.1, hEvent⟩
  obtain ⟨aggregate, hMerge, hName⟩ :=
    mergeContext_of_known fun event hEvent => (hEvents event hEvent).1.1
  obtain ⟨hStream, hCommit, hStart⟩ := AggregateFactory.mergeContext_spec hMerge
  rw [foldl_renamed (named streamId) none] at hName
  · have hCreated : (∃ event ∈ s.store.readFromStream streamId,
        event.name = "InventoryCreatedEvent") ↔ CreatedIn s.store.sent streamId := by
      constructor
      · intro hSome
        obtain ⟨event, hEvent, hKind⟩ := hSome
        exact ⟨event, (hEvents event hEvent).2.1, hKind, (hEvents event hEvent).2.2⟩
      · intro hSome
        obtain ⟨event, hEvent, hKind, hOwn⟩ := hSome
        refine ⟨event, ?_, hKind⟩
        rw [h.filed, List.mem_filter, decide_eq_true_iff]
        exact ⟨hEvent, hOwn⟩
    rw [if_congr hCreated rfl rfl] at hName
    refine ⟨aggregate, hMerge, hStream, ⟨hCommit, hStart, fun name hSome => ?_⟩, fun hIn => ?_⟩
    · rw [hName] at hSome
      obtain ⟨hIn, hEq⟩ := Option.ite_none_right_eq_some.mp hSome
      rw [hStream]
      exact ⟨(Option.some.inj hEq).symm, hIn⟩
    · rw [hName, if_pos hIn]
  · intro event hEvent hKind
    obtain ⟨hNamed, _, hOwn⟩ := hEvents event hEvent
    rw [hNamed.2 hKind, hOwn]

/-- The names that were created are those of the streams that were. -/
theorem mem_created_iff (h : s.Consistent named) {name : String} :
    name ∈ s.created ↔ ∃ streamId, CreatedIn s.store.sent streamId ∧ named streamId = name := by
  rw [created, List.mem_filterMap]
  constructor
  · intro hSome
    obtain ⟨event, hEvent, hName⟩ := hSome
    obtain ⟨hKind, rfl⟩ := (h.events event hEvent).of_createdName hName
    exact ⟨event.streamId, ⟨event, hEvent, hKind, rfl⟩, rfl⟩
  · intro hSome
    obtain ⟨_, ⟨event, hEvent, hKind, rfl⟩, rfl⟩ := hSome
    exact ⟨event, hEvent, (h.events event hEvent).createdName hKind⟩

/-- An event of the domain is committed. -/
theorem Consistent.push (h : s.Consistent named) {event : IEvent EventData}
    (hEvent : EventNamed named event) :
    ({ s with store := s.store.push event } : World db).Consistent named where
  filed streamId := by
    rw [MemoryStore.readFromStream_push, h.filed]
    exact (List.filter_append ..).symm
  events other hOther := by
    rcases List.mem_append.mp hOther with hOld | hNew
    · exact h.events other hOld
    · rw [List.mem_singleton.mp hNew]
      exact hEvent
  aggregates aggregate hAggregate := (h.aggregates aggregate hAggregate).append _
  creations := h.creations
  handlings := h.handlings
  rows id name hName := ⟨(h.rows id name hName).1, (h.rows id name hName).2.append _⟩

/-- Nothing but the stage of one creation changed, and the cache. -/
theorem Consistent.setCreation (h : s.Consistent named) {i : Nat} {c : Creation}
    (hc : s.creations[i]? = some c) (cache : MemoryCache) (stage : CreationStage) :
    ({ s with cache, creations := s.creations.set i { c with stage } } : World db).Consistent
      named :=
  { h with
    aggregates := by
      have hSame : (s.creations.set i { c with stage }).map (·.aggregate) =
          s.creations.map (·.aggregate) := map_set_of_eq hc rfl
      unfold World.aggregates
      rw [hSame]
      exact h.aggregates
    creations := fun other hOther => by
      rcases List.mem_or_eq_of_mem_set hOther with hOld | rfl
      · exact h.creations other hOld
      · exact { h.creations c (List.mem_of_getElem? hc) with } }

/-- A removal ends. -/
theorem Consistent.setRemoval (h : s.Consistent named) {j : Nat} {r : Removal}
    (hr : s.removals[j]? = some r) (outcome : Except Thrown Unit) :
    ({ s with removals := s.removals.set j { r with outcome := some outcome } } :
      World db).Consistent named :=
  { h with
    aggregates := by
      have hSame : (s.removals.set j { r with outcome := some outcome }).map (·.aggregate) =
          s.removals.map (·.aggregate) := map_set_of_eq hr rfl
      unfold World.aggregates
      rw [hSame]
      exact h.aggregates }

/-- A handler goes on that has not saved anything. -/
theorem Consistent.setHandling (h : s.Consistent named) {k : Nat} {e : Handling}
    (he : s.handlings[k]? = some e) (cache : MemoryCache) {stage : HandlingStage}
    (hStage : stage ≠ .saved) :
    ({ s with cache, handlings := s.handlings.set k { e with stage } } : World db).Consistent
      named :=
  { h with
    aggregates := by
      have hSame : (s.handlings.set k { e with stage }).map (·.aggregate) =
          s.handlings.map (·.aggregate) := map_set_of_eq he rfl
      unfold World.aggregates
      rw [hSame]
      exact h.aggregates
    handlings := fun other hOther => by
      rcases List.mem_or_eq_of_mem_set hOther with hOld | rfl
      · exact h.handlings other hOld
      · exact { h.handlings e (List.mem_of_getElem? he) with
          saved := fun hSaved => absurd hSaved hStage } }

/-- A handler is called with an event of the store and loads the aggregate. -/
theorem Consistent.addHandling (h : s.Consistent named) {event : IEvent EventData}
    (hEvent : event ∈ s.store.sent) {aggregate : InventoryAggregate} {created : Bool}
    (hKind : created = true → event.name = "InventoryCreatedEvent")
    (hMerge : AggregateFactory.mergeContext inventoryAggregate s.store event.streamId =
      .ok aggregate) :
    ({ s with handlings := s.handlings ++ [⟨created, aggregate, .merged⟩] } :
      World db).Consistent named := by
  obtain ⟨_, hSame, hStream, hLoaded, hName⟩ := h.loaded event.streamId
  rw [hMerge] at hSame
  obtain rfl := Except.ok.inj hSame
  exact { h with
    aggregates := fun other hOther => by
      simp only [World.aggregates, List.map_append, ← List.append_assoc] at hOther
      rcases List.mem_append.mp hOther with hOld | hNew
      · exact h.aggregates other hOld
      · exact List.mem_singleton.mp hNew ▸ hLoaded
    handlings := fun other hOther => by
      rcases List.mem_append.mp hOther with hOld | hNew
      · exact h.handlings other hOld
      · obtain rfl := List.mem_singleton.mp hNew
        refine ⟨fun hCreated => ?_, fun hSaved => by cases hSaved⟩
        rw [hName ⟨event, hEvent, hKind hCreated, rfl⟩, hStream] }

/-- A handler has loaded a stream that it may save. -/
theorem Consistent.loaded_of_handling (h : s.Consistent named) {e : Handling}
    (he : e ∈ s.handlings) : Loaded named s.store.sent e.aggregate :=
  h.aggregates e.aggregate (List.mem_append_right _ (List.mem_map_of_mem he))

/-- What a saved projection does to the names in the table. Both the old name
and the new one are those of the stream. -/
theorem Consistent.nameOf_save (h : s.Consistent named) {e : Handling} (he : e ∈ s.handlings)
    {table : db.Table} (hSave : db.save s.table (toProjection e.aggregate) = some table)
    (id : String) :
    db.nameOf table id =
      if id = e.aggregate.streamId ∧ e.aggregate.state.name.isSome then some (named id)
      else db.nameOf s.table id := by
  rw [db.nameOf_save _ _ _ hSave]
  change (if id = e.aggregate.streamId then e.aggregate.state.name.or _ else _) = _
  by_cases hId : id = e.aggregate.streamId
  · subst hId
    cases hName : e.aggregate.state.name with
    | none => simp
    | some name =>
        obtain ⟨rfl, _⟩ := (h.loaded_of_handling he).name name hName
        simp
  · simp [hId]

/-- A handler saves a row, under the name of its stream. -/
theorem Consistent.save (h : s.Consistent named) {k : Nat} {e : Handling}
    (he : s.handlings[k]? = some e) {table : db.Table}
    (hSave : db.save s.table (toProjection e.aggregate) = some table) :
    ({ s with
        table
        handlings := s.handlings.set k
          { e with stage := if e.created then .saved else .ended } } : World db).Consistent
      named :=
  have hMem := List.mem_of_getElem? he
  have hNames := h.nameOf_save hMem hSave
  { h with
    aggregates := by
      have hSame : (s.handlings.set k
          { e with stage := if e.created then .saved else .ended }).map (·.aggregate) =
          s.handlings.map (·.aggregate) := map_set_of_eq he rfl
      unfold World.aggregates
      rw [hSame]
      exact h.aggregates
    handlings := fun other hOther => by
      have hKept : ∀ id, db.nameOf s.table id = some (named id) →
          db.nameOf table id = some (named id) := by
        intro id hRow
        rw [hNames id, hRow, ite_self]
      rcases List.mem_or_eq_of_mem_set hOther with hOld | rfl
      · have hOther := h.handlings other hOld
        exact { hOther with
          saved := fun hSaved => ⟨(hOther.saved hSaved).1, hKept _ (hOther.saved hSaved).2⟩ }
      · refine { h.handlings e hMem with saved := fun hSaved => ?_ }
        have hCreated : e.created = true := by
          by_contra hOther
          rw [Bool.not_eq_true] at hOther
          simp [hOther] at hSaved
        refine ⟨hCreated, ?_⟩
        change db.nameOf table e.aggregate.streamId = _
        rw [hNames, (h.handlings e hMem).name hCreated]
        simp
    rows := fun id name hName => by
      change db.nameOf table id = some name at hName
      rw [hNames] at hName
      split at hName
      · next hOwn =>
          obtain ⟨rfl, hSome⟩ := hOwn
          obtain ⟨name', hName'⟩ := Option.isSome_iff_exists.mp hSome
          exact ⟨(Option.some.inj hName).symm,
            ((h.loaded_of_handling hMem).name name' hName').2⟩
      · exact h.rows id name hName }

/-- A creation loads its stream and applies its event. -/
theorem Consistent.addCreation (h : s.Consistent named) {streamId : String}
    {aggregate : InventoryAggregate}
    (hMerge : AggregateFactory.mergeContext inventoryAggregate s.store streamId = .ok aggregate)
    {input : CreateInventoryInput} (hAsks : input.name = named streamId)
    (command : ICommand EventData) (uuid : String) (now : Nat) :
    ({ s with
        creations := s.creations ++ [⟨input, command,
          inventoryCreatedEvent streamId input uuid now, aggregate, .merged⟩] } :
      World db).Consistent named := by
  obtain ⟨_, hSame, hStream, hLoaded, _⟩ := h.loaded streamId
  rw [hMerge] at hSame
  obtain rfl := Except.ok.inj hSame
  exact { h with
    aggregates := fun other hOther => by
      simp only [World.aggregates, List.map_append, List.mem_append, List.map_cons, List.map_nil,
        List.mem_singleton] at hOther
      rcases hOther with ((hOld | rfl) | hOld) | hOld
      · exact h.aggregates other (by simp [World.aggregates, hOld])
      · exact hLoaded
      · exact h.aggregates other (by simp [World.aggregates, hOld])
      · exact h.aggregates other (by simp [World.aggregates, hOld])
    creations := fun other hOther => by
      rcases List.mem_append.mp hOther with hOld | hNew
      · exact h.creations other hOld
      · obtain rfl := List.mem_singleton.mp hNew
        exact ⟨rfl, rfl, hStream.symm, hAsks⟩ }

/-- A removal loads its stream. -/
theorem Consistent.addRemoval (h : s.Consistent named) {aggregate : InventoryAggregate}
    {input : RemoveInventoryInput}
    (hMerge : AggregateFactory.mergeContext inventoryAggregate s.store input.inventoryId =
      .ok aggregate) (command : ICommand EventData) :
    ({ s with removals := s.removals ++ [⟨input, command, aggregate, none⟩] } :
      World db).Consistent named := by
  obtain ⟨_, hSame, _, hLoaded, _⟩ := h.loaded input.inventoryId
  rw [hMerge] at hSame
  obtain rfl := Except.ok.inj hSame
  exact { h with
    aggregates := fun other hOther => by
      simp only [World.aggregates, List.map_append, List.mem_append, List.map_cons, List.map_nil,
        List.mem_singleton] at hOther
      rcases hOther with (hOld | hOld | rfl) | hOld
      · exact h.aggregates other (by simp [World.aggregates, hOld])
      · exact h.aggregates other (by simp [World.aggregates, hOld])
      · exact hLoaded
      · exact h.aggregates other (by simp [World.aggregates, hOld]) }

/-- What a creation commits: its one event. -/
theorem Consistent.applyAndCommit (h : s.Consistent named) {c : Creation}
    (hc : c ∈ s.creations) :
    ∃ event, applyAndCommit s.store c.aggregate c.command c.event = .ok (s.store.push event) ∧
      EventNamed named event ∧ createdName event = some c.input.name ∧
      event.data = c.event.data := by
  have hCreating := h.creations c hc
  have hLoaded : Loaded named s.store.sent c.aggregate := h.aggregates c.aggregate
    (List.mem_append_left _ (List.mem_append_left _ (List.mem_map_of_mem hc)))
  have hHandler : inventoryAggregate.applyHandler c.event.name = some handleCreate := by
    rw [hCreating.kind]
    rfl
  refine ⟨AggregateRoot.linkEvent (some c.command) c.event, ?_, ?_, ?_,
    AggregateRoot.linkEvent_data _ _⟩
  · rw [Inventory.applyAndCommit, apply_of_handler hHandler]
    dsimp only
    rw [AggregateRoot.commit_handled hLoaded.commitFn hLoaded.start,
      AggregateRoot.filed_of_streamId hCreating.streamId]
    rfl
  · rw [EventNamed, Known, AggregateRoot.linkEvent_name, AggregateRoot.linkEvent_data,
      AggregateRoot.linkEvent_streamId, hCreating.data, hCreating.asks]
    exact ⟨Or.inl hCreating.kind, fun _ => rfl⟩
  · rw [createdName, AggregateRoot.linkEvent_name, AggregateRoot.linkEvent_data,
      if_pos hCreating.kind, hCreating.data]

/-- A removal commits one event or nothing. -/
theorem removed_of_ok {aggregate : InventoryAggregate}
    (h : Loaded named s.store.sent aggregate)
    {command : ICommand EventData} {removed : Int} {uuid : String} {now : Nat}
    {store : MemoryStore EventData}
    (hStore : removeInventory s.store aggregate command
      (inventoryRemovedEvent aggregate.streamId removed uuid now) removed = .ok store) :
    ∃ event, store = s.store.push event ∧ event.name = "InventoryRemovedEvent" := by
  have hHandler : inventoryAggregate.applyHandler
      (inventoryRemovedEvent aggregate.streamId removed uuid now).name = some handleRemove := rfl
  rw [Inventory.removeInventory, apply_of_handler hHandler] at hStore
  dsimp only at hStore
  split at hStore
  · cases hStore
  · rw [AggregateRoot.commit_handled h.commitFn h.start] at hStore
    refine ⟨_, (Except.ok.inj hStore).symm, ?_⟩
    rw [AggregateRoot.linkEvent_name, AggregateRoot.filed_name]
    rfl

end

end World

end Moirae.Inventory
