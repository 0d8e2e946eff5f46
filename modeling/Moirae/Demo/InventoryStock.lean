import Moirae.Demo.InventoryNames

/-! What is in stock: removals are checked against the aggregate that the
handler loaded, and events of the stream may have been committed since. -/
namespace Moirae.Inventory

open Demo

/-- A quantity that is a number is not below zero. -/
def InStock (quantity : Option Int) : Prop := ∀ number, quantity = some number → 0 ≤ number

instance (quantity : Option Int) : Decidable (InStock quantity) :=
  match quantity with
  | none => .isTrue fun _ h => by cases h
  | some number => decidable_of_iff (0 ≤ number)
      ⟨fun h _ hSame => Option.some.inj hSame ▸ h, fun h => h number rfl⟩

/-- The test of the aggregate, which an undefined quantity passes. -/
theorem inStock_iff {quantity : Option Int} :
    InStock quantity ↔ quantity.any (· < 0) = false := by
  cases quantity with
  | none => simp [InStock]
  | some number => simp [InStock]

/-- A removal was asked for with this quantity. -/
def afterRemoval (quantity : Option Int) (removed : Int) : Option Int :=
  quantity.map (· - removed)

/-- The quantity of an inventory that is populated from its stream now. -/
def stock (store : MemoryStore EventData) (streamId : String) : Option Int :=
  match AggregateFactory.mergeContext inventoryAggregate store streamId with
  | .error _ => none
  | .ok aggregate => aggregate.state.quantity

namespace World

variable {db : Repository}

/-- No inventory went below zero. -/
def Stocked (s : World db) : Prop := ∀ streamId, InStock (stock s.store streamId)

/-- The removal is still right when it is committed: what the loaded aggregate
allows, one populated now allows too. -/
def StillAllowed (s : World db) : Action → Prop
  | .resumeRemove j _ _ => ∀ r, s.removals[j]? = some r → r.outcome = none →
      InStock (afterRemoval r.aggregate.state.quantity r.input.quantity) →
      InStock (afterRemoval (stock s.store r.aggregate.streamId) r.input.quantity)
  | _ => True

/-- Nothing was committed to the stream of the inventory since the removal that
goes on has loaded it. -/
def Undisturbed (s : World db) : Action → Prop
  | .resumeRemove j _ _ => ∀ r ∈ s.removals[j]?,
      s.store.readFromStream r.aggregate.streamId = r.aggregate.eventHistory
  | _ => True

instance Undisturbed.decidable (s : World db) : ∀ a : Action, Decidable (s.Undisturbed a)
  | .resumeRemove j _ _ => inferInstanceAs (Decidable (∀ r ∈ s.removals[j]?, _ = _))
  | .create .. | .resumeCreate .. | .failQuery .. | .catchError .. | .remove .. | .handle ..
  | .resumeHandle .. | .failSave .. => instDecidableTrue

/-- Commands that ask for one name in each stream, and of which each that creates
an inventory starts it with what is there. -/
def Valid (named : String → String) (a : Action) : Prop :=
  a.Asks named ∧ match a with
    | .create _ input _ _ _ => 0 ≤ input.quantity
    | _ => True

end World

/-- What an event does to the quantity. -/
def restocked (quantity : Option Int) (event : IEvent EventData) : Option Int :=
  if event.name = "InventoryCreatedEvent" then event.data.quantity
  else if event.name = "InventoryRemovedEvent" then
    quantity.bind fun number => event.data.quantity.map (number - ·)
  else quantity

/-- Handlers change the quantity as the event says. -/
theorem quantity_of_handler {event : IEvent EventData}
    {handler : InventoryState → IEvent EventData → InventoryState}
    (h : inventoryAggregate.applyHandler event.name = some handler) (state : InventoryState) :
    (handler state event).quantity = restocked state.quantity event := by
  change applyHandler event.name = some handler at h
  unfold applyHandler at h
  unfold restocked
  split at h
  · next hName =>
      obtain rfl := Option.some.inj h
      rw [if_pos hName]
      rfl
  · next hName =>
      obtain rfl := Option.some.inj h
      rw [hName, if_neg (by decide), if_pos rfl]
      unfold handleRemove
      cases state.quantity <;> cases event.data.quantity <;> rfl
  · next hName =>
      obtain rfl := Option.some.inj h
      rw [hName, if_neg (by decide), if_neg (by decide)]
  · cases h

/-- The quantity after a replay is the one that the events add up to. -/
theorem quantity_of_replay {root root' : InventoryAggregate} {events : List (IEvent EventData)}
    (h : AggregateFactory.replay inventoryAggregate root events = .ok root') :
    root'.state.quantity = events.foldl restocked root.state.quantity := by
  induction events generalizing root with
  | nil =>
      cases h
      rfl
  | cons event events ih =>
      rw [AggregateFactory.replay, List.foldlM_cons] at h
      cases hApply : root.apply inventoryAggregate event true with
      | error reason =>
          rw [hApply] at h
          cases h
      | ok root₁ =>
          rw [hApply] at h
          obtain ⟨-, handler, hHandler, rfl⟩ := AggregateRoot.apply_eq_ok_iff.mp hApply
          rw [ih h, List.foldl_cons, ← quantity_of_handler hHandler]
          rfl

namespace World

variable {db : Repository} {sha1 : Option String → String} {named : String → String}
  {s t : World db}

/-- A stream that loads has the stock that its events add up to. -/
theorem Consistent.stock_eq (h : s.Consistent named) (streamId : String) :
    stock s.store streamId = (s.store.readFromStream streamId).foldl restocked none := by
  obtain ⟨aggregate, hMerge, _⟩ := h.loaded streamId
  rw [stock, hMerge]
  rw [AggregateFactory.mergeContext] at hMerge
  cases hReplay : AggregateFactory.replay inventoryAggregate (.new inventoryAggregate streamId)
      (s.store.readFromStream streamId) with
  | error reason => simp [hReplay] at hMerge
  | ok root =>
      rw [hReplay] at hMerge
      obtain rfl := Except.ok.inj hMerge
      exact quantity_of_replay hReplay

/-- An event changes the stock of its own stream only. -/
theorem stock_push (h : s.Consistent named) {event : IEvent EventData}
    (hEvent : EventNamed named event) (streamId : String) :
    stock (s.store.push event) streamId =
      if streamId = event.streamId then restocked (stock s.store streamId) event
      else stock s.store streamId := by
  rw [(h.push hEvent).stock_eq, h.stock_eq, MemoryStore.readFromStream_push, List.foldl_append]
  by_cases hStream : streamId = event.streamId
  · rw [if_pos hStream]
    simp [hStream]
  · rw [if_neg hStream]
    simp [Ne.symm hStream]

/-- A removal takes its quantity away. -/
theorem restocked_removed {event : IEvent EventData} {removed : Int}
    (hKind : event.name = "InventoryRemovedEvent") (hData : event.data.quantity = some removed)
    (quantity : Option Int) : restocked quantity event = afterRemoval quantity removed := by
  rw [restocked, hKind, if_neg (by decide), if_pos rfl, hData]
  cases quantity <;> rfl

/-- A removal is committed exactly if the loaded aggregate allows it. -/
theorem removeInventory_cases {aggregate : InventoryAggregate}
    (h : Loaded named s.store.sent aggregate) (command : ICommand EventData) (removed : Int)
    (uuid : String) (now : Nat) :
    (¬ InStock (afterRemoval aggregate.state.quantity removed) ∧
      ∃ reason, removeInventory s.store aggregate command
        (inventoryRemovedEvent aggregate.streamId removed uuid now) removed = .error reason) ∨
    (InStock (afterRemoval aggregate.state.quantity removed) ∧
      ∃ event, removeInventory s.store aggregate command
          (inventoryRemovedEvent aggregate.streamId removed uuid now) removed =
            .ok (s.store.push event) ∧
        event.name = "InventoryRemovedEvent" ∧ event.streamId = aggregate.streamId ∧
        event.data.quantity = some removed) := by
  have hHandler : inventoryAggregate.applyHandler
      (inventoryRemovedEvent aggregate.streamId removed uuid now).name = some handleRemove := rfl
  have hQuantity : (aggregate.handled handleRemove
      (inventoryRemovedEvent aggregate.streamId removed uuid now) false).state.quantity =
        afterRemoval aggregate.state.quantity removed :=
    (quantity_of_handler hHandler aggregate.state).trans (restocked_removed rfl rfl _)
  rw [inStock_iff, removeInventory, apply_of_handler hHandler]
  dsimp only
  rw [hQuantity, AggregateRoot.commit_handled h.commitFn h.start]
  cases hAny : (afterRemoval aggregate.state.quantity removed).any (· < 0) with
  | true => exact Or.inl ⟨by simp, _, if_pos rfl⟩
  | false =>
      refine Or.inr ⟨rfl, _, if_neg (by simp), ?_, ?_, ?_⟩
      · rw [AggregateRoot.linkEvent_name, AggregateRoot.filed_name]
        rfl
      · rw [AggregateRoot.linkEvent_streamId]
        exact congrArg IEvent.streamId (AggregateRoot.filed_of_streamId rfl)
      · rw [AggregateRoot.linkEvent_data, AggregateRoot.filed_data]
        rfl

/-- The inventories that are about to be created start with what is there. -/
def Offered (s : World db) : Prop := ∀ c ∈ s.creations, InStock c.event.data.quantity

/-- How far a creation is changes nothing about what it creates. -/
theorem Offered.set (h : s.Offered) {i : Nat} {c : Creation} (hc : s.creations[i]? = some c)
    (stage : CreationStage) :
    ∀ other ∈ s.creations.set i { c with stage }, InStock other.event.data.quantity := by
  intro other hOther
  rcases List.mem_or_eq_of_mem_set hOther with hOld | rfl
  · exact h other hOld
  · exact h c (List.mem_of_getElem? hc)

/-- No new creation comes from one that goes on. -/
theorem Offered.resumeCreate (h : s.Offered) {i : Nat} {c : Creation}
    (hc : s.creations[i]? = some c) (hStep : s.resumeCreate sha1 i c = some t) : t.Offered := by
  unfold World.resumeCreate at hStep
  split at hStep
  · obtain rfl := Option.some.inj hStep
    exact h.set hc _
  · obtain rfl := Option.some.inj hStep
    exact h.set hc _
  · obtain rfl := Option.some.inj hStep
    exact h.set hc _
  · split at hStep
    · obtain rfl := Option.some.inj hStep
      exact h.set hc _
    · obtain rfl := Option.some.inj hStep
      exact h.set hc _
  · cases hStep

/-- The handler of an event leaves creations and store alone when it is called. -/
theorem creations_handle {created : Bool} {event : IEvent EventData}
    (hStep : s.handle created event = some t) : t.creations = s.creations ∧ t.store = s.store := by
  unfold handle at hStep
  split at hStep
  · obtain rfl := Option.some.inj hStep
    exact ⟨rfl, rfl⟩
  · obtain rfl := Option.some.inj hStep
    exact ⟨rfl, rfl⟩

/-- It leaves the removals alone too. -/
theorem removals_handle {created : Bool} {event : IEvent EventData}
    (hStep : s.handle created event = some t) : t.removals = s.removals := by
  unfold handle at hStep
  split at hStep
  · obtain rfl := Option.some.inj hStep
    rfl
  · obtain rfl := Option.some.inj hStep
    rfl

/-- The removals are no matter of the handler of an event. -/
theorem removals_resumeHandle {k : Nat} {e : Handling}
    (hStep : s.resumeHandle sha1 k e = some t) : t.removals = s.removals := by
  unfold resumeHandle at hStep
  split at hStep
  · obtain ⟨table, -, rfl⟩ := Option.map_eq_some_iff.mp hStep
    rfl
  · obtain rfl := Option.some.inj hStep
    rfl
  · cases hStep

/-- Nor are the creations and the store. -/
theorem creations_resumeHandle {k : Nat} {e : Handling}
    (hStep : s.resumeHandle sha1 k e = some t) : t.creations = s.creations ∧ t.store = s.store := by
  unfold resumeHandle at hStep
  split at hStep
  · obtain ⟨table, _, rfl⟩ := Option.map_eq_some_iff.mp hStep
    exact ⟨rfl, rfl⟩
  · obtain rfl := Option.some.inj hStep
    exact ⟨rfl, rfl⟩
  · cases hStep

/-- Everything but the resumed executions of command handlers leaves the
streams alone, or tells of a failure. -/
theorem step_quiet (named : String → String) {a : Action} (hStep : step sha1 s a = some t)
    (hCreate : ∀ i, a ≠ .resumeCreate i) (hRemove : ∀ j uuid now, a ≠ .resumeRemove j uuid now) :
    (t.store = s.store ∨ ∃ event, t.store = s.store.push event ∧
        event.name = "InventoryCreatedFailedEvent") ∧
      (Valid named a → s.Offered → t.Offered) := by
  cases a with
  | create streamId input command uuid now =>
      simp only [step] at hStep
      split at hStep
      · obtain rfl := Option.some.inj hStep
        exact ⟨Or.inl rfl, fun _ h => h⟩
      · obtain rfl := Option.some.inj hStep
        refine ⟨Or.inl rfl, fun hValid h c hc => ?_⟩
        rcases List.mem_append.mp hc with hOld | hNew
        · exact h c hOld
        · obtain rfl := List.mem_singleton.mp hNew
          intro number hNumber
          obtain rfl : input.quantity = number := Option.some.inj hNumber
          exact hValid.2
  | resumeCreate i => exact absurd rfl (hCreate i)
  | failQuery i =>
      obtain ⟨c, hc, hStep⟩ := Option.bind_eq_some_iff.mp hStep
      split at hStep
      · obtain rfl := Option.some.inj hStep
        exact ⟨Or.inl rfl, fun _ h => h.set hc _⟩
      · cases hStep
  | catchError i uuid now =>
      obtain ⟨c, hc, hStep⟩ := Option.bind_eq_some_iff.mp hStep
      split at hStep
      · obtain rfl := Option.some.inj hStep
        exact ⟨Or.inr ⟨_, rfl, rfl⟩, fun _ h => h⟩
      · cases hStep
  | remove input command =>
      simp only [step] at hStep
      split at hStep
      · obtain rfl := Option.some.inj hStep
        exact ⟨Or.inl rfl, fun _ h => h⟩
      · obtain rfl := Option.some.inj hStep
        exact ⟨Or.inl rfl, fun _ h => h⟩
  | resumeRemove j uuid now => exact absurd rfl (hRemove j uuid now)
  | handle place =>
      obtain ⟨event, _, hStep⟩ := Option.bind_eq_some_iff.mp hStep
      split at hStep
      · obtain ⟨hCreations, hStore⟩ := creations_handle hStep
        exact ⟨Or.inl hStore, fun _ h => by rw [Offered, hCreations]; exact h⟩
      · obtain ⟨hCreations, hStore⟩ := creations_handle hStep
        exact ⟨Or.inl hStore, fun _ h => by rw [Offered, hCreations]; exact h⟩
      · cases hStep
  | resumeHandle k =>
      obtain ⟨e, _, hStep⟩ := Option.bind_eq_some_iff.mp hStep
      obtain ⟨hCreations, hStore⟩ := creations_resumeHandle hStep
      exact ⟨Or.inl hStore, fun _ h => by rw [Offered, hCreations]; exact h⟩
  | failSave k =>
      obtain ⟨e, _, hStep⟩ := Option.bind_eq_some_iff.mp hStep
      split at hStep
      · obtain rfl := Option.some.inj hStep
        exact ⟨Or.inl rfl, fun _ h => h⟩
      · cases hStep

/-- Creating an inventory leaves all stocks at zero or above. -/
theorem Stocked.resumeCreate (h : s.Stocked) (hConsistent : s.Consistent named)
    (hOffered : s.Offered) {i : Nat} {c : Creation} (hc : s.creations[i]? = some c)
    (hStep : s.resumeCreate sha1 i c = some t) : t.Stocked := by
  unfold World.resumeCreate at hStep
  split at hStep
  · obtain rfl := Option.some.inj hStep
    exact h
  · obtain rfl := Option.some.inj hStep
    exact h
  · obtain rfl := Option.some.inj hStep
    exact h
  · obtain ⟨event, hCommit, hEvent, hName, hData⟩ :=
      hConsistent.applyAndCommit (List.mem_of_getElem? hc)
    rw [hCommit] at hStep
    obtain rfl := Option.some.inj hStep
    intro streamId
    have hKind := (hEvent.of_createdName hName).1
    change InStock (stock (s.store.push event) streamId)
    rw [stock_push hConsistent hEvent]
    split
    · rw [restocked, if_pos hKind, hData]
      exact hOffered c (List.mem_of_getElem? hc)
    · exact h streamId
  · cases hStep

/-- A removal keeps the stocks at zero or above exactly if it is still allowed. -/
theorem stocked_resumeRemove (h : s.Stocked) (hConsistent : s.Consistent named) {j : Nat}
    {uuid : String} {now : Nat} (hStep : step sha1 s (.resumeRemove j uuid now) = some t) :
    t.creations = s.creations ∧
      (t.Stocked ↔ s.StillAllowed (.resumeRemove j uuid now)) := by
  obtain ⟨r, hr, hStep⟩ := Option.bind_eq_some_iff.mp hStep
  have hLoaded : Loaded named s.store.sent r.aggregate := by
    refine hConsistent.aggregates r.aggregate
      (List.mem_append_left _ (List.mem_append_right _ ?_))
    exact List.mem_map_of_mem (List.mem_of_getElem? hr)
  have hOwn : ∀ {P : Removal → Prop}, (∀ r', s.removals[j]? = some r' → P r') ↔ P r := by
    intro P
    constructor
    · exact fun hAll => hAll r hr
    · intro hP r' hr'
      rw [hr] at hr'
      exact Option.some.inj hr' ▸ hP
  rw [StillAllowed, hOwn]
  split at hStep
  · cases hStep
  · next hOpen =>
      rcases removeInventory_cases hLoaded r.command r.input.quantity uuid now with
        ⟨hNot, reason, hError⟩ | ⟨hAllowed, event, hOk, hKind, hStream, hData⟩
      · -- nothing is committed
        dsimp only at hStep
        rw [hError] at hStep
        obtain rfl := Option.some.inj hStep
        exact ⟨rfl, fun _ _ hAllowed => absurd hAllowed hNot, fun _ => h⟩
      · dsimp only at hStep
        rw [hOk] at hStep
        obtain rfl := Option.some.inj hStep
        refine ⟨rfl, ?_⟩
        have hStock := stock_push hConsistent (eventNamed_of_removed hKind : EventNamed named event)
        have hHere : stock (s.store.push event) r.aggregate.streamId =
            afterRemoval (stock s.store r.aggregate.streamId) r.input.quantity := by
          rw [hStock, if_pos hStream.symm, restocked_removed hKind hData]
        constructor
        · intro hNext _ _
          rw [← hHere]
          exact hNext r.aggregate.streamId
        · intro hStill streamId
          change InStock (stock (s.store.push event) streamId)
          by_cases hSame : streamId = r.aggregate.streamId
          · rw [hSame, hHere]
            exact hStill hOpen hAllowed
          · rw [hStock, hStream, if_neg hSame]
            exact h streamId

/-- There is nothing in stock at first, and nothing below zero. -/
theorem stocked_new : (new : World db).Stocked := by
  intro streamId number hNumber
  rw [(consistent_new id : (new : World db).Consistent id).stock_eq] at hNumber
  cases hNumber

/-- Only the end of a removal can find that the goods are gone. -/
theorem StillAllowed.of_ne {a : Action} (h : ∀ j uuid now, a ≠ .resumeRemove j uuid now) :
    s.StillAllowed a := by
  cases a with
  | resumeRemove j uuid now => exact absurd rfl (h j uuid now)
  | _ => trivial

/-- What one step of valid executions does to the stocks. -/
theorem stocked_step (hSha1 : Function.Injective sha1) {a : Action} (hValid : Valid named a)
    (h : s.Consistent named ∧ s.Offered) (hStocked : s.Stocked)
    (hStep : step sha1 s a = some t) :
    (t.Consistent named ∧ t.Offered) ∧ (t.Stocked ↔ s.StillAllowed a) := by
  have hConsistent := (step_refines hSha1 h.1 hValid.1 hStep).1
  by_cases hCreate : ∃ i, a = .resumeCreate i
  · obtain ⟨i, rfl⟩ := hCreate
    obtain ⟨c, hc, hResume⟩ := Option.bind_eq_some_iff.mp hStep
    exact ⟨⟨hConsistent, h.2.resumeCreate hc hResume⟩, fun _ => trivial,
      fun _ => hStocked.resumeCreate h.1 h.2 hc hResume⟩
  · by_cases hRemove : ∃ j uuid now, a = .resumeRemove j uuid now
    · obtain ⟨j, uuid, now, rfl⟩ := hRemove
      obtain ⟨hCreations, hIff⟩ := stocked_resumeRemove hStocked h.1 hStep
      refine ⟨⟨hConsistent, ?_⟩, hIff⟩
      rw [Offered, hCreations]
      exact h.2
    · have hNoRemove : ∀ j uuid now, a ≠ .resumeRemove j uuid now :=
        fun j uuid now hSame => hRemove ⟨j, uuid, now, hSame⟩
      obtain ⟨hStore, hOffered⟩ := step_quiet named hStep
        (fun i hSame => hCreate ⟨i, hSame⟩) hNoRemove
      refine ⟨⟨hConsistent, hOffered hValid h.2⟩, fun _ => StillAllowed.of_ne hNoRemove,
        fun _ => ?_⟩
      rcases hStore with hSame | ⟨event, hPush, hKind⟩
      · rw [Stocked, hSame]
        exact hStocked
      · intro streamId
        have hSame : restocked (stock s.store streamId) event = stock s.store streamId := by
          rw [restocked, hKind, if_neg (by decide), if_neg (by decide)]
        rw [hPush, stock_push h.1 (eventNamed_of_failed hKind), hSame, ite_self]
        exact hStocked streamId

/-! ### What removals have loaded -/

/-- The quantity of what was loaded for a removal is what its events make of it. -/
def Replayed (s : World db) : Prop :=
  ∀ r ∈ s.removals, r.aggregate.state.quantity = r.aggregate.eventHistory.foldl restocked none

/-- An aggregate that was loaded has the quantity that its events add up to. -/
theorem quantity_of_mergeContext {store : MemoryStore EventData} {streamId : String}
    {aggregate : InventoryAggregate}
    (h : AggregateFactory.mergeContext inventoryAggregate store streamId = .ok aggregate) :
    aggregate.state.quantity = aggregate.eventHistory.foldl restocked none := by
  rw [AggregateFactory.mergeContext] at h
  cases hReplay : AggregateFactory.replay inventoryAggregate (.new inventoryAggregate streamId)
      (store.readFromStream streamId) with
  | error reason => simp [hReplay] at h
  | ok root =>
      rw [hReplay] at h
      obtain rfl := Except.ok.inj h
      have hFiled : (store.readFromStream streamId).map (AggregateRoot.filed streamId) =
          store.readFromStream streamId := by
        rw [List.map_congr_left fun event hEvent =>
          AggregateRoot.filed_of_streamId (MemoryStore.streamId_of_mem hEvent)]
        exact List.map_id _
      obtain ⟨-, hHistory, -⟩ := AggregateFactory.replay_spec hReplay
      have hEvents : root.eventHistory = store.readFromStream streamId := by
        rw [hHistory]
        exact hFiled
      change root.state.quantity = root.eventHistory.foldl restocked none
      rw [quantity_of_replay hReplay, hEvents]
      rfl

/-- The execution holds an aggregate that one held before, or that is loaded
now. -/
def Holds (s : World db) (r : Removal) : Prop :=
  (∃ old ∈ s.removals, r.aggregate = old.aggregate) ∨
    AggregateFactory.mergeContext inventoryAggregate s.store r.input.inventoryId =
      .ok r.aggregate

/-- What a step does to the executions of `RemoveInventoryHandler`: one may be
begun with an aggregate that is loaded, and one may end. -/
theorem removals_step {a : Action} (hStep : step sha1 s a = some t) :
    ∀ r ∈ t.removals, s.Holds r := by
  have hSame : t.removals = s.removals → ∀ r ∈ t.removals, s.Holds r :=
    fun hEq r hr => Or.inl ⟨r, hEq ▸ hr, rfl⟩
  cases a with
  | create streamId input command uuid now =>
      simp only [step] at hStep
      split at hStep <;> obtain rfl := Option.some.inj hStep <;> exact hSame rfl
  | resumeCreate i =>
      obtain ⟨c, -, hStep⟩ := Option.bind_eq_some_iff.mp hStep
      unfold World.resumeCreate at hStep
      split at hStep
      · obtain rfl := Option.some.inj hStep
        exact hSame rfl
      · obtain rfl := Option.some.inj hStep
        exact hSame rfl
      · obtain rfl := Option.some.inj hStep
        exact hSame rfl
      · split at hStep <;> obtain rfl := Option.some.inj hStep <;> exact hSame rfl
      · cases hStep
  | failQuery i =>
      obtain ⟨c, -, hStep⟩ := Option.bind_eq_some_iff.mp hStep
      split at hStep
      · obtain rfl := Option.some.inj hStep
        exact hSame rfl
      · cases hStep
  | catchError i uuid now =>
      obtain ⟨c, -, hStep⟩ := Option.bind_eq_some_iff.mp hStep
      split at hStep
      · obtain rfl := Option.some.inj hStep
        exact hSame rfl
      · cases hStep
  | remove input command =>
      simp only [step] at hStep
      split at hStep
      · obtain rfl := Option.some.inj hStep
        exact hSame rfl
      · next aggregate hMerge =>
          obtain rfl := Option.some.inj hStep
          intro r hr
          rcases List.mem_append.mp hr with hOld | hNew
          · exact Or.inl ⟨r, hOld, rfl⟩
          · rw [List.mem_singleton.mp hNew]
            exact Or.inr hMerge
  | resumeRemove j uuid now =>
      obtain ⟨own, hOwn, hStep⟩ := Option.bind_eq_some_iff.mp hStep
      have hSet : ∀ outcome, ∀ r ∈ s.removals.set j { own with outcome }, s.Holds r := by
        intro outcome r hr
        rcases List.mem_or_eq_of_mem_set hr with hOld | rfl
        · exact Or.inl ⟨r, hOld, rfl⟩
        · exact Or.inl ⟨own, List.mem_of_getElem? hOwn, rfl⟩
      split at hStep
      · cases hStep
      · dsimp only at hStep
        split at hStep <;> obtain rfl := Option.some.inj hStep <;> exact hSet _
  | handle place =>
      obtain ⟨event, -, hStep⟩ := Option.bind_eq_some_iff.mp hStep
      split at hStep
      · exact hSame (removals_handle hStep)
      · exact hSame (removals_handle hStep)
      · cases hStep
  | resumeHandle k =>
      obtain ⟨e, -, hStep⟩ := Option.bind_eq_some_iff.mp hStep
      exact hSame (removals_resumeHandle hStep)
  | failSave k =>
      obtain ⟨e, -, hStep⟩ := Option.bind_eq_some_iff.mp hStep
      split at hStep
      · obtain rfl := Option.some.inj hStep
        exact hSame rfl
      · cases hStep

/-- Each step keeps the aggregates of removals earlier states of their streams. -/
theorem Replayed.step (h : s.Replayed) {a : Action} (hStep : step sha1 s a = some t) :
    t.Replayed := by
  intro r hr
  rcases removals_step hStep r hr with ⟨old, hOld, hSame⟩ | hMerge
  · rw [hSame]
    exact h old hOld
  · exact quantity_of_mergeContext hMerge

/-- As long as nothing else was committed, the loaded aggregate says what is in
stock. -/
theorem stillAllowed_of_undisturbed (h : s.Consistent named) (hReplayed : s.Replayed) {a : Action}
    (hUndisturbed : s.Undisturbed a) : s.StillAllowed a := by
  cases a with
  | resumeRemove j uuid now =>
      intro r hr _ hAllowed
      rw [h.stock_eq, hUndisturbed r hr, ← hReplayed r (List.mem_of_getElem? hr)]
      exact hAllowed
  | _ => trivial

/-- No inventory is oversold in a run in which nothing is committed to its
stream between the loading and the commit of a removal. -/
theorem stocked_of_undisturbed (sha1 : Option String → String)
    (hSha1 : Function.Injective sha1) (named : String → String) (actions : List Action)
    (hValid : ∀ a ∈ actions, Valid named a)
    (hUndisturbed : Runs.StepsMeet (step sha1) Undisturbed (new : World db) actions) :
    Runs.Always (step sha1) Stocked (new : World db) actions := by
  apply Runs.always_of_stepsMeet
    (fun s : World db => (s.Consistent named ∧ s.Offered) ∧ s.Replayed ∧ s.Stocked)
    (Valid named) ?_ ?_ ?_ hValid hUndisturbed
  · intro s a t ha hInv hStep hThis
    obtain ⟨hNext, hIff⟩ := stocked_step hSha1 ha hInv.1 hInv.2.2 hStep
    exact ⟨hNext, hInv.2.1.step hStep,
      hIff.mpr (stillAllowed_of_undisturbed hInv.1.1 hInv.2.1 hThis)⟩
  · exact fun s hInv => hInv.2.2
  · exact ⟨⟨consistent_new named, fun c hc => absurd hc List.not_mem_nil⟩,
      fun r hr => absurd hr List.not_mem_nil, stocked_new⟩

/-- Four chairs, and two orders of three that are removed one after the other. -/
def chairsRemoved : List Action :=
  [.create "s1" chairs (createInventoryCommand "c1" "u1") "e1" 10,
    .resumeCreate 0, .resumeCreate 0, .resumeCreate 0,
    .remove ⟨"s1", "o1", 3⟩ (createInventoryCommand "c2" "u2"), .resumeRemove 0 "e2" 11,
    .remove ⟨"s1", "o2", 3⟩ (createInventoryCommand "c3" "u3"), .resumeRemove 1 "e3" 12]

theorem stocked_of_undisturbed_chairs :
    (Runs.exec (step nameSha1) (new : World memoryRepository) chairsRemoved).isSome = true ∧
      Runs.Always (step nameSha1) Stocked (new : World memoryRepository) chairsRemoved := by
  have hValid : ∀ a ∈ chairsRemoved, Valid (fun _ => "chair") a := by
    simp [chairsRemoved, Valid, Action.Asks, chairs]
  have hUndisturbed : Runs.StepsMeet (step nameSha1) Undisturbed (new : World memoryRepository)
      chairsRemoved := by decide +kernel
  exact ⟨by decide +kernel,
    stocked_of_undisturbed nameSha1 nameSha1_injective (fun _ => "chair") chairsRemoved hValid
      hUndisturbed⟩

/-- The same in turns: each removal is checked against the four chairs that
were there when it began. -/
def chairsOversold : List Action :=
  [.create "s1" chairs (createInventoryCommand "c1" "u1") "e1" 10,
    .resumeCreate 0, .resumeCreate 0, .resumeCreate 0,
    .remove ⟨"s1", "o1", 3⟩ (createInventoryCommand "c2" "u2"),
    .remove ⟨"s1", "o2", 3⟩ (createInventoryCommand "c3" "u3"),
    .resumeRemove 0 "e2" 11, .resumeRemove 1 "e3" 12]

example : (Runs.exec (step nameSha1) (new : World memoryRepository) chairsOversold).map
    (fun s => stock s.store "s1") = some (some (-2)) := by decide +kernel

end World

end Moirae.Inventory
