import Moirae.Demo.InventoryRegistry
import Moirae.Runs.Execution

/-! Unique names of inventories, over all runs of the handlers: what the register
guarantees, when a name is free, and how one is lost. -/
namespace Moirae.Inventory

open Demo

namespace World

variable {db : Repository}

section

variable {sha1 : Option String → String} {named : String → String} {s t : World db}

/-- What every reachable world satisfies. -/
structure Reachable (sha1 : Option String → String) (named : String → String) (s : World db) :
    Prop where
  consistent : s.Consistent named
  sound : Registry.Sound (s.registry sha1)
  accounted : Registry.Accounted (s.registry sha1)

/-- Nothing is reserved, created or saved at first. -/
theorem registry_new : (new : World db).registry sha1 = Registry.initial := by
  apply Registry.State.ext
  · ext name
    simp [registry, new, Registry.initial, MemoryCache.not_contains_new]
  · ext name
    simp [registry, new, Registry.initial, db.nameOf_empty]
  · rfl
  · rfl
  · ext name
    simp [registry, new, Registry.initial]
  · ext name
    simp [registry, new, Registry.initial]

/-- The empty world is reachable. -/
theorem reachable_new : (new : World db).Reachable sha1 named where
  consistent := consistent_new named
  sound := by
    rw [registry_new]
    exact Registry.sound_initial
  accounted := by
    rw [registry_new]
    exact Registry.accounted_initial

/-- A step that asks for the names of the streams stays within what is reachable. -/
theorem Reachable.step (hSha1 : Function.Injective sha1) (h : s.Reachable sha1 named)
    {a : Action} (hAsks : a.Asks named) (hStep : step sha1 s a = some t) :
    t.Reachable sha1 named := by
  obtain ⟨hConsistent, hSame | hRegistry⟩ := step_refines hSha1 h.consistent hAsks hStep
  · exact ⟨hConsistent, hSame ▸ h.sound, hSame ▸ h.accounted⟩
  · exact ⟨hConsistent, hRegistry.sound h.sound, hRegistry.accounted h.sound h.accounted⟩

/-- So does a run. -/
theorem Reachable.exec (hSha1 : Function.Injective sha1) (h : s.Reachable sha1 named)
    {actions : List Action} (hAsks : ∀ a ∈ actions, a.Asks named)
    (hRun : Runs.exec (World.step sha1) s actions = some t) : t.Reachable sha1 named := by
  induction actions generalizing s with
  | nil =>
      obtain rfl := Option.some.inj hRun
      exact h
  | cons a actions ih =>
      cases hNext : World.step sha1 s a with
      | none => simp [Runs.exec, hNext] at hRun
      | some u =>
          rw [Runs.exec_cons_of_step hNext] at hRun
          exact ih (h.step hSha1 (hAsks a List.mem_cons_self) hNext)
            (fun b hb => hAsks b (List.mem_cons_of_mem a hb)) hRun

/-- No two created events give one name, and no two rows of the table have
one. -/
def Unique (s : World db) : Prop :=
  s.created.Nodup ∧ ∀ id id' name,
    db.nameOf s.table id = some name → db.nameOf s.table id' = some name → id = id'

/-- No two streams have one name, for the registry has none of them twice. -/
theorem Reachable.unique (h : s.Reachable sha1 named) : s.Unique := by
  refine ⟨h.sound.unique, fun id id' name hRow hRow' => ?_⟩
  obtain ⟨hName, event, hEvent, hKind, hStream⟩ := h.consistent.rows id name hRow
  obtain ⟨hName', event', hEvent', hKind', hStream'⟩ := h.consistent.rows id' name hRow'
  have hOwn : createdName event = some name := by
    rw [(h.consistent.events event hEvent).createdName hKind, hStream, hName]
  have hOwn' : createdName event' = some name := by
    rw [(h.consistent.events event' hEvent').createdName hKind', hStream', hName']
  have hSame := eq_of_nodup_filterMap h.sound.unique hEvent hEvent' hOwn hOwn'
  rw [← hStream, hSame, hStream']

/-- Every creation has ended, none because its query failed, and every created
event was handled to the end at least once. -/
structure AtRest (s : World db) : Prop where
  ended : ∀ c ∈ s.creations, ∃ outcome, c.stage = .ended outcome
  handled : ∀ event ∈ s.store.sent, event.name = "InventoryCreatedEvent" →
    ∃ e ∈ s.handlings, e.created = true ∧ e.stage = .ended ∧
      e.aggregate.streamId = event.streamId

/-- At rest every name that was created is settled in the registry. -/
theorem Reachable.settled (h : s.Reachable sha1 named) (hRest : s.AtRest) {name : String}
    (hName : name ∈ s.created) : name ∈ (s.registry sha1).settled := by
  obtain ⟨_, ⟨event, hEvent, hKind, rfl⟩, rfl⟩ := (mem_created_iff h.consistent).mp hName
  obtain ⟨e, he, hCreated, hEnded, hStream⟩ := hRest.handled event hEvent hKind
  refine ⟨e, he, hCreated, hEnded, ?_⟩
  rw [(h.consistent.handlings e he).name hCreated, hStream]

/-- At rest no name is reserved. -/
theorem Reachable.free (h : s.Reachable sha1 named) (hRest : s.AtRest) (name : String) :
    name ∉ (s.registry sha1).held := by
  apply h.accounted.free
  · intro i
    change s.creations[i]?.bind candidate = none
    rw [Option.bind_eq_none_iff]
    intro c hc
    obtain ⟨outcome, hEnded⟩ := hRest.ended c (List.mem_of_getElem? hc)
    rw [candidate, hEnded]
  · intro other hOther
    exact h.settled hRest hOther
  · rintro ⟨c, hc, hFailed, -⟩
    obtain ⟨outcome, hEnded⟩ := hRest.ended c hc
    rw [hFailed] at hEnded
    cases hEnded

/-- At rest the table has exactly the names that were created. -/
theorem Reachable.nameExists_iff (h : s.Reachable sha1 named) (hRest : s.AtRest)
    (name : String) : nameExists db s.table name = true ↔ name ∈ s.created := by
  rw [Inventory.nameExists_iff]
  constructor
  · exact h.sound.entered name
  · intro hName
    exact h.accounted.settled (h.settled hRest hName)

/-- A creation that exists goes on. -/
theorem step_resumeCreate {i : Nat} {c : Creation} (hc : s.creations[i]? = some c) :
    step sha1 s (.resumeCreate i) = s.resumeCreate sha1 i c := by
  rw [step, hc, Option.bind_some]

/-- An execution of `CreateInventoryHandler` that begins at rest, and that
nothing interrupts, gets the reservation and asks the table. -/
theorem Reachable.create (hSha1 : Function.Injective sha1) (h : s.Reachable sha1 named)
    (hRest : s.AtRest) {streamId : String} {input : CreateInventoryInput}
    (hName : input.name = named streamId) (command : ICommand EventData) (uuid : String)
    (now : Nat) :
    ∃ t c, Runs.exec (World.step sha1) s [.create streamId input command uuid now,
        .resumeCreate s.creations.length, .resumeCreate s.creations.length] = some t ∧
      t.Reachable sha1 named ∧ t.created = s.created ∧
      t.creations[s.creations.length]? = some c ∧ c.input = input ∧
      c.event = inventoryCreatedEvent streamId input uuid now ∧
      c.stage = .checked (nameExists db s.table input.name) := by
  obtain ⟨aggregate, hMerge, _⟩ := h.consistent.loaded streamId
  let c : Creation :=
    ⟨input, command, inventoryCreatedEvent streamId input uuid now, aggregate, .merged⟩
  let cache := (ValueReservation.reserveValue sha1 s.cache
    (nameReservation (some input.name))).1
  let begun : World db := { s with creations := s.creations ++ [c] }
  let reserved : World db :=
    { s with cache, creations := s.creations ++ [{ c with stage := .reserved }] }
  let checked : World db := { s with
    cache
    creations := s.creations ++
      [{ c with stage := .checked (nameExists db s.table input.name) }] }
  have hBegin : World.step sha1 s (.create streamId input command uuid now) = some begun := by
    rw [World.step, hMerge]
  have hReserve : World.step sha1 begun (.resumeCreate s.creations.length) = some reserved := by
    have hFree : (ValueReservation.reserveValue sha1 s.cache
        (nameReservation (some input.name))).2 = true :=
      (s.cache.addToSet_succeeds_iff _ _).mpr (h.free hRest input.name)
    rw [step_resumeCreate (c := c) List.getElem?_concat_length]
    change some ({ s with
      cache, creations := (s.creations ++ [c]).set s.creations.length
        { c with stage := if (ValueReservation.reserveValue sha1 s.cache
            (nameReservation (some input.name))).2 then .reserved else _ } } : World db) = _
    rw [hFree, List.set_append_right _ _ (Nat.le_refl _), Nat.sub_self]
    rfl
  have hQuery : World.step sha1 reserved (.resumeCreate s.creations.length) = some checked := by
    rw [step_resumeCreate (c := { c with stage := .reserved }) List.getElem?_concat_length]
    change some ({ s with
      cache, creations := (s.creations ++ [_]).set s.creations.length _ } : World db) = _
    rw [List.set_append_right _ _ (Nat.le_refl _), Nat.sub_self]
    rfl
  have hBegun := h.step hSha1 (a := .create streamId input command uuid now) hName hBegin
  have hReserved := hBegun.step hSha1 (a := .resumeCreate _) trivial hReserve
  refine ⟨checked, _, ?_, hReserved.step hSha1 (a := .resumeCreate _) trivial hQuery,
    rfl, List.getElem?_concat_length, rfl, rfl, rfl⟩
  rw [Runs.exec_cons_of_step hBegin, Runs.exec_cons_of_step hReserve,
    Runs.exec_cons_of_step hQuery]
  rfl

/-- At rest nothing stands in the way of a name: the next execution of
`CreateInventoryHandler`, if nothing interrupts it, creates the inventory
exactly if no inventory has the name. -/
theorem create_at_rest (sha1 : Option String → String) (hSha1 : Function.Injective sha1)
    (named : String → String) (actions : List Action) (hAsks : ∀ a ∈ actions, a.Asks named)
    {s : World db} (hRun : Runs.exec (step sha1) new actions = some s) (hRest : s.AtRest)
    {streamId : String} {input : CreateInventoryInput} (hName : input.name = named streamId)
    (command : ICommand EventData) (uuid : String) (now : Nat) :
    ∃ t c, Runs.exec (step sha1) s [.create streamId input command uuid now,
        .resumeCreate s.creations.length, .resumeCreate s.creations.length,
        .resumeCreate s.creations.length] = some t ∧
      t.creations[s.creations.length]? = some c ∧
      if input.name ∈ s.created then
        t.created = s.created ∧ c.stage = .ended (.error (duplicateInventoryNameException
          (inventoryCreatedEvent streamId input uuid now)))
      else t.created = s.created ++ [input.name] ∧ c.stage = .ended (.ok ()) := by
  have h := reachable_new.exec hSha1 hAsks hRun
  obtain ⟨t, c, hStart, hReachable, hCreated, hc, hInput, hEvent, hStage⟩ :=
    h.create hSha1 hRest hName command uuid now
  have hLength := (List.getElem?_eq_some_iff.mp hc).1
  have hIff := h.nameExists_iff hRest input.name
  have hExec : ∀ u, t.resumeCreate sha1 s.creations.length c = some u →
      Runs.exec (step sha1) s [.create streamId input command uuid now,
        .resumeCreate s.creations.length, .resumeCreate s.creations.length,
        .resumeCreate s.creations.length] = some u := by
    intro u hu
    have hEnd : Runs.exec (step sha1) t [.resumeCreate s.creations.length] = some u := by
      rw [Runs.exec_cons_of_step ((step_resumeCreate hc).trans hu)]
      rfl
    exact Runs.exec_append hStart hEnd
  cases hExists : nameExists db s.table input.name with
  | true =>
      rw [hExists] at hStage
      have hLast : t.resumeCreate sha1 s.creations.length c = some { t with
          cache := (ValueReservation.releaseValue sha1 t.cache
            (nameReservation (some c.input.name))).1
          creations := t.creations.set s.creations.length
            { c with stage := .ended (.error (duplicateInventoryNameException c.event)) } } := by
        rw [resumeCreate, hStage]
      refine ⟨_, _, hExec _ hLast, List.getElem?_set_self hLength, ?_⟩
      rw [if_pos (hIff.mp hExists), hEvent]
      exact ⟨hCreated, rfl⟩
  | false =>
      rw [hExists] at hStage
      obtain ⟨event, hCommit, _, hOwn, _⟩ :=
        hReachable.consistent.applyAndCommit (List.mem_of_getElem? hc)
      have hLast : t.resumeCreate sha1 s.creations.length c = some { t with
          store := t.store.push event
          creations := t.creations.set s.creations.length
            { c with stage := .ended (.ok ()) } } := by
        rw [resumeCreate, hStage]
        dsimp only
        rw [hCommit]
      refine ⟨_, _, hExec _ hLast, List.getElem?_set_self hLength, ?_⟩
      have hNew : input.name ∉ s.created := fun hOld => by
        rw [hIff.mpr hOld] at hExists
        cases hExists
      rw [if_neg hNew]
      refine ⟨?_, rfl⟩
      change (t.store.sent ++ [event]).filterMap createdName = _
      rw [List.filterMap_append, List.filterMap_cons, hOwn, hInput]
      exact congrArg (· ++ [input.name]) hCreated

/-- The name is reserved for good: it is in the set of the cache, and no event
gives it. -/
def Lost (sha1 : Option String → String) (s : World db) (name : String) : Prop :=
  s.cache.Contains "InventoryAggregate__name" (sha1 (some name)) ∧ name ∉ s.created

end

/-! ## Two inventories that ask for one name -/

/-- A digest that tells all names apart, and no name from all of them. -/
def nameSha1 : Option String → String
  | none => ValueReservation.World.sampleSha1 "undefined"
  | some name => ValueReservation.World.sampleSha1 ("name " ++ name)

/-- The hash of the example keeps names apart. -/
theorem nameSha1_injective : Function.Injective nameSha1 := by
  have hNone : ∀ name, "undefined" ≠ "name " ++ name := by
    intro name hSame
    simpa using congrArg (fun text => text.toList.head?) hSame
  intro v w h
  cases v with
  | none =>
      cases w with
      | none => rfl
      | some name => exact absurd (ValueReservation.World.sampleSha1_injective h) (hNone name)
  | some name =>
      cases w with
      | none => exact absurd (ValueReservation.World.sampleSha1_injective h).symm (hNone name)
      | some other =>
          exact congrArg some ((String.append_right_inj _).mp
            (ValueReservation.World.sampleSha1_injective h))

def chairs : CreateInventoryInput := ⟨"chair", 4, 1⟩

def createInventoryCommand (correlationId uuid : String) : ICommand EventData :=
  ⟨some correlationId,
    { EventData.undefined with name := some "chair", quantity := some 4, price := some 1 },
    some .empty, "CreateInventoryCommand", uuid⟩

/-- Two commands, executed in turns, and the event of the one that wins handled
twice. -/
def chairsTwice : List Action :=
  [.create "s1" chairs (createInventoryCommand "c1" "u1") "e1" 10,
    .create "s2" chairs (createInventoryCommand "c2" "u2") "e2" 11,
    .resumeCreate 0, .resumeCreate 1, .resumeCreate 0, .resumeCreate 0,
    .catchError 1 "e3" 12, .handle 0, .resumeHandle 0, .resumeHandle 0, .handle 0,
    .resumeHandle 1, .resumeHandle 1]

/-- The world after these executions. -/
def chairCreated : World memoryRepository :=
  (Runs.exec (step nameSha1) new chairsTwice).getD new

/-- The world that the run of two chairs ends in. -/
theorem chairCreated_run : Runs.exec (step nameSha1) new chairsTwice = some chairCreated := by
  rfl

/-- Everything has ended there. -/
theorem chairCreated_atRest : chairCreated.AtRest where
  ended := by
    intro c hc
    have hStages : chairCreated.creations.map (·.stage) =
        [.ended (.ok ()), .ended (.error (duplicateInventoryNameException
          (inventoryCreatedEvent "s2" chairs "e2" 11)))] := rfl
    have hStage := List.mem_map_of_mem (f := (·.stage)) hc
    rw [hStages] at hStage
    rcases List.mem_cons.mp hStage with hOk | hError
    · exact ⟨_, hOk⟩
    · exact ⟨_, List.mem_singleton.mp hError⟩
  handled := by decide

theorem create_at_rest_chair :
    ∃ t c, Runs.exec (step nameSha1) chairCreated
        [.create "s3" chairs (createInventoryCommand "c3" "u3") "e4" 13,
          .resumeCreate chairCreated.creations.length,
          .resumeCreate chairCreated.creations.length,
          .resumeCreate chairCreated.creations.length] = some t ∧
      t.creations[chairCreated.creations.length]? = some c ∧
      if chairs.name ∈ chairCreated.created then
        t.created = chairCreated.created ∧ c.stage = .ended (.error
          (duplicateInventoryNameException (inventoryCreatedEvent "s3" chairs "e4" 13)))
      else t.created = chairCreated.created ++ [chairs.name] ∧ c.stage = .ended (.ok ()) :=
  create_at_rest nameSha1 nameSha1_injective (fun _ => "chair") chairsTwice
    (by simp [chairsTwice, Action.Asks, chairs]) chairCreated_run chairCreated_atRest rfl
    (createInventoryCommand "c3" "u3") "e4" 13

end World

end Moirae.Inventory
