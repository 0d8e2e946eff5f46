import Moirae.Runs.Execution
import Moirae.TypeORM.TypeORMStore

/-! Runs of the event store over a table: calls of `appendToStream` in flight at
the same time, and a publisher that hands on what was published to it, when and
as often as it likes. -/
namespace Moirae.TypeORMStore

variable {Data : Type}

/-- Where a call of `appendToStream` awaits. -/
inductive Phase (Data : Type)
  | saving
  /-- The batch is saved, these events are still to be published. -/
  | publishing (rest : List (IEvent Data))
  | done

/-- A call: its list, as plain objects too, and its phase. -/
structure Call (Data : Type) where
  eventList : List (IEvent Data)
  plains : List (IEvent Data)
  phase : Phase Data

/-- A call is known by its number. `saved` are the rows with the call that saved
them; `published` and `delivered` are the calls of the events given to the
publisher and of those handed to subscribers. -/
structure World (Data : Type) where
  table : EventTable Data
  calls : List (Call Data)
  saved : List (Nat × IEvent Data)
  published : List Nat
  delivered : List Nat

inductive Action (Data : Type)
  | appendToStream (eventList : List (IEvent Data))
  /-- The transaction of `save` ends. -/
  | save (i : Nat) (fault : Option Thrown)
  /-- The next event is published, with the given result. -/
  | publish (i : Nat) (result : Except Thrown Unit)
  /-- The publisher hands on the event published at this place. -/
  | deliver (place : Nat)

namespace World

def initial : World Data :=
  { table := .empty, calls := [], saved := [], published := [], delivered := [] }

def setPhase (i : Nat) (phase : Phase Data) (calls : List (Call Data)) : List (Call Data) :=
  calls.modify i fun call => { call with phase }

/-- One step of a run. A list that cannot be made plain ends its call before it
reaches the table. An event may have been taken although `publish` failed. -/
def step (transformer : EventTransformer Data) (w : World Data) :
    Action Data → Option (World Data)
  | .appendToStream eventList =>
      match eventList.mapM transformer.instanceToPlain with
      | .error _ => some { w with calls := w.calls ++ [⟨eventList, [], .done⟩] }
      | .ok plains => some { w with calls := w.calls ++ [⟨eventList, plains, .saving⟩] }
  | .save i fault =>
      match w.calls[i]? with
      | some ⟨eventList, plains, .saving⟩ =>
          match w.table.save fault plains with
          | .error _ => some { w with calls := setPhase i .done w.calls }
          | .ok table => some
              { w with
                table
                calls := setPhase i (.publishing eventList) w.calls
                saved := w.saved ++ EventSource.tagged i plains }
      | _ => none
  | .publish i result =>
      match w.calls[i]? with
      | some ⟨_, _, .publishing (_ :: rest)⟩ =>
          let next := match result with
            | .ok _ => .publishing rest
            | .error _ => .done
          some
            { w with
              calls := setPhase i next w.calls
              published := w.published ++ [i] }
      | _ => none
  | .deliver place =>
      w.published[place]?.map fun i => { w with delivered := w.delivered ++ [i] }

/-- The streams have the rows saved, and every batch of which an event was
handed to a subscriber is whole. -/
structure Intact (w : World Data) : Prop where
  reads : ∀ streamId,
    w.table.stream streamId = (EventSource.entries w.saved streamId).map Prod.snd
  whole : ∀ i ∈ w.delivered, ∀ call, w.calls[i]? = some call →
    EventSource.Whole w.saved i call.plains

/-- What carries the induction: what is published was saved in one piece. -/
structure Sound (w : World Data) : Prop where
  rows : w.table.rows = w.saved.map Prod.snd
  publishing : ∀ i (call : Call Data) rest, w.calls[i]? = some call →
    call.phase = .publishing rest → EventSource.tagged i call.plains <:+: w.saved
  published : ∀ i ∈ w.published, ∃ call, w.calls[i]? = some call ∧
    EventSource.tagged i call.plains <:+: w.saved
  delivered : ∀ i ∈ w.delivered, i ∈ w.published

theorem sound_initial : (initial : World Data).Sound := by
  constructor <;> simp [initial, EventTable.empty]

theorem getElem?_setPhase {i j : Nat} {phase : Phase Data} {calls : List (Call Data)}
    {call : Call Data} (h : (setPhase i phase calls)[j]? = some call) :
    ∃ old, calls[j]? = some old ∧ call.plains = old.plains ∧
      (j ≠ i ∧ call.phase = old.phase ∨ j = i ∧ call.phase = phase) := by
  rw [setPhase, List.getElem?_modify] at h
  obtain ⟨old, hOld, rfl⟩ := Option.map_eq_some_iff.mp h
  by_cases hSame : i = j
  · exact ⟨old, hOld, by simp [hSame], Or.inr ⟨hSame.symm, by simp [hSame]⟩⟩
  · exact ⟨old, hOld, by simp [hSame], Or.inl ⟨Ne.symm hSame, by simp [hSame]⟩⟩

theorem exists_setPhase {i j : Nat} (phase : Phase Data) {calls : List (Call Data)}
    {old : Call Data} (h : calls[j]? = some old) :
    ∃ call, (setPhase i phase calls)[j]? = some call ∧ call.plains = old.plains := by
  rw [setPhase, List.getElem?_modify, h]
  by_cases hSame : i = j <;> simp [hSame]

theorem Sound.intact {w : World Data} (h : w.Sound) : w.Intact where
  reads := by
    intro streamId
    rw [EventTable.stream, h.rows, EventSource.entries, List.filter_map]
    rfl
  whole := by
    intro i hDelivered call hCall
    obtain ⟨call', hCall', hInfix⟩ := h.published i (h.delivered i hDelivered)
    rw [hCall] at hCall'
    obtain rfl := Option.some.inj hCall'
    exact EventSource.whole_of_infix hInfix

/-- The calls change without a change of the table, none starts to publish, and
no list is forgotten. -/
theorem Sound.of_calls {w : World Data} (h : w.Sound) {calls : List (Call Data)}
    (hKept : ∀ (i : Nat) old, w.calls[i]? = some old →
      ∃ call, calls[i]? = some call ∧ call.plains = old.plains)
    (hPublishing : ∀ (i : Nat) call rest, calls[i]? = some call →
      call.phase = .publishing rest →
        ∃ old rest', w.calls[i]? = some old ∧ old.phase = .publishing rest' ∧
          call.plains = old.plains) :
    World.Sound { w with calls } where
  rows := h.rows
  publishing := by
    intro i call rest hCall hPhase
    obtain ⟨old, rest', hOld, hOldPhase, hPlains⟩ := hPublishing i call rest hCall hPhase
    exact hPlains ▸ h.publishing i old rest' hOld hOldPhase
  published := by
    intro i hPublished
    obtain ⟨old, hOld, hInfix⟩ := h.published i hPublished
    obtain ⟨call, hCall, hPlains⟩ := hKept i old hOld
    exact ⟨call, hCall, hPlains ▸ hInfix⟩
  delivered := h.delivered

theorem Sound.started {w : World Data} (h : w.Sound) {call : Call Data}
    (hPhase : ∀ rest, call.phase ≠ .publishing rest) :
    World.Sound { w with calls := w.calls ++ [call] } := by
  refine h.of_calls ?_ ?_
  · intro i old hOld
    refine ⟨old, ?_, rfl⟩
    rw [List.getElem?_append_left (List.getElem?_eq_some_iff.mp hOld).1]
    exact hOld
  · intro i call' rest hCall hRest
    rw [List.getElem?_append] at hCall
    split at hCall
    · exact ⟨call', rest, hCall, hRest, rfl⟩
    · have hLast := List.mem_singleton.mp (List.mem_of_getElem? hCall)
      exact absurd (hLast ▸ hRest) (hPhase rest)

theorem Sound.setPhase {w : World Data} (h : w.Sound) (i : Nat) {phase : Phase Data}
    (hPhase : ∀ rest, phase = .publishing rest →
      ∃ old rest', w.calls[i]? = some old ∧ old.phase = .publishing rest') :
    World.Sound { w with calls := World.setPhase i phase w.calls } := by
  refine h.of_calls (fun j old hOld => exists_setPhase phase hOld) ?_
  intro j call rest hCall hRest
  obtain ⟨old, hOld, hPlains, ⟨-, hSame⟩ | ⟨rfl, hNew⟩⟩ := getElem?_setPhase hCall
  · exact ⟨old, rest, hOld, hSame ▸ hRest, hPlains⟩
  · obtain ⟨old', rest', hOld', hRest'⟩ := hPhase rest (hNew ▸ hRest)
    rw [hOld] at hOld'
    obtain rfl := Option.some.inj hOld'
    exact ⟨old, rest', hOld, hRest', hPlains⟩

/-- The transaction of a call is a success: its rows are one block at the end of
the table. -/
theorem Sound.save {w : World Data} (h : w.Sound) {i : Nat} {call : Call Data}
    (hCall : w.calls[i]? = some call) {fault : Option Thrown} {table : EventTable Data}
    (hSave : w.table.save fault call.plains = .ok table) (rest : List (IEvent Data)) :
    World.Sound
      { w with
        table
        calls := World.setPhase i (.publishing rest) w.calls
        saved := w.saved ++ EventSource.tagged i call.plains } where
  rows := by
    change table.rows = (w.saved ++ EventSource.tagged i call.plains).map Prod.snd
    rw [EventTable.rows_save hSave, h.rows, List.map_append]
    simp [EventSource.tagged, Function.comp_def]
  publishing := by
    intro j other rest' hOther hPhase
    obtain ⟨old, hOld, hPlains, ⟨-, hSame⟩ | ⟨rfl, -⟩⟩ := getElem?_setPhase hOther
    · rw [hPlains]
      exact (h.publishing j old rest' hOld (hSame ▸ hPhase)).trans
        (List.prefix_append _ _).isInfix
    · rw [hCall] at hOld
      obtain rfl := Option.some.inj hOld
      rw [hPlains]
      exact (List.suffix_append _ _).isInfix
  published := by
    intro j hPublished
    obtain ⟨old, hOld, hInfix⟩ := h.published j hPublished
    obtain ⟨other, hOther, hPlains⟩ := exists_setPhase (.publishing rest) hOld
    exact ⟨other, hOther, hPlains ▸ hInfix.trans (List.prefix_append _ _).isInfix⟩
  delivered := h.delivered

/-- A call that publishes has its batch in the table. -/
theorem Sound.publish {w : World Data} (h : w.Sound) {i : Nat} {call : Call Data}
    {rest : List (IEvent Data)} (hCall : w.calls[i]? = some call)
    (hPhase : call.phase = .publishing rest) (next : Phase Data) :
    World.Sound
      { w with
        calls := World.setPhase i next w.calls
        published := w.published ++ [i] } := by
  have hNext : World.Sound { w with calls := World.setPhase i next w.calls } :=
    h.setPhase i fun _ _ => ⟨call, rest, hCall, hPhase⟩
  refine ⟨hNext.rows, hNext.publishing, ?_, ?_⟩
  · intro j hPublished
    rcases List.mem_append.mp hPublished with hOld | hLast
    · exact hNext.published j hOld
    · rw [List.mem_singleton.mp hLast]
      obtain ⟨other, hOther, hPlains⟩ := exists_setPhase (i := i) next hCall
      exact ⟨other, hOther, hPlains ▸ h.publishing i call rest hCall hPhase⟩
  · exact fun j hDelivered => List.mem_append_left _ (hNext.delivered j hDelivered)

theorem Sound.step {transformer : EventTransformer Data} {w t : World Data} {a : Action Data}
    (h : w.Sound) (hStep : step transformer w a = some t) : t.Sound := by
  cases a with
  | appendToStream eventList =>
      rw [World.step] at hStep
      split at hStep
      · obtain rfl := Option.some.inj hStep
        exact h.started (by simp)
      · obtain rfl := Option.some.inj hStep
        exact h.started (by simp)
  | save i fault =>
      rw [World.step] at hStep
      split at hStep
      · rename_i eventList plains hCall
        split at hStep
        · obtain rfl := Option.some.inj hStep
          exact h.setPhase _ (by simp)
        · rename_i table hSave
          obtain rfl := Option.some.inj hStep
          exact h.save hCall hSave eventList
      · cases hStep
  | publish i result =>
      rw [World.step] at hStep
      split at hStep
      · rename_i eventList plains event rest hCall
        obtain rfl := Option.some.inj hStep
        exact h.publish hCall rfl _
      · cases hStep
  | deliver place =>
      obtain ⟨i, hPlace, rfl⟩ := Option.map_eq_some_iff.mp hStep
      refine ⟨h.rows, h.publishing, h.published, ?_⟩
      intro j hDelivered
      rcases List.mem_append.mp hDelivered with hOld | hLast
      · exact h.delivered j hOld
      · rw [List.mem_singleton.mp hLast]
        exact List.mem_of_getElem? hPlace

/-- In every run, whatever calls overlap and whenever the publisher delivers, an
event reaches its subscribers after its whole batch reached the table. -/
theorem always_intact (transformer : EventTransformer Data) (actions : List (Action Data)) :
    Runs.Always (step transformer) Intact initial actions :=
  Runs.always_of_allowed Sound (fun _ => True) (fun _ _ _ _ h hStep => h.step hStep)
    (fun _ h => h.intact) sound_initial (fun _ _ => trivial)

end World

end Moirae.TypeORMStore
