import Moirae.Core.Publication
import Moirae.Core.TransactionChain

/-! The command bus. The caller of `execute` knows a command by two ids; the
handler gets them from the command itself or from what its text was parsed into. -/
namespace Moirae.CommandBus

open EventCodec
open TransactionChain (RandomUUID)

variable {Num : Type}

structure CommandResponse (Num : Type) where
  correlationId : FieldValue Num
  streamId : FieldValue Num

def CommandResponse.fromCommand (command : Instance Num) : CommandResponse Num where
  correlationId := command.property "$correlationId"
  streamId := command.property "STREAM_ID"

structure ICommandHandlerOptions (Num : Type) where
  streamId : FieldValue Num

/-- What a call of `execute` comes to: the command that was passed, as it is
then, the response, and what was published unless the handler was called. -/
structure Execution (Num : Type) where
  command : Instance Num
  response : CommandResponse Num
  published : Option (Publication Num)

section Execute

variable [JsonNumber Num]

/-- `if (!command[key]) command[key] = randomUUID()`. -/
def ensure (key : String) (fresh : RandomUUID) (command : Instance Num) :
    Except Thrown (Instance Num) :=
  if (command.property key).truthy then .ok command
  else command.assign key (.json (.str fresh.val))

def execute (domainStore : DomainStore) (nodeId : Option String)
    (correlationId streamId : RandomUUID) (command : Instance Num) :
    Except Thrown (Execution Num) := do
  let identified ← ensure "$correlationId" correlationId command
  let addressed ← ensure "STREAM_ID" streamId identified
  if executesLocally domainStore addressed then
    return ⟨addressed, .fromCommand addressed, none⟩
  else
    let (sent, publication) ← publish nodeId addressed
    return ⟨sent, .fromCommand sent, some publication⟩

/-- `{ streamId: command.STREAM_ID || randomUUID() }`. -/
def handlerOptions (fallback : RandomUUID) (command : Instance Num) :
    ICommandHandlerOptions Num where
  streamId :=
    if (command.property "STREAM_ID").truthy then command.property "STREAM_ID"
    else .json (.str fallback.val)

/-- The handler call of `executeLocal`; rolling sagas back comes after it. -/
def executeLocal {Result : Type}
    (handlerMap : KeyedMap String (Handler (Instance Num) (ICommandHandlerOptions Num) Result))
    (fallback : RandomUUID) (command : Instance Num) : Except Thrown (Result ⊕ Thrown) :=
  BaseBus.executeLocal handlerMap command (handlerOptions fallback command)

/-- The command that `executeLocal` is called with: the one that was passed, or
on a worker what the published text is parsed into. -/
inductive Arrives (lenient : Json Num → Option DateTime) (classes : List (EventClass Num))
    (execution : Execution Num) : Instance Num → Prop
  | passed : execution.published = none → Arrives lenient classes execution execution.command
  | parsed {publication : Publication Num} {draw : Nat} {parsed : Parsed Num} :
      execution.published = some publication →
      parseEvent lenient (.registered classes) draw publication.eventString = .ok parsed →
      Arrives lenient classes execution parsed.received

end Execute

/-- A field of the instance itself that is a text or not set. -/
structure OwnText (command : Instance Num) (key : String) : Prop where
  noGetter : command.cls.getters.get key = none
  noDate : ∀ date, command.fields.get key ≠ some (.date date)

/-- A field that is in the text, and is the same again when it was parsed. -/
def Serialised (command : Instance Num) (key : String) : Prop :=
  toJson (command.fields.read key) ≠ none ∧
    Survives command.cls .empty key (command.fields.read key)

/-- The stream id comes from an accessor of the class, which makes a text from
the serialised fields. -/
structure YieldsStreamId (execution : Execution Num) : Prop where
  notOwn : execution.command.fields.get "STREAM_ID" = none
  notConstructed : ∀ draw fields, execution.command.cls.construct draw = .ok fields →
    fields.get "STREAM_ID" = none
  yields : ∃ getter text, execution.command.cls.getters.get "STREAM_ID" = some getter ∧
    text ≠ "" ∧ ∀ fields : Fields Num,
      (∀ key, Serialised execution.command key →
        fields.read key = execution.command.fields.read key) →
        getter fields = .json (.str text)

/-- Besides, a class that is transferred is registered. -/
structure GetsStreamId (classes : List (EventClass Num)) (execution : Execution Num) : Prop
    extends YieldsStreamId execution where
  registered : execution.published ≠ none →
    registeredClass (.registered classes) execution.command = some execution.command.cls

section Ensure

variable [JsonNumber Num] {key : String} {fresh : RandomUUID} {command command' : Instance Num}

theorem ensure_cases (h : ensure key fresh command = .ok command') :
    ((command.property key).truthy = true ∧ command' = command) ∨
      command' =
        { command with fields := command.fields.set key (.ofText (some fresh.val)) } := by
  unfold ensure at h
  split at h
  · exact .inl ⟨‹_›, (Except.ok.inj h).symm⟩
  · exact .inr (Instance.assign_eq_ok h)

theorem fieldsWellFormed_ensure (hFields : FieldsWellFormed command.fields)
    (h : ensure key fresh command = .ok command') : FieldsWellFormed command'.fields := by
  rcases ensure_cases h with ⟨-, rfl⟩ | rfl
  · exact hFields
  · exact hFields.set_ofText key (some fresh.val)

theorem cls_ensure (h : ensure key fresh command = .ok command') :
    command'.cls = command.cls := by
  rcases ensure_cases h with ⟨-, rfl⟩ | rfl <;> rfl

/-- Other fields stay as they are. -/
theorem get_ensure_of_ne {other : String} (hOther : other ≠ key)
    (h : ensure key fresh command = .ok command') :
    command'.fields.get other = command.fields.get other := by
  rcases ensure_cases h with ⟨-, rfl⟩ | rfl
  · rfl
  · exact (KeyedMap.get_set ..).trans (if_neg hOther)

theorem OwnText.ensure_of_ne {other : String} (hText : OwnText command other)
    (hOther : other ≠ key) (h : ensure key fresh command = .ok command') :
    OwnText command' other where
  noGetter := cls_ensure h ▸ hText.noGetter
  noDate := get_ensure_of_ne hOther h ▸ hText.noDate

/-- An id of the command's own is there afterwards, and it is not empty. -/
theorem OwnText.get_ensure (hText : OwnText command key)
    (h : ensure key fresh command = .ok command') :
    ∃ value, command'.fields.get key = some (.json value) ∧
      (FieldValue.json value).truthy = true := by
  rcases ensure_cases h with ⟨hTruthy, rfl⟩ | rfl
  · cases hGet : command'.fields.get key with
    | none =>
        simp [Instance.property, hGet, hText.noGetter, FieldValue.truthy] at hTruthy
    | some value =>
        rw [Instance.property_of_get hGet] at hTruthy
        cases value with
        | undefined => simp [FieldValue.truthy] at hTruthy
        | date date => exact absurd hGet (hText.noDate date)
        | json value => exact ⟨value, rfl, hTruthy⟩
  · refine ⟨.str fresh.val, (KeyedMap.get_set ..).trans (if_pos rfl), ?_⟩
    simpa [FieldValue.truthy] using fresh.property

end Ensure

section Identity

variable [JsonNumber Num] {lenient : Json Num → Option DateTime}
  {classes : List (EventClass Num)} {domainStore : DomainStore} {nodeId : Option String}
  {correlationId streamId fallback : RandomUUID} {command received : Instance Num}
  {execution : Execution Num}

/-- What `execute` has done when it returns. -/
structure Executed (command : Instance Num) (execution : Execution Num) : Prop where
  response : execution.response = .fromCommand execution.command
  published : ∀ publication, execution.published = some publication →
    publication.eventString = serializeEvent execution.command
  fields : FieldsWellFormed execution.command.fields
  correlated : OwnText command "$correlationId" → ∃ value,
    execution.command.fields.get "$correlationId" = some (.json value)
  addressed : OwnText command "STREAM_ID" → ∃ value,
    execution.command.fields.get "STREAM_ID" = some (.json value) ∧
      (FieldValue.json value).truthy = true

theorem executed_of_execute (hFields : FieldsWellFormed command.fields)
    (h : execute domainStore nodeId correlationId streamId command = .ok execution) :
    Executed command execution := by
  obtain ⟨identified, hIdentified, h⟩ := Traversal.exists_of_bind_eq_ok h
  obtain ⟨addressed, hAddressed, h⟩ := Traversal.exists_of_bind_eq_ok h
  have hWell : FieldsWellFormed addressed.fields :=
    fieldsWellFormed_ensure (fieldsWellFormed_ensure hFields hIdentified) hAddressed
  have hCorrelated : OwnText command "$correlationId" → ∃ value,
      addressed.fields.get "$correlationId" = some (.json value) := fun hOwn => by
    obtain ⟨value, hGet, -⟩ := hOwn.get_ensure hIdentified
    exact ⟨value, (get_ensure_of_ne (by decide) hAddressed).trans hGet⟩
  have hStream : OwnText command "STREAM_ID" → ∃ value,
      addressed.fields.get "STREAM_ID" = some (.json value) ∧
        (FieldValue.json value).truthy = true := fun hOwn =>
    (hOwn.ensure_of_ne (by decide) hIdentified).get_ensure hAddressed
  split at h
  · cases h
    exact ⟨rfl, by rintro _ ⟨⟩, hWell, hCorrelated, hStream⟩
  · obtain ⟨⟨sent, publication⟩, hPublish, h⟩ := Traversal.exists_of_bind_eq_ok h
    cases h
    obtain ⟨hSent, hText⟩ := publish_eq_ok hPublish
    -- Only the routing key is new, so the two ids are still there.
    have hSame : ∀ key, key ≠ "$routingKey" →
        sent.fields.get key = addressed.fields.get key := fun key hKey => by
      rw [hSent]
      exact (KeyedMap.get_set ..).trans (if_neg hKey)
    refine ⟨rfl, fun other hOther => ?_, ?_, fun hOwn => ?_, fun hOwn => ?_⟩
    · cases hOther
      exact hText
    · change FieldsWellFormed sent.fields
      rw [hSent]
      exact hWell.set_ofText "$routingKey" nodeId
    · obtain ⟨value, hGet⟩ := hCorrelated hOwn
      exact ⟨value, (hSame _ (by decide)).trans hGet⟩
    · obtain ⟨value, hGet, hTruthy⟩ := hStream hOwn
      exact ⟨value, (hSame _ (by decide)).trans hGet, hTruthy⟩

/-- An own field arrives as it is in the response. -/
theorem property_arrives (hExecuted : Executed command execution)
    (hArrives : Arrives lenient classes execution received) {key : String} {value : Json Num}
    (hGet : execution.command.fields.get key = some (.json value))
    (hDates : ∀ cls ∈ classes, key ∉ cls.dateFields) :
    received.property key = execution.command.property key := by
  cases hArrives with
  | passed => rfl
  | parsed hPublished hParse =>
      rw [hExecuted.published _ hPublished] at hParse
      rw [property_received hExecuted.fields hParse hGet hDates, Instance.property_of_get hGet]

variable (lenient) in
omit [JsonNumber Num] in
/-- A field that is in the text is restored whatever the constructor made of it. -/
theorem Serialised.restored {key : String} (h : Serialised command key)
    (constructed : Fields Num) :
    restored lenient command.cls constructed key (command.fields.read key) =
      command.fields.read key := by
  obtain ⟨hDefined, hSurvives⟩ := h
  rw [restored_eq_iff]
  cases hValue : command.fields.read key with
  | undefined =>
      rw [hValue] at hDefined
      exact absurd rfl hDefined
  | json value => rwa [hValue] at hSurvives
  | date date => rwa [hValue] at hSurvives

/-- The accessor makes the same stream id at both ends. -/
theorem GetsStreamId.property_arrives (h : GetsStreamId classes execution)
    (hExecuted : Executed command execution)
    (hArrives : Arrives lenient classes execution received) :
    ∃ text, text ≠ "" ∧ execution.command.property "STREAM_ID" = .json (.str text) ∧
      received.property "STREAM_ID" = .json (.str text) := by
  obtain ⟨getter, text, hGetter, hText, hYields⟩ := h.yields
  have hSent : execution.command.property "STREAM_ID" = .json (.str text) :=
    (Instance.property_of_getter h.notOwn hGetter).trans (hYields _ fun _ _ => rfl)
  refine ⟨text, hText, hSent, ?_⟩
  cases hArrives with
  | passed => exact hSent
  | @parsed publication draw parsed hPublished hParse =>
      have hRegistered := h.registered (by simp [hPublished])
      rw [hExecuted.published _ hPublished, parseEvent_eq hExecuted.fields, hRegistered] at hParse
      cases hConstruct : execution.command.cls.construct draw with
      | error thrown =>
          simp only [plainToInstance, hConstruct] at hParse
          cases hParse
      | ok constructed =>
          obtain ⟨event, hPlain, hCls, hGet⟩ := get_plainToInstance lenient
            execution.command.fields hConstruct
          simp only [hPlain] at hParse
          cases hParse
          have hNotOwn : event.fields.get "STREAM_ID" = none := by
            rw [hGet, Fields.read, h.notOwn]
            exact h.notConstructed draw constructed hConstruct
          refine (Instance.property_of_getter hNotOwn (hCls ▸ hGetter)).trans
            (hYields _ fun key hKey => ?_)
          have hRestored := hKey.restored lenient constructed
          rw [← hRestored, Fields.read, hGet, EventCodec.restored]
          cases toJson (execution.command.fields.read key) <;> rfl

theorem handlerOptions_streamId (h : (received.property "STREAM_ID").truthy = true) :
    (handlerOptions fallback received).streamId = received.property "STREAM_ID" :=
  if_pos h

/-- Whether the handler is called at once or on a worker, its stream id and the
correlation id of its command are those of the response. -/
theorem handler_identity (hFields : FieldsWellFormed command.fields)
    (hDates : ∀ cls ∈ classes, "$correlationId" ∉ cls.dateFields ∧ "STREAM_ID" ∉ cls.dateFields)
    (hCorrelation : OwnText command "$correlationId")
    (hStream : OwnText command "STREAM_ID" ∨ GetsStreamId classes execution)
    (hExecute : execute domainStore nodeId correlationId streamId command = .ok execution)
    (hArrives : Arrives lenient classes execution received) :
    (handlerOptions fallback received).streamId = execution.response.streamId ∧
      received.property "$correlationId" = execution.response.correlationId := by
  have hExecuted := executed_of_execute hFields hExecute
  rw [hExecuted.response]
  constructor
  · rcases hStream with hOwn | hGets
    · obtain ⟨value, hGet, hTruthy⟩ := hExecuted.addressed hOwn
      have hSame := property_arrives hExecuted hArrives hGet fun cls hCls => (hDates cls hCls).2
      rw [handlerOptions_streamId, hSame]
      · rfl
      · rwa [hSame, Instance.property_of_get hGet]
    · obtain ⟨text, hText, hSent, hReceived⟩ := hGets.property_arrives hExecuted hArrives
      rw [handlerOptions_streamId, hReceived]
      · exact hSent.symm
      · simpa [hReceived, FieldValue.truthy] using hText
  · obtain ⟨value, hGet⟩ := hExecuted.correlated hCorrelation
    exact property_arrives hExecuted hArrives hGet fun cls hCls => (hDates cls hCls).1

/-- A published command is handed over unless its constructor fails. -/
theorem exists_arrives (hExecuted : Executed command execution) (draw : Nat)
    (hConstruct : ∀ cls, registeredClass (.registered classes) execution.command = some cls →
      ∃ constructed, cls.construct draw = .ok constructed) :
    ∃ received, Arrives lenient classes execution received := by
  cases hPublished : execution.published with
  | none => exact ⟨_, .passed hPublished⟩
  | some publication =>
      obtain ⟨parsed, hParse⟩ :=
        exists_parseEvent lenient hExecuted.fields hConstruct
      rw [← hExecuted.published _ hPublished] at hParse
      exact ⟨_, .parsed hPublished hParse⟩

end Identity

section RollbackCommand

/-- The stream id of a rollback command is in its data. -/
def dataStreamId (fields : Fields Int) : FieldValue Int :=
  match fields.read "$data" with
  | .json (.obj members) => match members.lookup "streamId" with
    | some value => .json value
    | none => .undefined
  | _ => .undefined

def rollbackCommandFields (draw : Nat) (data : List (String × Json Int)) : Fields Int where
  entries := [("$metadata", .json (.obj [])), ("$name", .json (.str "TestRollbackCommand")),
    ("$uuid", .json (.num draw)), ("$type", .json (.str "COMMAND")), ("$version", .json (.num 1)),
    ("$data", .json (.obj data))]
  distinct := by simp

def rollbackCommand : EventClass Int where
  id := 0
  name := "TestRollbackCommand"
  construct draw := .ok (rollbackCommandFields draw [])
  dateFields := []
  getters := ⟨[("STREAM_ID", dataStreamId)], by simp⟩

def rollback : Instance Int where
  cls := rollbackCommand
  fields := rollbackCommandFields 1 [("streamId", .str "s1"), ("correlationId", .str "c1")]

/-- The command after it was published. -/
def sentRollback : Instance Int where
  cls := rollbackCommand
  fields := (rollback.fields.set "$correlationId" (.json (.str "c2"))).set "$routingKey"
    (.json (.str "node"))

/-- The command is published: no domain is registered. -/
def rollbackExecution : Execution Int :=
  ⟨sentRollback, .fromCommand sentRollback,
    some ⟨serializeEvent sentRollback, .json (.str "default")⟩⟩

theorem yieldsStreamId_rollbackExecution : YieldsStreamId rollbackExecution where
  notOwn := by decide
  notConstructed draw fields h := by
    cases h
    rfl
  yields := by
    refine ⟨dataStreamId, "s1", rfl, by decide, fun fields hSame => ?_⟩
    have hData : fields.read "$data" = sentRollback.fields.read "$data" := by
      refine hSame "$data" ⟨?_, ?_⟩
      · rintro ⟨⟩
      · rintro ⟨⟩
    rw [dataStreamId, hData]
    rfl

theorem getsStreamId_rollbackExecution :
    GetsStreamId [rollbackCommand] rollbackExecution where
  toYieldsStreamId := yieldsStreamId_rollbackExecution
  registered _ := rfl

theorem handler_identity_rollback :
    ∃ execution, execute .new (some "node") ⟨"c2", by decide⟩ ⟨"s2", by decide⟩ rollback =
        .ok execution ∧
      (∃ received, Arrives (fun _ => none) [rollbackCommand] execution received) ∧
      ∀ received, Arrives (fun _ => none) [rollbackCommand] execution received →
        (handlerOptions ⟨"s3", by decide⟩ received).streamId = execution.response.streamId ∧
          received.property "$correlationId" = execution.response.correlationId := by
  have hExecute : execute .new (some "node") ⟨"c2", by decide⟩ ⟨"s2", by decide⟩ rollback =
      .ok rollbackExecution := rfl
  refine ⟨_, hExecute, ?_, fun received hArrives => ?_⟩
  · refine exists_arrives (executed_of_execute (by decide) hExecute) 2 fun cls h => ?_
    cases h
    exact ⟨_, rfl⟩
  · exact handler_identity (by decide) (by decide) ⟨rfl, by rintro _ ⟨⟩⟩
      (.inr getsStreamId_rollbackExecution) hExecute hArrives

/-- Where its class is not registered, the command arrives as a plain object
without the accessor, and the handler is given a random stream id. -/
theorem unregistered_stream_lost :
    execute .new (some "node") ⟨"c2", by decide⟩ ⟨"s2", by decide⟩ rollback =
        .ok rollbackExecution ∧
      YieldsStreamId rollbackExecution ∧
      ∃ received, Arrives (fun _ => none) [] rollbackExecution received ∧
        (handlerOptions ⟨"s3", by decide⟩ received).streamId ≠
          rollbackExecution.response.streamId := by
  have hParse : parseEvent (fun _ => none) (.registered []) 0 (serializeEvent sentRollback) =
      .ok (.plain (.obj (plainMembers sentRollback.fields))) :=
    parseEvent_eq (by decide)
  refine ⟨rfl, yieldsStreamId_rollbackExecution, _, .parsed rfl hParse, fun hSame => ?_⟩
  change FieldValue.json (.str "s3") = FieldValue.json (.str "s1") at hSame
  injection hSame with hText
  injection hText with hText
  exact absurd hText (by decide)

end RollbackCommand

end Moirae.CommandBus
