import Moirae.Core.AwaitResponse
import Moirae.Core.Publication
import Moirae.Core.TransactionChain

/-! The query bus. A query of a local domain is answered by its handler, any
other one by the response of a worker. -/
namespace Moirae.QueryBus

open AwaitResponse EventCodec
open TransactionChain (RandomUUID)

variable {Num Result : Type}

structure ExecuteOptions where
  /-- `throwError`, which is a keyword here. -/
  throwsError : Option Bool

/-- What `executeLocal` returns and a response carries: a result, or the error
that the handler failed with. -/
abbrev Payload (Result : Type) := Result ⊕ Thrown

/-- `payload instanceof Error`; a handler may return an error too. -/
def instanceofError (isError : Result → Bool) : Payload Result → Bool
  | .inl res => isError res
  | .inr (.error _ _) => true
  | .inr (.value _) => false

/-- What the payload is when the handler ends in this way. -/
def payload : Except Thrown Result → Payload Result
  | .ok res => .inl res
  | .error err => .inr err

/-- The node that executes a query, and the one whose worker gets it otherwise.
A worker is called without options. -/
structure Nodes (Num Result : Type) where
  nodeId : String
  handlerMap : KeyedMap String (Handler (Instance Num) (Option ExecuteOptions) Result)
  workerHandlerMap : KeyedMap String (Handler (Instance Num) (Option ExecuteOptions) Result)
  /-- The classes that are registered where the worker is. -/
  classes : List (EventClass Num)
  lenient : Json Num → Option DateTime
  isError : Result → Bool
  stringifyResponse : ResponseWrapper (Payload Result) → String
  parseResponse : String → Except Thrown (ResponseWrapper (Payload Result))

section Execute

variable [JsonNumber Num]

/-- `query.$responseKey = _key`. -/
def keyed (key : RandomUUID) (query : Instance Num) : Except Thrown (Instance Num) :=
  query.assign "$responseKey" (.json (.str key.val))

/-- The query as a worker gets it. -/
def Delivered (nodes : Nodes Num Result) (key : RandomUUID) (query received : Instance Num) :
    Prop :=
  ∃ asked sent publication draw parsed, keyed key query = .ok asked ∧
    publish (some nodes.nodeId) asked = .ok (sent, publication) ∧
    parseEvent nodes.lenient (.registered nodes.classes) draw publication.eventString =
      .ok parsed ∧
    received = parsed.received

/-- The response that the worker closure sends, if it comes to that. -/
def workerResponse
    (handlerMap : KeyedMap String (Handler (Instance Num) (Option ExecuteOptions) Result))
    (query : Instance Num) : Option (ResponseWrapper (Payload Result)) :=
  match BaseBus.executeLocal handlerMap query none with
  | .error _ => none
  | .ok res =>
      if BasePublisher.responds query then some
        { payload := res
          responseKey := (Respondable.responseKey query).getD ""
          routingKey := (Respondable.routingKey query).getD "" }
      else none

/-- `awaitResponse` resolves with this, in a run with any other queries and
responses. The key is random, so only this query is answered under it. -/
def Awaited (nodes : Nodes Num Result) (key : RandomUUID) (query : Instance Num)
    (external : Option (ResponseWrapper (Payload Result))) : Prop :=
  ∃ actions, ∃ w : World (Payload Result), ∃ i : Nat,
    Runs.exec (World.step nodes.parseResponse) .new actions = some w ∧
    w.calls[i]? = some ⟨key.val, .resolved external⟩ ∧
    ∀ r ∈ w.stored, r.responseKey = key.val → ∃ received response,
      Delivered nodes key query received ∧
        workerResponse nodes.workerHandlerMap received = some response ∧
        nodes.parseResponse (nodes.stringifyResponse response) = .ok r

/-- The end of `execute` once the response is there. -/
def settle (isError : Result → Bool) (options : ExecuteOptions) :
    Option (ResponseWrapper (Payload Result)) → Except (Payload Result) (Payload Result)
  | none => .error (.inr (.error "TypeError"
      "Cannot read properties of undefined (reading 'payload')"))
  | some external =>
      if instanceofError isError external.payload && options.throwsError.getD false then
        .error external.payload
      else .ok external.payload

/-- How a call of `execute` ends: with a value, or with what it throws. -/
inductive Executes (nodes : Nodes Num Result) (domainsStore : DomainStore) (key : RandomUUID)
    (query : Instance Num) (options : ExecuteOptions) :
    Except (Payload Result) (Payload Result) → Prop
  | handled {asked : Instance Num} {res : Payload Result} :
      keyed key query = .ok asked → executesLocally domainsStore asked = true →
      BaseBus.executeLocal nodes.handlerMap asked (some options) = .ok res →
      Executes nodes domainsStore key query options (.ok res)
  | missing {asked : Instance Num} {err : Thrown} :
      keyed key query = .ok asked → executesLocally domainsStore asked = true →
      BaseBus.executeLocal nodes.handlerMap asked (some options) = .error err →
      Executes nodes domainsStore key query options (.error (.inr err))
  | answered {asked sent : Instance Num} {publication : Publication Num}
      {external : Option (ResponseWrapper (Payload Result))} :
      keyed key query = .ok asked → executesLocally domainsStore asked = false →
      publish (some nodes.nodeId) asked = .ok (sent, publication) →
      Awaited nodes key query external →
      Executes nodes domainsStore key query options (settle nodes.isError options external)

/-- The handler of the query ends in this way. -/
def Ends (handlerMap : KeyedMap String (Handler (Instance Num) (Option ExecuteOptions) Result))
    (query : Instance Num) (options : Option ExecuteOptions) (outcome : Except Thrown Result) :
    Prop :=
  ∃ handler, handlerMap.get (Respondable.name query) = some handler ∧
    handler query options = outcome

end Execute

/-- The caller cannot see where the query was handled; with `throwError` it is
told by a throw that the handler failed. -/
def Agrees (options : ExecuteOptions) (outcome : Except Thrown Result)
    (home away : Except (Payload Result) (Payload Result)) : Prop :=
  home = away ∧ (options.throwsError = some true →
    ((∃ raised, home = .error raised) ↔ ∃ err, outcome = .error err) ∧
      ((∃ raised, away = .error raised) ↔ ∃ err, outcome = .error err))

section Routes

variable [JsonNumber Num] {nodes : Nodes Num Result} {home away : DomainStore}
  {key : RandomUUID} {query asked : Instance Num} {options : ExecuteOptions}
  {outcome : Except Thrown Result} {here there : Except (Payload Result) (Payload Result)}

theorem executeLocal_of_ends
    {handlerMap : KeyedMap String (Handler (Instance Num) (Option ExecuteOptions) Result)}
    {given : Option ExecuteOptions} (h : Ends handlerMap query given outcome) :
    BaseBus.executeLocal handlerMap query given = .ok (payload outcome) := by
  obtain ⟨handler, hGet, rfl⟩ := h
  rw [BaseBus.executeLocal, hGet]
  dsimp only
  cases handler query given <;> rfl

theorem executes_home (hKeyed : keyed key query = .ok asked)
    (hHome : executesLocally home asked = true)
    (hEnds : Ends nodes.handlerMap asked (some options) outcome)
    (h : Executes nodes home key query options here) : here = .ok (payload outcome) := by
  have hLocal := executeLocal_of_ends hEnds
  cases h with
  | handled hAsked _ hRes =>
      obtain rfl := Except.ok.inj (hKeyed.symm.trans hAsked)
      rw [hLocal] at hRes
      rw [Except.ok.inj hRes]
  | missing hAsked _ hErr =>
      obtain rfl := Except.ok.inj (hKeyed.symm.trans hAsked)
      rw [hLocal] at hErr
      cases hErr
  | answered hAsked hAway =>
      obtain rfl := Except.ok.inj (hKeyed.symm.trans hAsked)
      rw [hHome] at hAway
      cases hAway

/-- What is awaited is the response of the worker. -/
theorem payload_awaited {external : Option (ResponseWrapper (Payload Result))}
    (hCodec : ∀ response r,
      nodes.parseResponse (nodes.stringifyResponse response) = .ok r →
        r.payload = response.payload)
    (hEnds : ∀ received, Delivered nodes key query received →
      Ends nodes.workerHandlerMap received none outcome)
    (h : Awaited nodes key query external) :
    ∃ r, external = some r ∧ r.payload = payload outcome := by
  obtain ⟨actions, w, i, hRun, hCall, hOwn⟩ := h
  have hSound : w.Sound := Runs.invariant_of_step World.Sound
    (fun _ _ _ hSound hStep => hSound.step hStep) World.sound_new hRun
  obtain ⟨r, hMem, rfl, hKey⟩ :=
    hSound.resolvedRight (List.mem_of_getElem? hCall) external rfl
  obtain ⟨received, response, hDelivered, hResponse, hParsed⟩ := hOwn r hMem hKey
  refine ⟨r, rfl, (hCodec response r hParsed).trans ?_⟩
  rw [workerResponse, executeLocal_of_ends (hEnds received hDelivered)] at hResponse
  simp only [Option.ite_none_right_eq_some] at hResponse
  rw [← Option.some.inj hResponse.2]

theorem executes_away
    (hCodec : ∀ response r,
      nodes.parseResponse (nodes.stringifyResponse response) = .ok r →
        r.payload = response.payload)
    (hKeyed : keyed key query = .ok asked) (hAway : executesLocally away asked = false)
    (hEnds : ∀ received, Delivered nodes key query received →
      Ends nodes.workerHandlerMap received none outcome)
    (h : Executes nodes away key query options there) :
    there = if instanceofError nodes.isError (payload outcome) &&
        options.throwsError.getD false then .error (payload outcome)
      else .ok (payload outcome) := by
  cases h with
  | handled hAsked hHome | missing hAsked hHome =>
      obtain rfl := Except.ok.inj (hKeyed.symm.trans hAsked)
      rw [hHome] at hAway
      cases hAway
  | answered _ _ _ hAwaited =>
      obtain ⟨r, rfl, hPayload⟩ := payload_awaited hCodec hEnds hAwaited
      rw [settle, hPayload]

/-- The two routes agree unless `throwError` is set and the payload is an error,
which only the remote route throws. -/
theorem routes_agree_iff
    (hCodec : ∀ response r,
      nodes.parseResponse (nodes.stringifyResponse response) = .ok r →
        r.payload = response.payload)
    (hError : ∀ err, outcome = .error err → ∃ name message, err = .error name message)
    (hKeyed : keyed key query = .ok asked)
    (hHome : executesLocally home asked = true) (hAway : executesLocally away asked = false)
    (hEndsHome : Ends nodes.handlerMap asked (some options) outcome)
    (hEndsAway : ∀ received, Delivered nodes key query received →
      Ends nodes.workerHandlerMap received none outcome)
    (hHere : Executes nodes home key query options here)
    (hThere : Executes nodes away key query options there) :
    Agrees options outcome here there ↔
      ¬ (options.throwsError = some true ∧
        instanceofError nodes.isError (payload outcome) = true) := by
  rw [executes_home hKeyed hHome hEndsHome hHere,
    executes_away hCodec hKeyed hAway hEndsAway hThere]
  constructor
  · rintro ⟨hSame, -⟩ ⟨hThrow, hPayload⟩
    rw [hThrow, hPayload] at hSame
    cases hSame
  · intro hNot
    have hReturned : (instanceofError nodes.isError (payload outcome) &&
        options.throwsError.getD false) = false := by
      rcases hThrow : options.throwsError with _ | _ | _
      · exact Bool.and_false _
      · exact Bool.and_false _
      · rw [Option.getD_some, Bool.and_true]
        exact Bool.eq_false_iff.mpr fun hPayload => hNot ⟨hThrow, hPayload⟩
    rw [hReturned, if_neg Bool.false_ne_true]
    refine ⟨rfl, fun hThrow => ?_⟩
    -- A handler that failed has an error for its payload.
    have hNotFailed : ¬ ∃ err, outcome = .error err := by
      rintro ⟨err, rfl⟩
      obtain ⟨name, message, rfl⟩ := hError err rfl
      exact hNot ⟨hThrow, rfl⟩
    have hNotRaised : ¬ ∃ raised,
        (.ok (payload outcome) : Except (Payload Result) (Payload Result)) = .error raised := by
      rintro ⟨raised, ⟨⟩⟩
    exact ⟨iff_of_false hNotRaised hNotFailed, iff_of_false hNotRaised hNotFailed⟩

end Routes

section FailingHandler

def boom : Thrown := .error "Error" "boom"

def failingHandlers :
    KeyedMap String (Handler (Instance Int) (Option ExecuteOptions) Unit) :=
  ⟨[("TestQuery", fun _ _ => .error boom)], by simp⟩

def failedResponse : ResponseWrapper (Payload Unit) := ⟨.inr boom, "k1", "node"⟩

def failedResponseText : String :=
  "\x7b\"payload\":\x7b\"message\":\"boom\"\x7d,\"responseKey\":\"k1\"," ++
    "\"routingKey\":\"node\",\"payloadType\":\"Error\"\x7d"

def failingNodes : Nodes Int Unit where
  nodeId := "node"
  handlerMap := failingHandlers
  workerHandlerMap := failingHandlers
  classes := [testQuery]
  lenient _ := none
  isError _ := false
  stringifyResponse response := if response = failedResponse then failedResponseText else ""
  parseResponse text :=
    if text = failedResponseText then .ok failedResponse
    else .error (.error "SyntaxError" "Unexpected end of JSON input")

def ordersQuery : Instance Int where
  cls := testQuery
  fields := (testQueryFields 1).set "$executionDomain" (.json (.str "orders"))

def askedOrders : Instance Int :=
  { ordersQuery with fields := ordersQuery.fields.set "$responseKey" (.json (.str "k1")) }

def sentOrders : Instance Int :=
  { askedOrders with fields := askedOrders.fields.set "$routingKey" (.json (.str "node")) }

def orders : DomainStore := DomainStore.new.add ["orders"]

theorem preserves_failingNodes (response r : ResponseWrapper (Payload Unit))
    (h : failingNodes.parseResponse (failingNodes.stringifyResponse response) = .ok r) :
    r.payload = response.payload := by
  by_cases hFailed : response = failedResponse
  · subst hFailed
    cases h
    rfl
  · simp only [failingNodes, if_neg hFailed] at h
    cases h

theorem keyed_ordersQuery : keyed ⟨"k1", by decide⟩ ordersQuery = .ok askedOrders := rfl

theorem executesLocally_orders : executesLocally orders askedOrders = true := rfl

theorem executesLocally_new : executesLocally .new askedOrders = false := rfl

theorem ends_askedOrders (options : Option ExecuteOptions) :
    Ends failingNodes.handlerMap askedOrders options (.error boom) := ⟨_, rfl, rfl⟩

theorem publish_askedOrders : publish (some "node") askedOrders =
    .ok (sentOrders, ⟨serializeEvent sentOrders, .json (.str "orders")⟩) := rfl

theorem ends_delivered {received : Instance Int}
    (h : Delivered failingNodes ⟨"k1", by decide⟩ ordersQuery received) :
    Ends failingHandlers received none (.error boom) := by
  obtain ⟨asked, sent, publication, draw, parsed, hKeyed, hPublish, hParse, rfl⟩ := h
  obtain rfl := Except.ok.inj (keyed_ordersQuery.symm.trans hKeyed)
  cases publish_askedOrders.symm.trans hPublish
  have hName : parsed.received.property "$name" = .json (.str "TestQuery") :=
    property_received (by decide) hParse rfl (by decide)
  refine ⟨fun _ _ => .error boom, ?_, rfl⟩
  change failingHandlers.get ((parsed.received.property "$name").text.getD "") = _
  rw [hName]
  rfl

theorem executes_orders (options : ExecuteOptions) :
    Executes failingNodes orders ⟨"k1", by decide⟩ ordersQuery options (.ok (.inr boom)) :=
  .handled keyed_ordersQuery rfl rfl

/-- The response arrives while the query awaits it. -/
theorem awaited_orders :
    Awaited failingNodes ⟨"k1", by decide⟩ ordersQuery (some failedResponse) := by
  refine ⟨[.execute "k1", .awaitResponse 0, .handleResponse failedResponseText, .resume 0,
    .finish 0], _, 0, rfl, rfl, fun r hr _ => ?_⟩
  obtain rfl := List.mem_singleton.mp hr
  refine ⟨_, failedResponse, ⟨askedOrders, sentOrders, _, 2, _, keyed_ordersQuery,
    publish_askedOrders, parseEvent_eq (by decide), rfl⟩, rfl, rfl⟩

theorem executes_elsewhere (options : ExecuteOptions) :
    Executes failingNodes .new ⟨"k1", by decide⟩ ordersQuery options
      (settle failingNodes.isError options (some failedResponse)) :=
  .answered keyed_ordersQuery rfl publish_askedOrders awaited_orders

/-- With `throwError`, the same failure is a value on one node and is thrown on
the other. -/
theorem not_agrees_failingNodes :
    Ends failingNodes.handlerMap askedOrders (some ⟨some true⟩) (.error boom) ∧
      (∀ received, Delivered failingNodes ⟨"k1", by decide⟩ ordersQuery received →
        Ends failingNodes.workerHandlerMap received none (.error boom)) ∧
      ∃ here there,
        Executes failingNodes orders ⟨"k1", by decide⟩ ordersQuery ⟨some true⟩ here ∧
        Executes failingNodes .new ⟨"k1", by decide⟩ ordersQuery ⟨some true⟩ there ∧
        ¬ Agrees ⟨some true⟩ (.error boom) here there := by
  refine ⟨ends_askedOrders _, fun _ => ends_delivered, _, _, executes_orders _,
    executes_elsewhere _, ?_⟩
  rintro ⟨⟨⟩, -⟩

theorem routes_agree_iff_failingNodes :
    Agrees ⟨none⟩ (.error boom) (.ok (.inr boom))
        (settle failingNodes.isError ⟨none⟩ (some failedResponse)) ↔
      ¬ ((none : Option Bool) = some true ∧
        instanceofError failingNodes.isError (payload (.error boom)) = true) :=
  routes_agree_iff preserves_failingNodes (fun _ h => ⟨"Error", "boom", by cases h; rfl⟩)
    keyed_ordersQuery executesLocally_orders executesLocally_new (ends_askedOrders _)
    (fun _ => ends_delivered) (executes_orders _) (executes_elsewhere _)

end FailingHandler

end Moirae.QueryBus
