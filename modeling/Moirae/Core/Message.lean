import Moirae.Core.BasePublisher

/-! A message with the fields the publishers read, for concrete runs. -/
namespace Moirae

structure Message where
  name : String
  uuid : String
  disableResponse : Bool
  responseKey : Option String
  routingKey : Option String
  deriving DecidableEq, Repr

instance : Respondable Message where
  name := Message.name
  uuid := Message.uuid
  disableResponse := Message.disableResponse
  responseKey := Message.responseKey
  routingKey := Message.routingKey
  setRoutingKey nodeId message := { message with routingKey := nodeId }

/-- The codec that knows the texts of finitely many messages. -/
def EventProcessor.ofTexts {Evt : Type} [DecidableEq Evt] (texts : List (Evt × String)) :
    EventProcessor Evt where
  serializeEvent message := match texts.find? (·.1 = message) with
    | some entry => .ok entry.2
    | none => .error (.error "TypeError" "Converting circular structure to JSON")
  parseEvent text := match texts.find? (·.2 = text) with
    | some entry => .ok entry.1
    | none => .error (.error "SyntaxError" "Unexpected token in JSON")

section OfTexts

variable {Evt : Type} [DecidableEq Evt] {texts : List (Evt × String)}

/-- It writes the texts it knows. -/
theorem EventProcessor.mem_of_serializeEvent {evt : Evt} {text : String}
    (h : (ofTexts texts).serializeEvent evt = .ok text) : ∃ entry ∈ texts, entry.2 = text := by
  change (match texts.find? (·.1 = evt) with
    | some entry => Except.ok entry.2
    | none => Except.error _) = Except.ok text at h
  cases hFind : texts.find? (·.1 = evt) with
  | none => simp [hFind] at h
  | some entry =>
      rw [hFind] at h
      exact ⟨entry, List.mem_of_find?_eq_some hFind, Except.ok.inj h⟩

theorem EventProcessor.ofTexts_writesText (h : ∀ entry ∈ texts, entry.2 ≠ "") :
    (ofTexts texts).WritesText := by
  intro evt text hText
  obtain ⟨entry, hMem, rfl⟩ := mem_of_serializeEvent hText
  exact h entry hMem

end OfTexts

/-- An event as a test would send it: a plain one, and one with all it takes
to be answered. -/
def helloSaid : Message := ⟨"HelloSaidEvent", "e1", false, none, none⟩

def worldSaid : Message := ⟨"WorldSaidEvent", "e2", false, none, none⟩

def sayHello : Message := ⟨"SayHelloCommand", "c1", false, some "r1", some "node"⟩

def helloSaidText : String :=
  "\x7b\"$name\":\"HelloSaidEvent\",\"$uuid\":\"e1\"\x7d"

def worldSaidText : String :=
  "\x7b\"$name\":\"WorldSaidEvent\",\"$uuid\":\"e2\"\x7d"

def sayHelloText : String :=
  "\x7b\"$name\":\"SayHelloCommand\",\"$uuid\":\"c1\",\"$responseKey\":\"r1\"," ++
    "\"$routingKey\":\"node\"\x7d"

/-- The three messages and their JSON texts. -/
def sampleCodec : EventProcessor Message :=
  .ofTexts [(helloSaid, helloSaidText), (worldSaid, worldSaidText), (sayHello, sayHelloText)]

theorem sampleCodec_writesText : sampleCodec.WritesText :=
  EventProcessor.ofTexts_writesText (by decide)

/-- The same, but the class of the hello event has a constructor that throws
without arguments. -/
def brittleCodec : EventProcessor Message where
  serializeEvent := sampleCodec.serializeEvent
  parseEvent text :=
    if text = helloSaidText then
      .error (.error "TypeError" "Cannot read properties of undefined (reading 'name')")
    else sampleCodec.parseEvent text

/-- It writes texts as the other one does. -/
theorem brittleCodec_writesText : brittleCodec.WritesText :=
  sampleCodec_writesText

end Moirae
