import Moirae.Core.MemoryCache
import Moirae.Runs.Simulation
import Moirae.Text.Json

/-! What the caches share: values are turned into JSON texts before a handler
gets them, and texts that a handler returns are parsed. -/
namespace Moirae

/-- The values of the language, of which JSON values are some. -/
class JsValue (Num : outParam Type) (Value : Type) where
  ofJson : Json Num → Value
  truthy : Value → Bool

/-- Without a transform the values are the JSON values themselves. -/
instance {Num : Type} [JsonNumber Num] : JsValue Num (Json Num) where
  ofJson := id
  truthy
    | .null => false
    | .bool b => b
    | .num n => !JsonNumber.isZero n
    | .str text => text ≠ ""
    | .arr _ => true
    | .obj _ => true

/-- The handlers of a cache. A rejected promise is an error; the state may have
changed before. -/
structure BaseCache (State : Type) where
  dropKey (key : String) : State → State × Except Thrown Unit
  dropSet (key : String) : State → State × Except Thrown Unit
  handleAddToSet (key value : String) : State → State × Except Thrown Bool
  handleGetKey (key : String) : State → State × Except Thrown (Option String)
  handleReadFromSet (key : String) : State → State × Except Thrown (List String)
  handleRemoveFromSet (key value : String) : State → State × Except Thrown Bool
  handleSetKey (key value : String) : State → State × Except Thrown Bool

/-- A call of the cache. `options.transform` is given with the calls that take
it. -/
inductive CacheCall (Num Value : Type)
  | dropKey (key : String)
  | getKey (key : String) (transform : Option (Json Num → Value))
  | setKey (key : String) (value : Json Num)
  | addToSet (key : String) (value : Json Num)
  | dropSet (key : String)
  | readFromSet (key : String) (transform : Option (Json Num → Value))
  | removeFromSet (key : String) (value : Json Num)

/-- What the promise of a call resolves with. -/
inductive CacheAnswer (Value : Type)
  | void
  | flag (b : Bool)
  | found (value : Option Value)
  | members (values : List Value)

/-- Equal, the members of a set up to their order. -/
def CacheAnswer.Agree {Value : Type} : CacheAnswer Value → CacheAnswer Value → Prop
  | .members values, .members values' => values.Perm values'
  | answer, answer' => answer = answer'

/-- Both promises resolve with agreeing results, or both reject with the same
error. -/
def SameOutcome {Result : Type} (Agree : Result → Result → Prop) :
    Except Thrown Result → Except Thrown Result → Prop
  | .ok result, .ok result' => Agree result result'
  | .error thrown, .error thrown' => thrown = thrown'
  | _, _ => False

namespace BaseCache

variable {Num Value State : Type} [JsonNumber Num] [JsValue Num Value]

/-- `options.transform?.(value) || value`. -/
def transformed (transform : Option (Json Num → Value)) (value : Json Num) : Value :=
  match transform.map (· value) with
  | none => JsValue.ofJson value
  | some result => if JsValue.truthy result then result else JsValue.ofJson value

def parseRaw (transform : Option (Json Num → Value)) (raw : String) : Except Thrown Value :=
  match Json.parse raw with
  | none => .error (.error "SyntaxError" "Unexpected token in JSON")
  | some value => .ok (transformed transform value)

def addToSet (cache : BaseCache State) (key : String) (value : Json Num) :
    State → State × Except Thrown Bool :=
  cache.handleAddToSet key value.stringify

/-- A text that is missing or empty is no value. -/
def parseKey (transform : Option (Json Num → Value)) :
    Option String → Except Thrown (Option Value)
  | none => .ok none
  | some raw => if raw = "" then .ok none else (parseRaw transform raw).map some

def getKey (cache : BaseCache State) (key : String) (transform : Option (Json Num → Value))
    (state : State) : State × Except Thrown (Option Value) :=
  (cache.handleGetKey key state).map id (·.bind (parseKey transform))

def readFromSet (cache : BaseCache State) (key : String)
    (transform : Option (Json Num → Value)) (state : State) :
    State × Except Thrown (List Value) :=
  (cache.handleReadFromSet key state).map id (·.bind (·.mapM (parseRaw transform)))

def removeFromSet (cache : BaseCache State) (key : String) (value : Json Num) :
    State → State × Except Thrown Bool :=
  cache.handleRemoveFromSet key value.stringify

/-- The promise of the handler is not awaited. -/
def setKey (cache : BaseCache State) (key : String) (value : Json Num) (state : State) :
    State × Except Thrown Bool :=
  ((cache.handleSetKey key value.stringify state).1, .ok true)

/-- One call and the outcome of its promise. -/
def perform (cache : BaseCache State) :
    CacheCall Num Value → State → State × Except Thrown (CacheAnswer Value)
  | .dropKey key, state => (cache.dropKey key state).map id (·.map fun _ => .void)
  | .getKey key transform, state => (cache.getKey key transform state).map id (·.map .found)
  | .setKey key value, state => (cache.setKey key value state).map id (·.map .flag)
  | .addToSet key value, state => (cache.addToSet key value state).map id (·.map .flag)
  | .dropSet key, state => (cache.dropSet key state).map id (·.map fun _ => .void)
  | .readFromSet key transform, state =>
      (cache.readFromSet key transform state).map id (·.map .members)
  | .removeFromSet key value, state => (cache.removeFromSet key value state).map id (·.map .flag)

omit [JsonNumber Num] [JsValue Num Value] in
theorem sameOutcome_map {Result : Type} (Agree : Result → Result → Prop)
    {Agree' : CacheAnswer Value → CacheAnswer Value → Prop} (f : Result → CacheAnswer Value)
    (hf : ∀ result result', Agree result result' → Agree' (f result) (f result'))
    {outcome outcome' : Except Thrown Result} (h : SameOutcome Agree outcome outcome') :
    SameOutcome Agree' (outcome.map f) (outcome'.map f) := by
  cases outcome <;> cases outcome'
  · exact h
  · exact h.elim
  · exact h.elim
  · exact hf _ _ h

/-- Every text that cannot be parsed raises the same error, so the order of the
texts only matters to the order of the values. -/
theorem mapM_parseRaw_perm (transform : Option (Json Num → Value)) {texts texts' : List String}
    (h : texts.Perm texts') :
    SameOutcome List.Perm (texts.mapM (parseRaw transform))
      (texts'.mapM (parseRaw transform)) := by
  have hFail : ∀ raw reason, parseRaw transform raw = .error reason →
      reason = .error "SyntaxError" "Unexpected token in JSON" := by
    intro raw reason hRaw
    unfold parseRaw at hRaw
    cases hParse : (Json.parse raw : Option (Json Num)) with
    | none =>
        rw [hParse] at hRaw
        exact (Except.error.inj hRaw).symm
    | some value =>
        rw [hParse] at hRaw
        cases hRaw
  rcases Traversal.mapM_perm hFail h with ⟨ys, ys', hLeft, hRight, hPerm⟩ | ⟨hLeft, hRight⟩
  · rw [hLeft, hRight]
    exact hPerm
  · rw [hLeft, hRight]
    rfl

/-- What two caches have to agree on for one call of both: the outcome of the
handler, where the promise of the handler is awaited. -/
def HandlersAgree {A B : Type} (left : BaseCache A) (right : BaseCache B) (a : A) (b : B) :
    CacheCall Num Value → Prop
  | .dropKey key => (left.dropKey key a).2 = (right.dropKey key b).2
  | .getKey key _ => (left.handleGetKey key a).2 = (right.handleGetKey key b).2
  | .setKey _ _ => True
  | .addToSet key value =>
      (left.handleAddToSet key value.stringify a).2 =
        (right.handleAddToSet key value.stringify b).2
  | .dropSet key => (left.dropSet key a).2 = (right.dropSet key b).2
  | .readFromSet key _ =>
      SameOutcome List.Perm (left.handleReadFromSet key a).2 (right.handleReadFromSet key b).2
  | .removeFromSet key value =>
      (left.handleRemoveFromSet key value.stringify a).2 =
        (right.handleRemoveFromSet key value.stringify b).2

omit [JsonNumber Num] [JsValue Num Value] in
theorem sameOutcome_refl (outcome : Except Thrown (CacheAnswer Value)) :
    SameOutcome CacheAnswer.Agree outcome outcome := by
  match outcome with
  | .error _ => exact (rfl : _ = _)
  | .ok .void => exact (rfl : _ = _)
  | .ok (.flag _) => exact (rfl : _ = _)
  | .ok (.found _) => exact (rfl : _ = _)
  | .ok (.members values) => exact List.Perm.refl values

/-- Handlers that agree on a call make the promises of the caches agree. -/
theorem perform_sameOutcome {A B : Type} {left : BaseCache A} {right : BaseCache B} {a : A}
    {b : B} {call : CacheCall Num Value} (h : HandlersAgree left right a b call) :
    SameOutcome CacheAnswer.Agree (left.perform call a).2 (right.perform call b).2 := by
  cases call with
  | dropKey key =>
      rw [perform, perform, Prod.map_snd, Prod.map_snd, (h : (left.dropKey key a).2 = _)]
      exact sameOutcome_refl _
  | getKey key transform =>
      rw [perform, perform, Prod.map_snd, Prod.map_snd, getKey, getKey, Prod.map_snd,
        Prod.map_snd, (h : (left.handleGetKey key a).2 = _)]
      exact sameOutcome_refl _
  | setKey key value => exact sameOutcome_refl _
  | addToSet key value =>
      rw [perform, perform, Prod.map_snd, Prod.map_snd, addToSet, addToSet,
        (h : (left.handleAddToSet key value.stringify a).2 = _)]
      exact sameOutcome_refl _
  | dropSet key =>
      rw [perform, perform, Prod.map_snd, Prod.map_snd, (h : (left.dropSet key a).2 = _)]
      exact sameOutcome_refl _
  | readFromSet key transform =>
      refine sameOutcome_map List.Perm .members (fun _ _ hPerm => hPerm) ?_
      have hTexts : SameOutcome List.Perm (left.handleReadFromSet key a).2
        (right.handleReadFromSet key b).2 := h
      change SameOutcome List.Perm ((left.handleReadFromSet key a).2.bind _)
        ((right.handleReadFromSet key b).2.bind _)
      cases hLeft : (left.handleReadFromSet key a).2 <;>
        cases hRight : (right.handleReadFromSet key b).2
      all_goals rw [hLeft, hRight] at hTexts
      · exact hTexts
      · exact hTexts.elim
      · exact hTexts.elim
      · exact mapM_parseRaw_perm transform hTexts
  | removeFromSet key value =>
      rw [perform, perform, Prod.map_snd, Prod.map_snd, removeFromSet, removeFromSet,
        (h : (left.handleRemoveFromSet key value.stringify a).2 = _)]
      exact sameOutcome_refl _

/-- The state a call leaves is the one its handler leaves. -/
theorem perform_fst (cache : BaseCache State) (call : CacheCall Num Value) (state : State) :
    (cache.perform call state).1 =
      match call with
      | .dropKey key => (cache.dropKey key state).1
      | .getKey key _ => (cache.handleGetKey key state).1
      | .setKey key value => (cache.handleSetKey key value.stringify state).1
      | .addToSet key value => (cache.handleAddToSet key value.stringify state).1
      | .dropSet key => (cache.dropSet key state).1
      | .readFromSet key _ => (cache.handleReadFromSet key state).1
      | .removeFromSet key value => (cache.handleRemoveFromSet key value.stringify state).1 := by
  cases call <;> rfl

end BaseCache

/-- `MemoryCache` with the handlers it gives to `BaseCache`; none of its
promises rejects. -/
def MemoryCache.handlers : BaseCache MemoryCache where
  dropKey key cache := (cache.dropKey key, .ok ())
  dropSet key cache := (cache.dropSet key, .ok ())
  handleAddToSet key value cache := (cache.handleAddToSet key value).map id .ok
  handleGetKey key cache := (cache, .ok (cache.handleGetKey key))
  handleReadFromSet key cache := (cache, .ok (cache.handleReadFromSet key))
  handleRemoveFromSet key value cache := (cache.handleRemoveFromSet key value).map id .ok
  handleSetKey key value cache := (cache.handleSetKey key value, .ok true)

section Strings

variable {Num : Type} [JsonNumber Num]

theorem Json.stringify_str (text : String) :
    (Json.str text : Json Num).stringify = JsonString.stringify text := by
  simp [Json.stringify, Json.tokens, Json.Token.chars]

/-- The operations on sets of strings, which sagas and aggregate roots use, are
those of the cache on values that are strings. -/
theorem MemoryCache.addToSet_str (cache : MemoryCache) (key value : String) :
    MemoryCache.handlers.addToSet key (.str value : Json Num) cache =
      (cache.addToSet key value).map id .ok := by
  rw [BaseCache.addToSet, Json.stringify_str]
  rfl

theorem MemoryCache.removeFromSet_str (cache : MemoryCache) (key value : String) :
    MemoryCache.handlers.removeFromSet key (.str value : Json Num) cache =
      (cache.removeFromSet key value).map id .ok := by
  rw [BaseCache.removeFromSet, Json.stringify_str]
  rfl

end Strings

end Moirae
