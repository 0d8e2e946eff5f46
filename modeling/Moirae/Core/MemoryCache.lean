import Mathlib.Logic.Function.Basic
import Moirae.Collections.KeyedMap
import Moirae.Collections.Traversal
import Moirae.Collections.ValueSet
import Moirae.Core.BasePublisher
import Moirae.Text.JsonString

/-! The in-memory cache. Values are kept as JSON texts; the sets hold strings
only, which is all the library puts there. -/
namespace Moirae

structure MemoryCache where
  keyValue : KeyedMap String String
  sets : KeyedMap String (ValueSet String)

namespace MemoryCache

/-- `new MemoryCache()`. -/
def new : MemoryCache := ⟨.empty, .empty⟩

def dropKey (cache : MemoryCache) (key : String) : MemoryCache :=
  { cache with keyValue := cache.keyValue.delete key }

def dropSet (cache : MemoryCache) (key : String) : MemoryCache :=
  { cache with sets := cache.sets.delete key }

/-- The set under the key, which is empty as long as there is none. -/
def setOf (cache : MemoryCache) (key : String) : ValueSet String :=
  (cache.sets.get key).getD .empty

/-- Returns whether the value is new. -/
def handleAddToSet (cache : MemoryCache) (key value : String) : MemoryCache × Bool :=
  ({ cache with sets := cache.sets.set key ((cache.setOf key).add value) },
    !(cache.setOf key).has value)

def handleGetKey (cache : MemoryCache) (key : String) : Option String :=
  cache.keyValue.get key

def handleReadFromSet (cache : MemoryCache) (key : String) : List String :=
  (cache.setOf key).values

def handleRemoveFromSet (cache : MemoryCache) (key value : String) : MemoryCache × Bool :=
  match cache.sets.get key with
  | none => (cache, false)
  | some set => ({ cache with sets := cache.sets.set key (set.delete value) }, set.has value)

def handleSetKey (cache : MemoryCache) (key value : String) : MemoryCache :=
  { cache with keyValue := cache.keyValue.set key value }

def addToSet (cache : MemoryCache) (key value : String) : MemoryCache × Bool :=
  handleAddToSet cache key (JsonString.stringify value)

def removeFromSet (cache : MemoryCache) (key value : String) : MemoryCache × Bool :=
  handleRemoveFromSet cache key (JsonString.stringify value)

/-- `options.transform?.(parsed) || parsed`. -/
def transformed (transform : Option (String → String)) (parsed : String) : String :=
  match transform.map (· parsed) with
  | none => parsed
  | some value => if value = "" then parsed else value

def parseRaw (transform : Option (String → String)) (raw : String) : Except Thrown String :=
  match JsonString.parse raw with
  | none => .error (.error "SyntaxError" "Unexpected token in JSON")
  | some parsed => .ok (transformed transform parsed)

/-- What `readFromSet` makes of the texts it was given by `handleReadFromSet`. -/
def parseSet (transform : Option (String → String)) (rawList : List String) :
    Except Thrown (List String) :=
  rawList.mapM (parseRaw transform)

def readFromSet (cache : MemoryCache) (key : String)
    (transform : Option (String → String)) : Except Thrown (List String) :=
  parseSet transform (cache.handleReadFromSet key)

/-- The abstract view of the sets: what was added under each key. -/
def Represents (cache : MemoryCache) (sets : String → ValueSet String) : Prop :=
  ∀ key, cache.handleReadFromSet key = (sets key).values.map JsonString.stringify

theorem represents_new : new.Represents fun _ => .empty := fun _ => rfl

@[simp] theorem setOf_handleAddToSet (cache : MemoryCache) (key key' value : String) :
    (cache.handleAddToSet key value).1.setOf key' =
      if key' = key then (cache.setOf key).add value else cache.setOf key' := by
  simp only [setOf, handleAddToSet, KeyedMap.get_set]
  split <;> simp

/-- The value was put into the set under the key. -/
def Contains (cache : MemoryCache) (key value : String) : Prop :=
  JsonString.stringify value ∈ (cache.setOf key).values

theorem not_contains_new (key value : String) : ¬ new.Contains key value := by
  simp [Contains, setOf, new]

theorem addToSet_succeeds_iff (cache : MemoryCache) (key value : String) :
    (cache.addToSet key value).2 = true ↔ ¬ cache.Contains key value := by
  simp [addToSet, handleAddToSet, ValueSet.has, Contains]

theorem contains_addToSet (cache : MemoryCache) (key key' value value' : String) :
    (cache.addToSet key value).1.Contains key' value' ↔
      cache.Contains key' value' ∨ key' = key ∧ value' = value := by
  rw [Contains, addToSet, setOf_handleAddToSet, Contains]
  by_cases hKey : key' = key
  · simp [hKey, JsonString.stringify_injective.eq_iff]
  · simp [hKey]

/-- Removing from a set, also from one that is not there. -/
theorem setOf_handleRemoveFromSet (cache : MemoryCache) (key key' value : String) :
    ((cache.handleRemoveFromSet key value).1.setOf key').values =
      if key' = key then ((cache.setOf key).delete value).values
      else (cache.setOf key').values := by
  unfold handleRemoveFromSet setOf
  by_cases hKey : key' = key
  · subst hKey
    cases hSet : cache.sets.get key' with
    | none => simp [hSet, ValueSet.delete]
    | some set => simp
  · cases hSet : cache.sets.get key with
    | none => simp [hKey]
    | some set => simp [hKey, KeyedMap.get_set_ne]

theorem handleRemoveFromSet_snd (cache : MemoryCache) (key value : String) :
    (cache.handleRemoveFromSet key value).2 = (cache.setOf key).has value := by
  unfold handleRemoveFromSet setOf
  cases hSet : cache.sets.get key with
  | none => simp [ValueSet.has]
  | some set => simp

theorem keyValue_handleRemoveFromSet (cache : MemoryCache) (key value : String) :
    (cache.handleRemoveFromSet key value).1.keyValue = cache.keyValue := by
  unfold handleRemoveFromSet
  cases cache.sets.get key <;> rfl

/-- Texts are not touched. -/
theorem handleGetKey_handleRemoveFromSet (cache : MemoryCache) (key key' value : String) :
    (cache.handleRemoveFromSet key value).1.handleGetKey key' = cache.handleGetKey key' := by
  rw [handleGetKey, keyValue_handleRemoveFromSet, handleGetKey]

theorem handleGetKey_handleSetKey (cache : MemoryCache) (key key' value : String) :
    (cache.handleSetKey key value).handleGetKey key' =
      if key' = key then some value else cache.handleGetKey key' :=
  KeyedMap.get_set cache.keyValue key key' value

theorem handleGetKey_dropKey (cache : MemoryCache) (key key' : String) :
    (cache.dropKey key).handleGetKey key' =
      if key' = key then none else cache.handleGetKey key' :=
  KeyedMap.get_delete cache.keyValue key key'

theorem setOf_dropSet (cache : MemoryCache) (key key' : String) :
    (cache.dropSet key).setOf key' = if key' = key then .empty else cache.setOf key' := by
  simp only [setOf, dropSet, KeyedMap.get_delete]
  split <;> rfl

theorem removeFromSet_succeeds_iff (cache : MemoryCache) (key value : String) :
    (cache.removeFromSet key value).2 = true ↔ cache.Contains key value := by
  rw [removeFromSet, handleRemoveFromSet_snd, Contains, ValueSet.has, decide_eq_true_iff]

theorem contains_removeFromSet (cache : MemoryCache) (key key' value value' : String) :
    (cache.removeFromSet key value).1.Contains key' value' ↔
      cache.Contains key' value' ∧ ¬ (key' = key ∧ value' = value) := by
  rw [Contains, removeFromSet, setOf_handleRemoveFromSet, Contains]
  by_cases hKey : key' = key
  · simp [hKey, JsonString.stringify_injective.eq_iff]
  · simp [hKey]

/-- The texts determine their values, so the texts of a set with one more value
are the texts of the set with one more text. -/
theorem map_stringify_add (set : ValueSet String) (value : String) :
    (set.add value).values.map JsonString.stringify =
      if JsonString.stringify value ∈ set.values.map JsonString.stringify then
        set.values.map JsonString.stringify
      else set.values.map JsonString.stringify ++ [JsonString.stringify value] := by
  have hMem : JsonString.stringify value ∈ set.values.map JsonString.stringify ↔
      value ∈ set.values := List.mem_map_of_injective JsonString.stringify_injective
  unfold ValueSet.add
  by_cases h : value ∈ set.values
  · rw [dif_pos h, if_pos (hMem.mpr h)]
  · rw [dif_neg h, if_neg (mt hMem.mp h), List.map_append, List.map_singleton]

/-- Adding to a set in the cache adds to that set and to no other. -/
theorem Represents.addToSet {cache : MemoryCache} {sets : String → ValueSet String}
    (h : cache.Represents sets) (key value : String) :
    (cache.addToSet key value).1.Represents
      (Function.update sets key ((sets key).add value)) := by
  intro key'
  rw [MemoryCache.addToSet, handleReadFromSet, setOf_handleAddToSet]
  by_cases hKey : key' = key
  · subst hKey
    rw [if_pos rfl, Function.update_self, map_stringify_add, ← h key']
    unfold ValueSet.add handleReadFromSet
    split <;> rfl
  · rw [if_neg hKey, Function.update_of_ne hKey]
    exact h key'

/-- Texts that were made from values are read back as these values. -/
theorem parseSet_stringify (values : List String) :
    parseSet none (values.map JsonString.stringify) = .ok values := by
  refine Traversal.mapM_eq_ok_iff.mpr ?_
  rw [List.map_map]
  refine List.map_congr_left (fun value _ => ?_)
  simp [parseRaw, JsonString.parse_stringify, transformed]

/-- Reading a set gives the values added under its key, in the order in which
they were first added. -/
theorem Represents.readFromSet {cache : MemoryCache} {sets : String → ValueSet String}
    (h : cache.Represents sets) (key : String) :
    cache.readFromSet key none = .ok (sets key).values := by
  rw [MemoryCache.readFromSet, h key, parseSet_stringify]

end MemoryCache

end Moirae
