import Moirae.Core.BaseCache

/-! The cache over three SQL tables. A set is a root row and one row for each
of its values; the roots stay when the last value is removed. A call of a
repository is one transaction. -/
namespace Moirae

@[ext] structure SetValue where
  setKey : String
  value : String
  deriving DecidableEq, Repr

/-- The rows of `KeyValue`, `SetRoot` and `SetValue`. The keys of the first two
are primary; a pair of `setKey` and `value` is unique, and its `setKey` refers
to a root. -/
structure CacheTables where
  keyValues : KeyedMap String String
  setRoots : ValueSet String
  setValues : ValueSet SetValue
  rooted : ∀ row ∈ setValues.values, row.setKey ∈ setRoots.values

namespace CacheTables

def empty : CacheTables := ⟨.empty, .empty, .empty, by simp⟩

/-- `keyRepository.delete`. -/
def deleteKey (key : String) (tables : CacheTables) : CacheTables :=
  { tables with keyValues := tables.keyValues.delete key }

/-- `keyRepository.findOne`. -/
def findKey (key : String) (tables : CacheTables) : Option String :=
  tables.keyValues.get key

/-- `keyRepository.save`: a row with this primary key is updated. -/
def saveKey (key value : String) (tables : CacheTables) : CacheTables :=
  { tables with keyValues := tables.keyValues.set key value }

/-- `setRootRepository.count`. -/
def countRoots (key : String) (tables : CacheTables) : Nat :=
  (tables.setRoots.values.filter (· = key)).length

def uniqueError : Thrown :=
  .error "QueryFailedError" "UNIQUE constraint failed: set_value.setKey, set_value.value"

def foreignKeyError : Thrown :=
  .error "QueryFailedError" "FOREIGN KEY constraint failed"

/-- `setRootRepository.save` with one value: the new row is inserted, and the
root has it as its only child afterwards. -/
def saveRoot (key value : String) (tables : CacheTables) : Except Thrown CacheTables :=
  if ⟨key, value⟩ ∈ tables.setValues.values then .error uniqueError
  else .ok {
    keyValues := tables.keyValues
    setRoots := tables.setRoots.add key
    setValues := (tables.setValues.filter (·.setKey ≠ key)).add ⟨key, value⟩
    rooted := by
      intro row hRow
      rcases ValueSet.mem_add.mp hRow with hRow | rfl
      · exact ValueSet.mem_add.mpr (.inl (tables.rooted row (ValueSet.mem_filter.mp hRow).1))
      · exact ValueSet.mem_add.mpr (.inr rfl) }

/-- `setRootRepository.delete`: a root with children cannot be deleted. -/
def deleteRoot (key : String) (tables : CacheTables) : Except Thrown CacheTables :=
  if h : ∃ row ∈ tables.setValues.values, row.setKey = key then .error foreignKeyError
  else .ok { tables with
    setRoots := tables.setRoots.delete key
    rooted := fun row hRow => ValueSet.mem_delete.mpr
      ⟨tables.rooted row hRow, fun hKey => h ⟨row, hRow, hKey⟩⟩ }

/-- `setValueRepository.findOne`. -/
def findValue (setKey value : String) (tables : CacheTables) : Option SetValue :=
  tables.setValues.values.find? (· = ⟨setKey, value⟩)

/-- `setValueRepository.find`. -/
def findValues (setKey : String) (tables : CacheTables) : List SetValue :=
  tables.setValues.values.filter (·.setKey = setKey)

/-- `setValueRepository.save` of a new row. -/
def saveValue (setKey value : String) (tables : CacheTables) : Except Thrown CacheTables :=
  if ⟨setKey, value⟩ ∈ tables.setValues.values then .error uniqueError
  else if h : setKey ∈ tables.setRoots.values then
    .ok { tables with
      setValues := tables.setValues.add ⟨setKey, value⟩
      rooted := by
        intro row hRow
        rcases ValueSet.mem_add.mp hRow with hRow | rfl
        · exact tables.rooted row hRow
        · exact h }
  else .error foreignKeyError

/-- `setValueRepository.remove`. -/
def removeValue (entity : SetValue) (tables : CacheTables) : CacheTables :=
  { tables with
    setValues := tables.setValues.delete entity
    rooted := fun row hRow => tables.rooted row (ValueSet.mem_delete.mp hRow).1 }

/-- `setValueRepository.delete`. -/
def deleteValues (setKey : String) (tables : CacheTables) : CacheTables :=
  { tables with
    setValues := tables.setValues.filter (·.setKey ≠ setKey)
    rooted := fun row hRow => tables.rooted row (ValueSet.mem_filter.mp hRow).1 }

/-- The value stands in the set under the key. -/
def Holds (tables : CacheTables) (setKey value : String) : Prop :=
  ⟨setKey, value⟩ ∈ tables.setValues.values

instance (tables : CacheTables) (setKey value : String) :
    Decidable (tables.Holds setKey value) :=
  inferInstanceAs (Decidable (_ ∈ _))

theorem findValue_eq (tables : CacheTables) (setKey value : String) :
    tables.findValue setKey value =
      if tables.Holds setKey value then some ⟨setKey, value⟩ else none := by
  unfold findValue
  cases hFind : tables.setValues.values.find? (· = ⟨setKey, value⟩) with
  | none =>
      have hNot : ¬ tables.Holds setKey value := fun hRow =>
        List.find?_eq_none.mp hFind _ hRow (decide_eq_true rfl)
      rw [if_neg hNot]
  | some row =>
      have hSame : row = ⟨setKey, value⟩ := by simpa using List.find?_some hFind
      have hRow : tables.Holds setKey value := by
        rw [CacheTables.Holds, ← hSame]
        exact List.mem_of_find?_eq_some hFind
      rw [if_pos hRow, hSame]

theorem countRoots_pos_iff {tables : CacheTables} {key : String} :
    0 < tables.countRoots key ↔ key ∈ tables.setRoots.values := by
  simp [countRoots, List.length_pos_iff_exists_mem]

/-- A value under the key has its root. -/
theorem Holds.countRoots_pos {tables : CacheTables} {setKey value : String}
    (h : tables.Holds setKey value) : 0 < tables.countRoots setKey :=
  countRoots_pos_iff.mpr (tables.rooted _ h)

theorem saveValue_stored {tables : CacheTables} {setKey value : String}
    (h : tables.Holds setKey value) : tables.saveValue setKey value = .error uniqueError :=
  if_pos h

theorem saveRoot_stored {tables : CacheTables} {key value : String}
    (h : tables.Holds key value) : tables.saveRoot key value = .error uniqueError :=
  if_pos h

/-- A value that is new under a key with a root is added to its set. -/
theorem saveValue_new {tables : CacheTables} {setKey value : String}
    (hNew : ¬ tables.Holds setKey value) (hRoot : 0 < tables.countRoots setKey) :
    ∃ saved, tables.saveValue setKey value = .ok saved ∧ saved.keyValues = tables.keyValues ∧
      saved.setRoots = tables.setRoots ∧
      ∀ setKey' value', saved.Holds setKey' value' ↔
        tables.Holds setKey' value' ∨ setKey' = setKey ∧ value' = value := by
  refine ⟨_, (if_neg hNew).trans (dif_pos (countRoots_pos_iff.mp hRoot)), rfl, rfl, ?_⟩
  intro setKey' value'
  simp [Holds]

/-- A root takes its only value with it: what else was under the key is gone. -/
theorem saveRoot_new {tables : CacheTables} {key value : String}
    (hNew : ¬ tables.Holds key value) :
    ∃ saved, tables.saveRoot key value = .ok saved ∧ saved.keyValues = tables.keyValues ∧
      saved.setRoots = tables.setRoots.add key ∧
      ∀ setKey' value', saved.Holds setKey' value' ↔
        tables.Holds setKey' value' ∧ setKey' ≠ key ∨ setKey' = key ∧ value' = value := by
  refine ⟨_, if_neg hNew, rfl, rfl, ?_⟩
  intro setKey' value'
  simp [Holds]

theorem holds_removeValue {tables : CacheTables} {setKey value setKey' value' : String} :
    (tables.removeValue ⟨setKey, value⟩).Holds setKey' value' ↔
      tables.Holds setKey' value' ∧ ¬ (setKey' = setKey ∧ value' = value) := by
  simp [Holds, removeValue]

theorem holds_deleteValues {tables : CacheTables} {setKey setKey' value' : String} :
    (tables.deleteValues setKey).Holds setKey' value' ↔
      tables.Holds setKey' value' ∧ setKey' ≠ setKey := by
  simp [Holds, deleteValues]

/-- Without its values a root can be deleted, which leaves the values of the
other sets. -/
theorem deleteRoot_deleteValues (tables : CacheTables) (key : String) :
    ∃ deleted, (tables.deleteValues key).deleteRoot key = .ok deleted ∧
      deleted.keyValues = tables.keyValues ∧
      ∀ setKey value, deleted.Holds setKey value ↔ tables.Holds setKey value ∧ setKey ≠ key := by
  have hChildless : ¬ ∃ row ∈ (tables.deleteValues key).setValues.values, row.setKey = key := by
    rintro ⟨row, hRow, hKey⟩
    exact (holds_deleteValues.mp hRow).2 hKey
  refine ⟨_, dif_neg hChildless, rfl, ?_⟩
  intro setKey value
  exact holds_deleteValues

end CacheTables

namespace TypeORMCache

/-- `sha1` of `object-hash`, applied to an object with fields that hold
strings. -/
abbrev ObjectHash := List (String × String) → String

variable (sha1 : ObjectHash)

def formatKey (key : String) : String := sha1 [("key", key)]

def dropKey (key : String) (tables : CacheTables) : CacheTables × Except Thrown Unit :=
  (tables.deleteKey (formatKey sha1 key), .ok ())

def dropSet (key : String) (tables : CacheTables) : CacheTables × Except Thrown Unit :=
  let _key := formatKey sha1 key
  let tables := tables.deleteValues _key
  match tables.deleteRoot _key with
  | .error thrown => (tables, .error thrown)
  | .ok tables => (tables, .ok ())

def handleAddToSet (key value : String) (tables : CacheTables) :
    CacheTables × Except Thrown Bool :=
  let _key := formatKey sha1 key
  match tables.findValue _key value with
  | some _ => (tables, .ok false)
  | none =>
      let saved :=
        if tables.countRoots _key > 0 then tables.saveValue _key value
        else tables.saveRoot _key value
      match saved with
      | .error thrown => (tables, .error thrown)
      | .ok tables => (tables, .ok true)

def handleGetKey (key : String) (tables : CacheTables) :
    CacheTables × Except Thrown (Option String) :=
  (tables, .ok (tables.findKey (formatKey sha1 key)))

def handleReadFromSet (key : String) (tables : CacheTables) :
    CacheTables × Except Thrown (List String) :=
  (tables, .ok ((tables.findValues (formatKey sha1 key)).map SetValue.value))

def handleRemoveFromSet (key value : String) (tables : CacheTables) :
    CacheTables × Except Thrown Bool :=
  match tables.findValue (formatKey sha1 key) value with
  | none => (tables, .ok false)
  | some entity => (tables.removeValue entity, .ok true)

def handleSetKey (key value : String) (tables : CacheTables) :
    CacheTables × Except Thrown Bool :=
  (tables.saveKey (formatKey sha1 key) value, .ok true)

def handlers : BaseCache CacheTables where
  dropKey := dropKey sha1
  dropSet := dropSet sha1
  handleAddToSet := handleAddToSet sha1
  handleGetKey := handleGetKey sha1
  handleReadFromSet := handleReadFromSet sha1
  handleRemoveFromSet := handleRemoveFromSet sha1
  handleSetKey := handleSetKey sha1

variable {sha1}

/-- The tables hold what the cache in memory holds, under the hashed keys. -/
structure Represents (sha1 : ObjectHash) (tables : CacheTables) (cache : MemoryCache) : Prop where
  keyValue : ∀ key, tables.findKey (formatKey sha1 key) = cache.handleGetKey key
  member : ∀ key value,
    tables.Holds (formatKey sha1 key) value ↔ value ∈ (cache.setOf key).values

theorem represents_empty : Represents sha1 .empty .new where
  keyValue _ := rfl
  member key value := by simp [CacheTables.Holds, CacheTables.empty, MemoryCache.setOf,
    MemoryCache.new]

variable (sha1)

/-- Adding a value that is there changes nothing; one that is not is added,
whether its set has a root or gets one. -/
theorem handleAddToSet_spec (key value : String) (tables : CacheTables) :
    ∃ added, handleAddToSet sha1 key value tables =
        (added, .ok !decide (tables.Holds (formatKey sha1 key) value)) ∧
      added.keyValues = tables.keyValues ∧
      ∀ setKey value', added.Holds setKey value' ↔
        tables.Holds setKey value' ∨ setKey = formatKey sha1 key ∧ value' = value := by
  by_cases hHolds : tables.Holds (formatKey sha1 key) value
  · refine ⟨tables, ?_, rfl, fun setKey value' => ⟨.inl, ?_⟩⟩
    · simp [handleAddToSet, CacheTables.findValue_eq, hHolds]
    · rintro (hOld | ⟨rfl, rfl⟩)
      · exact hOld
      · exact hHolds
  · by_cases hRoot : 0 < tables.countRoots (formatKey sha1 key)
    · obtain ⟨saved, hSave, hKeys, -, hSaved⟩ := CacheTables.saveValue_new hHolds hRoot
      refine ⟨saved, ?_, hKeys, hSaved⟩
      simp [handleAddToSet, CacheTables.findValue_eq, hHolds, hRoot, hSave]
    · obtain ⟨saved, hSave, hKeys, -, hSaved⟩ := CacheTables.saveRoot_new hHolds
      refine ⟨saved, ?_, hKeys, fun setKey value' => (hSaved setKey value').trans ?_⟩
      · simp [handleAddToSet, CacheTables.findValue_eq, hHolds, hRoot, hSave]
      · -- without a root there is nothing under the key that could be lost
        refine or_congr_left (and_iff_left_of_imp fun hOld hKey => hRoot ?_)
        exact (hKey ▸ hOld).countRoots_pos

theorem dropSet_spec (key : String) (tables : CacheTables) :
    ∃ dropped, dropSet sha1 key tables = (dropped, .ok ()) ∧
      dropped.keyValues = tables.keyValues ∧
      ∀ setKey value, dropped.Holds setKey value ↔
        tables.Holds setKey value ∧ setKey ≠ formatKey sha1 key := by
  obtain ⟨deleted, hDelete, hKeys, hDeleted⟩ :=
    tables.deleteRoot_deleteValues (formatKey sha1 key)
  refine ⟨deleted, ?_, hKeys, hDeleted⟩
  simp [dropSet, hDelete]

theorem handleRemoveFromSet_spec (key value : String) (tables : CacheTables) :
    ∃ removed, handleRemoveFromSet sha1 key value tables =
        (removed, .ok (decide (tables.Holds (formatKey sha1 key) value))) ∧
      removed.keyValues = tables.keyValues ∧
      ∀ setKey value', removed.Holds setKey value' ↔
        tables.Holds setKey value' ∧ ¬ (setKey = formatKey sha1 key ∧ value' = value) := by
  by_cases hHolds : tables.Holds (formatKey sha1 key) value
  · refine ⟨tables.removeValue ⟨formatKey sha1 key, value⟩, ?_, rfl, fun _ _ =>
      CacheTables.holds_removeValue⟩
    simp [handleRemoveFromSet, CacheTables.findValue_eq, hHolds]
  · refine ⟨tables, ?_, rfl, fun setKey value' => ⟨fun hOld => ⟨hOld, ?_⟩, And.left⟩⟩
    · simp [handleRemoveFromSet, CacheTables.findValue_eq, hHolds]
    · rintro ⟨rfl, rfl⟩
      exact hHolds hOld

variable {sha1}

theorem Represents.decide_holds {tables : CacheTables} {cache : MemoryCache}
    (h : Represents sha1 tables cache) (key value : String) :
    decide (tables.Holds (formatKey sha1 key) value) = (cache.setOf key).has value :=
  decide_eq_decide.mpr (h.member key value)

/-- The sets of related states have the same members. -/
theorem Represents.perm {tables : CacheTables} {cache : MemoryCache}
    (h : Represents sha1 tables cache) (key : String) :
    ((tables.findValues (formatKey sha1 key)).map SetValue.value).Perm
      (cache.handleReadFromSet key) := by
  have hDistinct : ((tables.findValues (formatKey sha1 key)).map SetValue.value).Nodup := by
    refine (tables.setValues.distinct.filter _).map_on ?_
    intro row hRow row' hRow' hValue
    have hKey : row.setKey = formatKey sha1 key := by simpa using (List.mem_filter.mp hRow).2
    have hKey' : row'.setKey = formatKey sha1 key := by simpa using (List.mem_filter.mp hRow').2
    cases row
    cases row'
    simp_all
  refine (List.perm_ext_iff_of_nodup hDistinct (cache.setOf key).distinct).mpr fun value => ?_
  rw [← h.member key value, List.mem_map]
  constructor
  · rintro ⟨row, hRow, rfl⟩
    obtain ⟨hRow, hKey⟩ := List.mem_filter.mp hRow
    rw [CacheTables.Holds, ← of_decide_eq_true hKey]
    exact hRow
  · intro hHolds
    exact ⟨_, List.mem_filter.mpr ⟨hHolds, decide_eq_true rfl⟩, rfl⟩

section Calls

variable {tables : CacheTables} {cache : MemoryCache}

/-- A call on sets leaves the values alone. -/
theorem Represents.of_sets {tables' : CacheTables} {cache' : MemoryCache}
    (h : Represents sha1 tables cache) (hKeys : tables'.keyValues = tables.keyValues)
    (hCache : cache'.keyValue = cache.keyValue)
    (hMember : ∀ key value,
      tables'.Holds (formatKey sha1 key) value ↔ value ∈ (cache'.setOf key).values) :
    Represents sha1 tables' cache' where
  keyValue key := by
    rw [CacheTables.findKey, hKeys, MemoryCache.handleGetKey, hCache]
    exact h.keyValue key
  member := hMember

/-! From here on the hash tells keys apart. -/

variable (hSha1 : Function.Injective (formatKey sha1)) (h : Represents sha1 tables cache)
include hSha1 h

theorem Represents.dropKey (key : String) :
    Represents sha1 (tables.deleteKey (formatKey sha1 key)) (cache.dropKey key) := by
  refine ⟨fun key' => ?_, h.member⟩
  have hOld := h.keyValue key'
  simp only [CacheTables.findKey, MemoryCache.handleGetKey] at hOld
  simp [CacheTables.findKey, CacheTables.deleteKey, MemoryCache.handleGetKey,
    MemoryCache.dropKey, KeyedMap.get_delete, hSha1.eq_iff, hOld]

theorem Represents.handleSetKey (key value : String) :
    Represents sha1 (tables.saveKey (formatKey sha1 key) value)
      (cache.handleSetKey key value) := by
  refine ⟨fun key' => ?_, h.member⟩
  have hOld := h.keyValue key'
  simp only [CacheTables.findKey, MemoryCache.handleGetKey] at hOld
  simp [CacheTables.findKey, CacheTables.saveKey, MemoryCache.handleGetKey,
    MemoryCache.handleSetKey, KeyedMap.get_set, hSha1.eq_iff, hOld]

theorem Represents.handleAddToSet (key value : String) :
    Represents sha1 (TypeORMCache.handleAddToSet sha1 key value tables).1
      (cache.handleAddToSet key value).1 := by
  obtain ⟨added, hAdd, hKeys, hAdded⟩ := handleAddToSet_spec sha1 key value tables
  rw [hAdd]
  refine h.of_sets hKeys rfl fun key' value' => ?_
  rw [hAdded, h.member, hSha1.eq_iff, MemoryCache.setOf_handleAddToSet]
  by_cases hKey : key' = key
  · simp [hKey]
  · simp [hKey]

theorem Represents.dropSet (key : String) :
    Represents sha1 (TypeORMCache.dropSet sha1 key tables).1 (cache.dropSet key) := by
  obtain ⟨dropped, hDrop, hKeys, hDropped⟩ := dropSet_spec sha1 key tables
  rw [hDrop]
  refine h.of_sets hKeys rfl fun key' value' => ?_
  rw [hDropped, h.member, ne_eq, hSha1.eq_iff, MemoryCache.setOf_dropSet]
  by_cases hKey : key' = key
  · simp [hKey]
  · simp [hKey]

theorem Represents.handleRemoveFromSet (key value : String) :
    Represents sha1 (TypeORMCache.handleRemoveFromSet sha1 key value tables).1
      (cache.handleRemoveFromSet key value).1 := by
  obtain ⟨removed, hRemove, hKeys, hRemoved⟩ := handleRemoveFromSet_spec sha1 key value tables
  rw [hRemove]
  refine h.of_sets hKeys (cache.keyValue_handleRemoveFromSet key value) fun key' value' => ?_
  rw [hRemoved, h.member, hSha1.eq_iff, MemoryCache.setOf_handleRemoveFromSet]
  by_cases hKey : key' = key
  · simp [hKey]
  · simp [hKey]

end Calls

section Simulation

variable {Num Value : Type} [JsonNumber Num] [JsValue Num Value]

omit [JsValue Num Value] in
/-- The handlers of both caches agree on every call. -/
theorem Represents.handlersAgree {tables : CacheTables} {cache : MemoryCache}
    (h : Represents sha1 tables cache) (call : CacheCall Num Value) :
    BaseCache.HandlersAgree (handlers sha1) MemoryCache.handlers tables cache call := by
  cases call with
  | dropKey key => rfl
  | getKey key transform => exact congrArg Except.ok (h.keyValue key)
  | setKey key value => trivial
  | addToSet key value =>
      obtain ⟨added, hAdd, -, -⟩ := handleAddToSet_spec sha1 key value.stringify tables
      simp [BaseCache.HandlersAgree, handlers, hAdd, h.decide_holds, MemoryCache.handlers,
        MemoryCache.handleAddToSet]
  | dropSet key =>
      obtain ⟨dropped, hDrop, -, -⟩ := dropSet_spec sha1 key tables
      simp [BaseCache.HandlersAgree, handlers, hDrop, MemoryCache.handlers]
  | readFromSet key transform => exact h.perm key
  | removeFromSet key value =>
      obtain ⟨removed, hRemove, -, -⟩ :=
        handleRemoveFromSet_spec sha1 key value.stringify tables
      simp [BaseCache.HandlersAgree, handlers, hRemove, h.decide_holds, MemoryCache.handlers,
        MemoryCache.handleRemoveFromSet_snd]

/-- Every call leads from related states to related states, as long as the hash
tells keys apart. -/
theorem Represents.perform (hSha1 : Function.Injective (formatKey sha1)) {tables : CacheTables}
    {cache : MemoryCache} (h : Represents sha1 tables cache) (call : CacheCall Num Value) :
    Represents sha1 ((handlers sha1).perform call tables).1
      (MemoryCache.handlers.perform call cache).1 := by
  rw [BaseCache.perform_fst, BaseCache.perform_fst]
  cases call with
  | dropKey key => exact h.dropKey hSha1 key
  | getKey key transform => exact h
  | setKey key value => exact h.handleSetKey hSha1 key value.stringify
  | addToSet key value => exact h.handleAddToSet hSha1 key value.stringify
  | dropSet key => exact h.dropSet hSha1 key
  | readFromSet key transform => exact h
  | removeFromSet key value => exact h.handleRemoveFromSet hSha1 key value.stringify

theorem simulates (hSha1 : Function.Injective (formatKey sha1)) :
    Runs.Simulates (Represents sha1) (SameOutcome CacheAnswer.Agree)
      ((handlers sha1).perform : CacheCall Num Value → _) MemoryCache.handlers.perform :=
  fun call _ _ h => ⟨BaseCache.perform_sameOutcome (h.handlersAgree call), h.perform hSha1 call⟩

/-- From the empty state the two caches give the same answers to all calls in
all orders. -/
theorem answers_agree_memoryCache (hSha1 : Function.Injective (formatKey sha1))
    (calls : List (CacheCall Num Value)) :
    List.Forall₂ (SameOutcome CacheAnswer.Agree)
      (Runs.answers (handlers sha1).perform .empty calls)
      (Runs.answers MemoryCache.handlers.perform .new calls) :=
  (simulates hSha1).answers represents_empty calls

end Simulation

/-- A hash that is the text of the object itself. -/
def textHash : ObjectHash := fun fields =>
  (Json.obj (fields.map fun field => (field.1, .str field.2)) : Json Int).stringify

theorem formatKey_textHash_injective : Function.Injective (formatKey textHash) := by
  intro key key' hText
  have hSame := (Json.stringify_inj (by rfl) (by rfl)).mp hText
  simpa using hSame

/-- A set under a key that is also the key of a value, emptied and filled
again. -/
theorem answers_agree_memoryCache_textHash :
    List.Forall₂ (SameOutcome CacheAnswer.Agree)
      (Runs.answers ((handlers textHash).perform : CacheCall Int (Json Int) → _) .empty
        [.setKey "a" (.num 1), .addToSet "a" (.num 2), .removeFromSet "a" (.num 2),
          .addToSet "a" (.str "x"), .readFromSet "a" none, .getKey "a" none])
      (Runs.answers MemoryCache.handlers.perform .new
        [.setKey "a" (.num 1), .addToSet "a" (.num 2), .removeFromSet "a" (.num 2),
          .addToSet "a" (.str "x"), .readFromSet "a" none, .getKey "a" none]) :=
  answers_agree_memoryCache formatKey_textHash_injective _

end TypeORMCache

end Moirae
