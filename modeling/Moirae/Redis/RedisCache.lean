import Moirae.Core.BaseCache
import Moirae.Runs.Execution

/-! The cache over one Redis database. Keys and sets share its key space, and a
command that meets a value of the other kind is refused. `expire`, which follows
the commands on sets, changes no value within the window. -/
namespace Moirae

inductive RedisValue
  | string (text : String)
  | set (members : ValueSet String)

abbrev RedisDatabase := KeyedMap String RedisValue

namespace RedisDatabase

def wrongType : Thrown :=
  .error "Error" "WRONGTYPE Operation against a key holding the wrong kind of value"

def del (key : String) (db : RedisDatabase) : RedisDatabase := db.delete key

def get (key : String) (db : RedisDatabase) : Except Thrown (Option String) :=
  match KeyedMap.get db key with
  | none => .ok none
  | some (.string text) => .ok (some text)
  | some (.set _) => .error wrongType

/-- Overwrites a value of any kind. -/
def set (key text : String) (db : RedisDatabase) : RedisDatabase :=
  KeyedMap.set db key (.string text)

/-- Returns how many members are new. -/
def sAdd (key value : String) (db : RedisDatabase) : Except Thrown (RedisDatabase × Nat) :=
  match KeyedMap.get db key with
  | none => .ok (KeyedMap.set db key (.set (ValueSet.empty.add value)), 1)
  | some (.set members) =>
      .ok (KeyedMap.set db key (.set (members.add value)), if members.has value then 0 else 1)
  | some (.string _) => .error wrongType

/-- Returns how many members were removed. A set that loses its last member is
gone. -/
def sRem (key value : String) (db : RedisDatabase) : Except Thrown (RedisDatabase × Nat) :=
  match KeyedMap.get db key with
  | none => .ok (db, 0)
  | some (.set members) =>
      if members.has value then
        let rest := members.delete value
        .ok (if rest.values = [] then db.delete key else KeyedMap.set db key (.set rest), 1)
      else .ok (db, 0)
  | some (.string _) => .error wrongType

/-- The order in which members are listed is left to the server. -/
structure Listing where
  list : ValueSet String → List String
  perm : ∀ members, (list members).Perm members.values

def sMembers (listing : Listing) (key : String) (db : RedisDatabase) :
    Except Thrown (List String) :=
  match KeyedMap.get db key with
  | none => .ok []
  | some (.set members) => .ok (listing.list members)
  | some (.string _) => .error wrongType

end RedisDatabase

namespace RedisCache

variable (namespaceRoot : String) (listing : RedisDatabase.Listing)

def prefixKey (key : String) : String := namespaceRoot ++ "__" ++ key

def dropKey (key : String) (db : RedisDatabase) : RedisDatabase × Except Thrown Unit :=
  (db.del (prefixKey namespaceRoot key), .ok ())

def dropSet (key : String) (db : RedisDatabase) : RedisDatabase × Except Thrown Unit :=
  dropKey namespaceRoot key db

def handleAddToSet (key value : String) (db : RedisDatabase) :
    RedisDatabase × Except Thrown Bool :=
  match db.sAdd (prefixKey namespaceRoot key) value with
  | .error thrown => (db, .error thrown)
  | .ok (db, res) => (db, .ok (res ≠ 0))

def handleGetKey (key : String) (db : RedisDatabase) :
    RedisDatabase × Except Thrown (Option String) :=
  (db, db.get (prefixKey namespaceRoot key))

def handleReadFromSet (key : String) (db : RedisDatabase) :
    RedisDatabase × Except Thrown (List String) :=
  (db, db.sMembers listing (prefixKey namespaceRoot key))

def handleRemoveFromSet (key value : String) (db : RedisDatabase) :
    RedisDatabase × Except Thrown Bool :=
  match db.sRem (prefixKey namespaceRoot key) value with
  | .error thrown => (db, .error thrown)
  | .ok (db, res) => (db, .ok (res ≠ 0))

def handleSetKey (key value : String) (db : RedisDatabase) :
    RedisDatabase × Except Thrown Bool :=
  (db.set (prefixKey namespaceRoot key) value, .ok true)

def handlers : BaseCache RedisDatabase where
  dropKey := dropKey namespaceRoot
  dropSet := dropSet namespaceRoot
  handleAddToSet := handleAddToSet namespaceRoot
  handleGetKey := handleGetKey namespaceRoot
  handleReadFromSet := handleReadFromSet namespaceRoot listing
  handleRemoveFromSet := handleRemoveFromSet namespaceRoot
  handleSetKey := handleSetKey namespaceRoot

/-- Keys stay apart under the prefix. -/
theorem prefixKey_injective : Function.Injective (prefixKey namespaceRoot) := by
  intro key key' h
  have hChars := congrArg String.toList h
  exact String.toList_inj.mp (by simpa [prefixKey] using hChars)

/-- What Redis has under a key, next to the text and the set that the cache in
memory has there. -/
inductive Stands : Option RedisValue → Option String → ValueSet String → Prop
  | nothing {members : ValueSet String} (empty : members.values = []) :
      Stands none none members
  | text {text : String} {members : ValueSet String} (empty : members.values = []) :
      Stands (some (.string text)) (some text) members
  | set {members : ValueSet String} (filled : members.values ≠ []) :
      Stands (some (.set members)) none members

theorem Stands.of_missing {found : Option String} {members : ValueSet String}
    (h : Stands none found members) : found = none ∧ members.values = [] := by
  cases h with
  | nothing empty => exact ⟨rfl, empty⟩

theorem Stands.of_string {text : String} {found : Option String} {members : ValueSet String}
    (h : Stands (some (.string text)) found members) :
    found = some text ∧ members.values = [] := by
  cases h with
  | text empty => exact ⟨rfl, empty⟩

/-- Under its prefix, every key has what the cache in memory has. -/
def Represents (db : RedisDatabase) (cache : MemoryCache) : Prop :=
  ∀ key, Stands (KeyedMap.get db (prefixKey namespaceRoot key)) (cache.handleGetKey key)
    (cache.setOf key)

/-- A key is used for a text while no set stands under it, and for a set while
no text does. -/
def KeepsApart {Num Value : Type} (cache : MemoryCache) : CacheCall Num Value → Prop
  | .dropKey key => (cache.setOf key).values = []
  | .getKey key _ => (cache.setOf key).values = []
  | .setKey key _ => (cache.setOf key).values = []
  | .addToSet key _ => cache.handleGetKey key = none
  | .dropSet key => cache.handleGetKey key = none
  | .readFromSet key _ => cache.handleGetKey key = none
  | .removeFromSet key _ => cache.handleGetKey key = none

section Simulation

variable {namespaceRoot} {listing} {Num Value : Type} [JsonNumber Num] [JsValue Num Value]
  {db : RedisDatabase} {cache : MemoryCache}

theorem represents_empty : Represents namespaceRoot .empty .new :=
  fun _ => .nothing rfl

/-- What a call does to one key decides whether the caches still hold the
same, when it leaves all others alone. -/
theorem Represents.of_update (h : Represents namespaceRoot db cache) {db' : RedisDatabase}
    {cache' : MemoryCache} (key : String)
    (hKey : Stands (KeyedMap.get db' (prefixKey namespaceRoot key)) (cache'.handleGetKey key)
      (cache'.setOf key))
    (hDb : ∀ other, other ≠ prefixKey namespaceRoot key →
      KeyedMap.get db' other = KeyedMap.get db other)
    (hCache : ∀ other, other ≠ key →
      cache'.handleGetKey other = cache.handleGetKey other ∧
        cache'.setOf other = cache.setOf other) :
    Represents namespaceRoot db' cache' := by
  intro other
  by_cases hOther : other = key
  · exact hOther ▸ hKey
  · have hNe : prefixKey namespaceRoot other ≠ prefixKey namespaceRoot key := fun hSame =>
      hOther (prefixKey_injective namespaceRoot hSame)
    rw [hDb _ hNe, (hCache other hOther).1, (hCache other hOther).2]
    exact h other

/-- The caches answered alike and hold the same afterwards. -/
def InStep (namespaceRoot : String) (listing : RedisDatabase.Listing) (db : RedisDatabase)
    (cache : MemoryCache) (call : CacheCall Num Value) : Prop :=
  SameOutcome CacheAnswer.Agree ((handlers namespaceRoot listing).perform call db).2
      (MemoryCache.handlers.perform call cache).2 ∧
    Represents namespaceRoot ((handlers namespaceRoot listing).perform call db).1
      (MemoryCache.handlers.perform call cache).1

theorem Represents.cases (h : Represents namespaceRoot db cache) (key : String) :
    (KeyedMap.get db (prefixKey namespaceRoot key) = none ∧ cache.handleGetKey key = none ∧
        (cache.setOf key).values = []) ∨
      (∃ text, KeyedMap.get db (prefixKey namespaceRoot key) = some (.string text) ∧
        cache.handleGetKey key = some text ∧ (cache.setOf key).values = []) ∨
      (KeyedMap.get db (prefixKey namespaceRoot key) = some (.set (cache.setOf key)) ∧
        cache.handleGetKey key = none ∧ (cache.setOf key).values ≠ []) := by
  have hKey := h key
  generalize KeyedMap.get db (prefixKey namespaceRoot key) = entry at hKey ⊢
  generalize cache.handleGetKey key = found at hKey ⊢
  cases hKey with
  | nothing empty => exact .inl ⟨rfl, rfl, empty⟩
  | @text text _ empty => exact .inr (.inl ⟨text, rfl, rfl, empty⟩)
  | set filled => exact .inr (.inr ⟨rfl, rfl, filled⟩)

/-- A set under the key would be deleted too. -/
theorem inStep_dropKey_iff (h : Represents namespaceRoot db cache) (key : String) :
    InStep namespaceRoot listing db cache (.dropKey key : CacheCall Num Value) ↔
      (cache.setOf key).values = [] := by
  have hKey : KeyedMap.get ((handlers namespaceRoot listing).perform
      (.dropKey key : CacheCall Num Value) db).1 (prefixKey namespaceRoot key) = none := by
    change (KeyedMap.delete db _).get _ = none
    rw [KeyedMap.get_delete, if_pos rfl]
  constructor
  · intro hInStep
    have hStands := hInStep.2 key
    rw [hKey] at hStands
    exact hStands.of_missing.2
  · intro hEmpty
    refine ⟨rfl, h.of_update key ?_ (fun other hOther => KeyedMap.get_delete_ne db hOther)
      fun other hOther => ⟨?_, rfl⟩⟩
    · rw [hKey]
      change Stands none ((cache.dropKey key).handleGetKey key) (cache.setOf key)
      rw [MemoryCache.handleGetKey_dropKey, if_pos rfl]
      exact .nothing hEmpty
    · exact (MemoryCache.handleGetKey_dropKey cache key other).trans (if_neg hOther)

/-- A set under the key would be overwritten. -/
theorem inStep_setKey_iff (h : Represents namespaceRoot db cache) (key : String)
    (value : Json Num) :
    InStep namespaceRoot listing db cache (.setKey key value : CacheCall Num Value) ↔
      (cache.setOf key).values = [] := by
  have hKey : KeyedMap.get ((handlers namespaceRoot listing).perform
      (.setKey key value : CacheCall Num Value) db).1 (prefixKey namespaceRoot key) =
        some (.string value.stringify) := by
    change (KeyedMap.set db _ _).get _ = _
    rw [KeyedMap.get_set, if_pos rfl]
  constructor
  · intro hInStep
    have hStands := hInStep.2 key
    rw [hKey] at hStands
    exact hStands.of_string.2
  · intro hEmpty
    refine ⟨rfl, h.of_update key ?_ (fun other hOther => KeyedMap.get_set_ne db hOther _)
      fun other hOther => ⟨?_, rfl⟩⟩
    · rw [hKey]
      change Stands _ ((cache.handleSetKey key value.stringify).handleGetKey key)
        (cache.setOf key)
      rw [MemoryCache.handleGetKey_handleSetKey, if_pos rfl]
      exact .text hEmpty
    · exact (MemoryCache.handleGetKey_handleSetKey cache key other _).trans (if_neg hOther)

/-- A value under the key would be deleted too. -/
theorem inStep_dropSet_iff (h : Represents namespaceRoot db cache) (key : String) :
    InStep namespaceRoot listing db cache (.dropSet key : CacheCall Num Value) ↔
      cache.handleGetKey key = none := by
  have hKey : KeyedMap.get ((handlers namespaceRoot listing).perform
      (.dropSet key : CacheCall Num Value) db).1 (prefixKey namespaceRoot key) = none := by
    change (KeyedMap.delete db _).get _ = none
    rw [KeyedMap.get_delete, if_pos rfl]
  constructor
  · intro hInStep
    have hStands := hInStep.2 key
    rw [hKey] at hStands
    exact hStands.of_missing.1
  · intro hNone
    refine ⟨rfl, h.of_update key ?_ (fun other hOther => KeyedMap.get_delete_ne db hOther)
      fun other hOther => ⟨rfl, ?_⟩⟩
    · rw [hKey]
      change Stands none (cache.handleGetKey key) ((cache.dropSet key).setOf key)
      rw [hNone, MemoryCache.setOf_dropSet, if_pos rfl]
      exact .nothing rfl
    · exact (MemoryCache.setOf_dropSet cache key other).trans (if_neg hOther)

/-- Redis refuses to read a set as a value. -/
theorem inStep_getKey_iff (h : Represents namespaceRoot db cache) (key : String)
    (transform : Option (Json Num → Value)) :
    InStep namespaceRoot listing db cache (.getKey key transform) ↔
      (cache.setOf key).values = [] := by
  rcases h.cases key with ⟨hDb, hText, hSet⟩ | ⟨text, hDb, hText, hSet⟩ | ⟨hDb, hText, hSet⟩
  · refine iff_of_true ⟨BaseCache.perform_sameOutcome ?_, h⟩ hSet
    change RedisDatabase.get _ db = .ok (cache.handleGetKey key)
    rw [RedisDatabase.get, hDb, hText]
  · refine iff_of_true ⟨BaseCache.perform_sameOutcome ?_, h⟩ hSet
    change RedisDatabase.get _ db = .ok (cache.handleGetKey key)
    rw [RedisDatabase.get, hDb, hText]
  · refine iff_of_false (fun hInStep => ?_) hSet
    have hRefused : RedisDatabase.get (prefixKey namespaceRoot key) db =
        .error RedisDatabase.wrongType := by rw [RedisDatabase.get, hDb]
    have hOutcome := hInStep.1
    change SameOutcome _ (((RedisDatabase.get (prefixKey namespaceRoot key) db).bind
      (BaseCache.parseKey transform)).map _)
      (((Except.ok (cache.handleGetKey key)).bind (BaseCache.parseKey transform)).map _)
      at hOutcome
    rw [hRefused, hText] at hOutcome
    exact hOutcome

/-- Redis refuses to read a value as a set. -/
theorem inStep_readFromSet_iff (h : Represents namespaceRoot db cache) (key : String)
    (transform : Option (Json Num → Value)) :
    InStep namespaceRoot listing db cache (.readFromSet key transform) ↔
      cache.handleGetKey key = none := by
  rcases h.cases key with ⟨hDb, hText, hSet⟩ | ⟨text, hDb, hText, hSet⟩ | ⟨hDb, hText, hSet⟩
  · refine iff_of_true ⟨BaseCache.perform_sameOutcome ?_, h⟩ hText
    change SameOutcome List.Perm (RedisDatabase.sMembers listing _ db)
      (.ok (cache.setOf key).values)
    rw [RedisDatabase.sMembers, hDb, hSet]
    exact List.Perm.refl []
  · refine iff_of_false (fun hInStep => ?_) (by simp [hText])
    have hRefused : RedisDatabase.sMembers listing (prefixKey namespaceRoot key) db =
        .error RedisDatabase.wrongType := by rw [RedisDatabase.sMembers, hDb]
    have hOutcome := hInStep.1
    change SameOutcome _ (((RedisDatabase.sMembers listing (prefixKey namespaceRoot key) db).bind
      (·.mapM (BaseCache.parseRaw transform))).map _)
      (((Except.ok (cache.setOf key).values).bind
        (·.mapM (BaseCache.parseRaw transform))).map _) at hOutcome
    rw [hRefused, hSet] at hOutcome
    exact hOutcome
  · refine iff_of_true ⟨BaseCache.perform_sameOutcome ?_, h⟩ hText
    change SameOutcome List.Perm (RedisDatabase.sMembers listing _ db)
      (.ok (cache.setOf key).values)
    rw [RedisDatabase.sMembers, hDb]
    exact listing.perm _

theorem eq_empty_of_values {members : ValueSet String} (h : members.values = []) :
    members = .empty := ValueSet.ext' h

theorem handleAddToSet_of_stands {key : String} {members : ValueSet String}
    (h : Stands (KeyedMap.get db (prefixKey namespaceRoot key)) none members) (value : String) :
    handleAddToSet namespaceRoot key value db =
      (KeyedMap.set db (prefixKey namespaceRoot key) (.set (members.add value)),
        .ok !members.has value) := by
  unfold handleAddToSet RedisDatabase.sAdd
  generalize KeyedMap.get db (prefixKey namespaceRoot key) = entry at h
  cases h with
  | nothing empty =>
      rw [eq_empty_of_values empty]
      rfl
  | set filled => cases hHas : members.has value <;> simp [hHas]

/-- Removing from a set, also the last member. -/
theorem handleRemoveFromSet_of_stands {key : String} {members : ValueSet String}
    (h : Stands (KeyedMap.get db (prefixKey namespaceRoot key)) none members) (value : String) :
    ∃ db', handleRemoveFromSet namespaceRoot key value db = (db', .ok (members.has value)) ∧
      Stands (KeyedMap.get db' (prefixKey namespaceRoot key)) none (members.delete value) ∧
      ∀ other, other ≠ prefixKey namespaceRoot key →
        KeyedMap.get db' other = KeyedMap.get db other := by
  unfold handleRemoveFromSet RedisDatabase.sRem
  generalize hEntry : KeyedMap.get db (prefixKey namespaceRoot key) = entry at h
  have hSame : members.has value = false → members.delete value = members := by
    intro hHas
    exact ValueSet.ext' (List.erase_of_not_mem (of_decide_eq_false hHas))
  cases h with
  | nothing empty =>
      have hHas : members.has value = false := by simp [ValueSet.has, empty]
      refine ⟨db, by simp [hHas], ?_, fun _ _ => rfl⟩
      rw [hEntry, hSame hHas]
      exact .nothing empty
  | set filled =>
      cases hHas : members.has value with
      | false =>
          refine ⟨db, by simp [hHas], ?_, fun _ _ => rfl⟩
          rw [hEntry, hSame hHas]
          exact .set filled
      | true =>
          by_cases hLast : (members.delete value).values = []
          · refine ⟨KeyedMap.delete db (prefixKey namespaceRoot key), ?_, ?_, fun _ hOther =>
              KeyedMap.get_delete_ne db hOther⟩
            · simp [hHas, hLast]
            · rw [KeyedMap.get_delete, if_pos rfl]
              exact .nothing hLast
          · refine ⟨KeyedMap.set db (prefixKey namespaceRoot key) (.set (members.delete value)),
              ?_, ?_, fun _ hOther => KeyedMap.get_set_ne db hOther _⟩
            · simp [hHas, hLast]
            · rw [KeyedMap.get_set, if_pos rfl]
              exact .set hLast

/-- Redis refuses to add to a value. -/
theorem inStep_addToSet_iff (h : Represents namespaceRoot db cache) (key : String)
    (value : Json Num) :
    InStep namespaceRoot listing db cache (.addToSet key value : CacheCall Num Value) ↔
      cache.handleGetKey key = none := by
  constructor
  · intro hInStep
    by_contra hText
    rcases h.cases key with ⟨-, hNone, -⟩ | ⟨text, hDb, -, -⟩ | ⟨-, hNone, -⟩
    · exact hText hNone
    · have hOutcome := hInStep.1
      change SameOutcome _ ((handleAddToSet namespaceRoot key value.stringify db).2.map _)
        (.ok _) at hOutcome
      rw [handleAddToSet, RedisDatabase.sAdd, hDb] at hOutcome
      exact hOutcome
    · exact hText hNone
  · intro hText
    have hKey := h key
    rw [hText] at hKey
    have hAdd := handleAddToSet_of_stands hKey value.stringify
    refine ⟨BaseCache.perform_sameOutcome (congrArg Prod.snd hAdd), ?_⟩
    change Represents namespaceRoot (handleAddToSet namespaceRoot key value.stringify db).1
      (cache.handleAddToSet key value.stringify).1
    rw [hAdd]
    refine h.of_update key ?_ (fun other hOther => KeyedMap.get_set_ne db hOther _)
      fun other hOther => ⟨rfl, ?_⟩
    · rw [KeyedMap.get_set, if_pos rfl, MemoryCache.setOf_handleAddToSet, if_pos rfl]
      change Stands _ (cache.handleGetKey key) _
      rw [hText]
      refine .set (List.ne_nil_of_mem (a := value.stringify) (ValueSet.mem_add.mpr (.inr rfl)))
    · exact (MemoryCache.setOf_handleAddToSet cache key other _).trans (if_neg hOther)

/-- Removing from a key without a text. -/
theorem inStep_removeFromSet (h : Represents namespaceRoot db cache) (key : String)
    (value : Json Num) (hText : cache.handleGetKey key = none) :
    InStep namespaceRoot listing db cache (.removeFromSet key value : CacheCall Num Value) := by
  have hKey := h key
  rw [hText] at hKey
  obtain ⟨db', hRemove, hStands, hOthers⟩ :=
    handleRemoveFromSet_of_stands hKey value.stringify
  have hSets : ∀ other, (cache.handleRemoveFromSet key value.stringify).1.setOf other =
      if other = key then (cache.setOf key).delete value.stringify else cache.setOf other := by
    intro other
    apply ValueSet.ext'
    rw [MemoryCache.setOf_handleRemoveFromSet]
    split <;> rfl
  constructor
  · apply BaseCache.perform_sameOutcome
    change (handleRemoveFromSet namespaceRoot key value.stringify db).2 =
      .ok (cache.handleRemoveFromSet key value.stringify).2
    rw [hRemove, MemoryCache.handleRemoveFromSet_snd]
  · change Represents namespaceRoot (handleRemoveFromSet namespaceRoot key value.stringify db).1
      (cache.handleRemoveFromSet key value.stringify).1
    rw [hRemove]
    apply h.of_update key _ hOthers
    · intro other hOther
      exact ⟨cache.handleGetKey_handleRemoveFromSet key other _, by rw [hSets, if_neg hOther]⟩
    · rw [MemoryCache.handleGetKey_handleRemoveFromSet, hText, hSets, if_pos rfl]
      exact hStands

/-- Redis refuses to remove from a value. -/
theorem inStep_removeFromSet_iff (h : Represents namespaceRoot db cache) (key : String)
    (value : Json Num) :
    InStep namespaceRoot listing db cache (.removeFromSet key value : CacheCall Num Value) ↔
      cache.handleGetKey key = none := by
  constructor
  · intro hInStep
    by_contra hText
    rcases h.cases key with ⟨-, hNone, -⟩ | ⟨text, hDb, -, -⟩ | ⟨-, hNone, -⟩
    · exact hText hNone
    · have hOutcome := hInStep.1
      change SameOutcome _ ((handleRemoveFromSet namespaceRoot key value.stringify db).2.map _)
        (.ok _) at hOutcome
      rw [handleRemoveFromSet, RedisDatabase.sRem, hDb] at hOutcome
      exact hOutcome
    · exact hText hNone
  · exact inStep_removeFromSet h key value

variable (listing) in
/-- One call keeps the caches in step exactly when it keeps texts and sets
apart. -/
theorem inStep_iff_keepsApart (h : Represents namespaceRoot db cache)
    (call : CacheCall Num Value) :
    InStep namespaceRoot listing db cache call ↔ KeepsApart cache call := by
  cases call with
  | dropKey key => exact inStep_dropKey_iff h key
  | getKey key transform => exact inStep_getKey_iff h key transform
  | setKey key value => exact inStep_setKey_iff h key value
  | addToSet key value => exact inStep_addToSet_iff h key value
  | dropSet key => exact inStep_dropSet_iff h key
  | readFromSet key transform => exact inStep_readFromSet_iff h key transform
  | removeFromSet key value => exact inStep_removeFromSet_iff h key value

variable (namespaceRoot listing)

/-- Both caches, and what their promises settled with so far. -/
abbrev World (Value : Type) :=
  Runs.Paired RedisDatabase MemoryCache (Except Thrown (CacheAnswer Value))
    (Except Thrown (CacheAnswer Value))

/-- One call on Redis and in memory, each waited for. -/
def step : World Value → CacheCall Num Value → Option (World Value) :=
  Runs.pairStep (handlers namespaceRoot listing).perform MemoryCache.handlers.perform

def start : World Value := ⟨.empty, .new, []⟩

/-- All calls settled alike on both, and Redis holds what the cache in memory
holds. -/
structure Simulated (w : World Value) : Prop where
  alike : ∀ outcomes ∈ w.given, SameOutcome CacheAnswer.Agree outcomes.1 outcomes.2
  represents : Represents namespaceRoot w.left w.right

/-- A call keeps the two alike exactly when it keeps texts and sets apart. -/
theorem Simulated.step_iff {w w' : World Value} {call : CacheCall Num Value}
    (h : Simulated namespaceRoot w) (hStep : step namespaceRoot listing w call = some w') :
    Simulated namespaceRoot w' ↔ KeepsApart w.right call := by
  rw [← inStep_iff_keepsApart listing h.represents call]
  obtain rfl := Option.some.inj hStep
  constructor
  · intro hNext
    exact ⟨hNext.alike _ (List.mem_append_right _ (List.mem_singleton_self _)), hNext.represents⟩
  · intro hInStep
    refine ⟨fun outcomes hMem => ?_, hInStep.2⟩
    rcases List.mem_append.mp hMem with hOld | hNew
    · exact h.alike outcomes hOld
    · rw [List.mem_singleton.mp hNew]
      exact hInStep.1

/-- Redis does what the cache in memory does through all calls exactly when no
call uses a key for a text while a set stands under it, or the other way
round. -/
theorem simulated_iff_keepsApart (calls : List (CacheCall Num Value)) :
    Runs.Always (step namespaceRoot listing) (Simulated namespaceRoot) start calls ↔
      Runs.StepsMeet (step namespaceRoot listing) (fun w call => KeepsApart w.right call) start
        calls :=
  Runs.always_iff_stepsMeet (fun _ => True) (fun _ => True) (fun _ _ _ _ _ _ => trivial)
    (fun _ _ _ _ _ hSimulated hStep => hSimulated.step_iff namespaceRoot listing hStep) trivial
    ⟨fun _ hMem => absurd hMem List.not_mem_nil, represents_empty⟩ (fun _ _ => trivial)

end Simulation

/-- A server that lists the members as they were added. -/
def asAdded : RedisDatabase.Listing := ⟨ValueSet.values, fun _ => .refl _⟩

/-- The same key for a value and for a set: what is added to the set in memory
is refused by Redis. -/
theorem not_simulated_sharedKey :
    ¬ List.Forall₂ (SameOutcome CacheAnswer.Agree)
      (Runs.answers ((handlers "moirae" asAdded).perform : CacheCall Int (Json Int) → _) .empty
        [.setKey "a" (.num 1), .addToSet "a" (.num 2)])
      (Runs.answers MemoryCache.handlers.perform .new
        [.setKey "a" (.num 1), .addToSet "a" (.num 2)]) := by
  intro h
  cases h with
  | cons _ hRest =>
      cases hRest with
      | cons hAdd _ => exact hAdd

end RedisCache

end Moirae
