import Moirae.Core.BaseCache

/-! What is read from the in-memory cache after any calls, with a transform and
without one. -/
namespace Moirae

/-- What a cache is meant to hold: a value under some keys, and under each key
the values that were added and not removed since, in insertion order. -/
structure CacheContents (Num : Type) where
  value : String → Option (Json Num)
  members : String → List (Json Num)

namespace CacheContents

variable {Num Value : Type} [JsonNumber Num]

def empty : CacheContents Num := ⟨fun _ => none, fun _ => []⟩

/-- Values with the same encoding count as one. -/
def adding (value : Json Num) (members : List (Json Num)) : List (Json Num) :=
  if value.stringify ∈ members.map Json.stringify then members else members ++ [value]

def removing (value : Json Num) (members : List (Json Num)) : List (Json Num) :=
  members.filter fun member => member.stringify ≠ value.stringify

def after (contents : CacheContents Num) : CacheCall Num Value → CacheContents Num
  | .dropKey key => { contents with value := Function.update contents.value key none }
  | .getKey _ _ => contents
  | .setKey key value =>
      { contents with value := Function.update contents.value key (some value) }
  | .addToSet key value =>
      { contents with
        members := Function.update contents.members key (adding value (contents.members key)) }
  | .dropSet key => { contents with members := Function.update contents.members key [] }
  | .readFromSet _ _ => contents
  | .removeFromSet key value =>
      { contents with
        members := Function.update contents.members key (removing value (contents.members key)) }

def afterAll (calls : List (CacheCall Num Value)) : CacheContents Num :=
  calls.foldl after empty

/-- Does the call set or drop the value of the key? -/
def Writes (key : String) : CacheCall Num Value → Prop
  | .setKey own _ => own = key
  | .dropKey own => own = key
  | _ => False

/-- Does the call take the value out of the set under the key? -/
def Removes (key : String) (value : Json Num) : CacheCall Num Value → Prop
  | .dropSet own => own = key
  | .removeFromSet own removed => own = key ∧ removed.stringify = value.stringify
  | _ => False

/-- No object in the values that are stored holds a key twice. -/
def WellFormed (contents : CacheContents Num) : Prop :=
  (∀ key value, contents.value key = some value → value.wellFormed = true) ∧
    ∀ key, ∀ value ∈ contents.members key, value.wellFormed = true

/-- The cache has the encodings of the contents. -/
structure Encoded (contents : CacheContents Num) (cache : MemoryCache) : Prop where
  value : ∀ key, cache.handleGetKey key = (contents.value key).map Json.stringify
  members : ∀ key, cache.handleReadFromSet key = (contents.members key).map Json.stringify

/-- The last call comes last. -/
theorem afterAll_concat (calls : List (CacheCall Num Value)) (call : CacheCall Num Value) :
    afterAll (calls ++ [call]) = (afterAll calls).after call := by
  simp [afterAll]

/-- A call that does not write the key leaves its value. -/
theorem value_after_of_not_writes {key : String} {call : CacheCall Num Value}
    (h : ¬Writes key call) (contents : CacheContents Num) :
    (contents.after call).value key = contents.value key := by
  cases call with
  | setKey own value => exact Function.update_of_ne (Ne.symm h) _ _
  | dropKey own => exact Function.update_of_ne (Ne.symm h) _ _
  | _ => rfl

/-- After the last `setKey` of a key, and no `dropKey` since, the key has that
value. -/
theorem value_of_setKey {key : String} (value : Json Num) (before : List (CacheCall Num Value))
    {since : List (CacheCall Num Value)} (h : ∀ call ∈ since, ¬Writes key call) :
    (afterAll (before ++ .setKey key value :: since)).value key = some value := by
  induction since using List.reverseRecOn with
  | nil =>
      rw [afterAll_concat]
      exact Function.update_self _ _ _
  | append_singleton since call ih =>
      rw [← List.cons_append, ← List.append_assoc, afterAll_concat,
        value_after_of_not_writes (h call (by simp))]
      apply ih
      intro other hOther
      exact h other (List.mem_append_left _ hOther)

/-- A set has what it had, and the new text. -/
theorem mem_adding {value member : Json Num} {members : List (Json Num)} :
    member.stringify ∈ (adding value members).map Json.stringify ↔
      member.stringify ∈ members.map Json.stringify ∨ member.stringify = value.stringify := by
  unfold adding
  split
  · next hOld =>
      constructor
      · exact Or.inl
      · rintro (hMem | hSame)
        · exact hMem
        · rwa [hSame]
  · simp

/-- A set has what it had, but for the text that was removed. -/
theorem mem_removing {value member : Json Num} {members : List (Json Num)} :
    member.stringify ∈ (removing value members).map Json.stringify ↔
      member.stringify ∈ members.map Json.stringify ∧ member.stringify ≠ value.stringify := by
  simp only [removing, List.mem_map, List.mem_filter, decide_eq_true_eq]
  constructor
  · rintro ⟨other, ⟨hMem, hOther⟩, hSame⟩
    exact ⟨⟨other, hMem, hSame⟩, hSame ▸ hOther⟩
  · rintro ⟨⟨other, hMem, hSame⟩, hOther⟩
    exact ⟨other, ⟨hMem, hSame ▸ hOther⟩, hSame⟩

/-- One call: the encoding is in the set when the call adds it, or it was there
and the call does not take it out. -/
theorem mem_after {key : String} {value : Json Num} {contents : CacheContents Num}
    {call : CacheCall Num Value} :
    value.stringify ∈ ((contents.after call).members key).map Json.stringify ↔
      (∃ added, call = .addToSet key added ∧ added.stringify = value.stringify) ∨
        value.stringify ∈ (contents.members key).map Json.stringify ∧
          ¬Removes key value call := by
  cases call with
  | addToSet own added =>
      by_cases hKey : own = key
      · subst hKey
        simp only [after, Function.update_self, mem_adding, Removes, not_false_eq_true, and_true]
        rw [or_comm]
        simp [eq_comm]
      · simp [after, Function.update_of_ne (Ne.symm hKey), Removes, hKey]
  | removeFromSet own removed =>
      by_cases hKey : own = key
      · subst hKey
        simp only [after, Function.update_self, mem_removing, Removes, true_and]
        simp [eq_comm]
      · simp [after, Function.update_of_ne (Ne.symm hKey), Removes, hKey]
  | dropSet own =>
      by_cases hKey : own = key
      · subst hKey
        simp [after, Removes]
      · simp [after, Function.update_of_ne (Ne.symm hKey), Removes, hKey]
  | _ => simp [after, Removes]

/-- The encodings in a set are those of the values that were added and not taken
out since. -/
theorem mem_afterAll {key : String} {value : Json Num} {calls : List (CacheCall Num Value)} :
    value.stringify ∈ ((afterAll calls).members key).map Json.stringify ↔
      ∃ before added since, calls = before ++ .addToSet key added :: since ∧
        added.stringify = value.stringify ∧ ∀ call ∈ since, ¬Removes key value call := by
  induction calls using List.reverseRecOn with
  | nil => simp [afterAll, empty]
  | append_singleton calls call ih =>
      rw [afterAll_concat, mem_after, ih]
      constructor
      · rintro (⟨added, rfl, hSame⟩ | ⟨⟨before, added, since, rfl, hSame, hKept⟩, hCall⟩)
        · exact ⟨calls, added, [], rfl, hSame, by simp⟩
        · refine ⟨before, added, since ++ [call], by simp, hSame, ?_⟩
          intro other hOther
          rcases List.mem_append.mp hOther with hOld | hNew
          · exact hKept other hOld
          · rwa [List.mem_singleton.mp hNew]
      · rintro ⟨before, added, since, hSplit, hSame, hKept⟩
        rcases List.eq_nil_or_concat since with rfl | ⟨rest, last, rfl⟩
        · obtain ⟨-, hLast⟩ := List.append_inj' hSplit rfl
          exact .inl ⟨added, List.singleton_inj.mp hLast, hSame⟩
        · rw [List.concat_eq_append, ← List.cons_append, ← List.append_assoc] at hSplit
          obtain ⟨rfl, hLast⟩ := List.append_inj' hSplit rfl
          obtain rfl := List.singleton_inj.mp hLast
          refine .inr ⟨⟨before, added, rest, rfl, hSame, fun other hOther => ?_⟩, ?_⟩
          · exact hKept other (by simp [hOther])
          · exact hKept call (by simp)

/-- The empty cache encodes the empty contents. -/
theorem encoded_empty : (empty : CacheContents Num).Encoded .new := ⟨fun _ => rfl, fun _ => rfl⟩

section Calls

variable {contents : CacheContents Num} {cache : MemoryCache} (h : contents.Encoded cache)
include h

/-- The text of the value is kept under the key. -/
theorem Encoded.handleSetKey (key : String) (value : Json Num) :
    (contents.after (.setKey key value : CacheCall Num Value)).Encoded
      (cache.handleSetKey key value.stringify) := by
  refine ⟨fun key' => ?_, h.members⟩
  rw [MemoryCache.handleGetKey_handleSetKey, h.value, after]
  by_cases hKey : key' = key
  · subst hKey
    simp
  · simp [hKey]

/-- Nothing is kept under the key. -/
theorem Encoded.dropKey (key : String) :
    (contents.after (.dropKey key : CacheCall Num Value)).Encoded (cache.dropKey key) := by
  refine ⟨fun key' => ?_, h.members⟩
  rw [MemoryCache.handleGetKey_dropKey, h.value, after]
  by_cases hKey : key' = key
  · subst hKey
    simp
  · simp [hKey]

/-- The text of the value is in the set. -/
theorem Encoded.handleAddToSet (key : String) (value : Json Num) :
    (contents.after (.addToSet key value : CacheCall Num Value)).Encoded
      (cache.handleAddToSet key value.stringify).1 := by
  refine ⟨h.value, fun key' => ?_⟩
  rw [MemoryCache.handleReadFromSet, MemoryCache.setOf_handleAddToSet, after]
  by_cases hKey : key' = key
  · subst hKey
    rw [if_pos rfl]
    dsimp only
    rw [Function.update_self, adding, ← h.members]
    by_cases hOld : value.stringify ∈ (cache.setOf key').values
    · rw [ValueSet.add_of_mem hOld, MemoryCache.handleReadFromSet, if_pos hOld, ← h.members]
      rfl
    · rw [ValueSet.values_add_of_not_mem hOld, MemoryCache.handleReadFromSet, if_neg hOld,
        List.map_append, ← h.members]
      rfl
  · rw [if_neg hKey]
    dsimp only
    rw [Function.update_of_ne hKey]
    exact h.members key'

/-- The set is gone. -/
theorem Encoded.dropSet (key : String) :
    (contents.after (.dropSet key : CacheCall Num Value)).Encoded (cache.dropSet key) := by
  refine ⟨h.value, fun key' => ?_⟩
  rw [MemoryCache.handleReadFromSet, MemoryCache.setOf_dropSet, after]
  by_cases hKey : key' = key
  · subst hKey
    simp
  · rw [if_neg hKey]
    dsimp only
    rw [Function.update_of_ne hKey]
    exact h.members key'

/-- The text of the value is not in the set. -/
theorem Encoded.handleRemoveFromSet (key : String) (value : Json Num) :
    (contents.after (.removeFromSet key value : CacheCall Num Value)).Encoded
      (cache.handleRemoveFromSet key value.stringify).1 := by
  refine ⟨fun key' => ?_, fun key' => ?_⟩
  · rw [MemoryCache.handleGetKey_handleRemoveFromSet]
    exact h.value key'
  · rw [MemoryCache.handleReadFromSet, MemoryCache.setOf_handleRemoveFromSet, after]
    by_cases hKey : key' = key
    · subst hKey
      rw [if_pos rfl]
      dsimp only
      rw [Function.update_self, removing]
      change (cache.setOf key').values.erase value.stringify = _
      rw [(cache.setOf key').distinct.erase_eq_filter]
      change (cache.handleReadFromSet key').filter _ = _
      rw [h.members, List.filter_map]
      congr 1
      apply List.filter_congr
      intro member _
      apply Bool.eq_iff_iff.mpr
      simp
    · rw [if_neg hKey]
      dsimp only
      rw [Function.update_of_ne hKey]
      exact h.members key'

/-- Every call does to the cache what it does to the contents. -/
theorem Encoded.perform [JsValue Num Value] (call : CacheCall Num Value) :
    (contents.after call).Encoded (MemoryCache.handlers.perform call cache).1 := by
  rw [BaseCache.perform_fst]
  cases call with
  | dropKey key => exact h.dropKey key
  | getKey key transform => exact h
  | setKey key value => exact h.handleSetKey key value
  | addToSet key value => exact h.handleAddToSet key value
  | dropSet key => exact h.dropSet key
  | readFromSet key transform => exact h
  | removeFromSet key value => exact h.handleRemoveFromSet key value

end Calls

/-- The values that a call stores. -/
def stored : CacheCall Num Value → List (Json Num)
  | .setKey _ value => [value]
  | .addToSet _ value => [value]
  | _ => []

omit [JsonNumber Num] in
/-- A well-formed value is kept under one key more. -/
theorem WellFormed.update_value {contents : CacheContents Num} (h : contents.WellFormed)
    (key : String) {found : Option (Json Num)}
    (hFound : ∀ value, found = some value → value.wellFormed = true) :
    ({ contents with value := Function.update contents.value key found } :
      CacheContents Num).WellFormed := by
  refine ⟨fun own value hGet => ?_, h.2⟩
  dsimp only at hGet
  rw [Function.update_apply] at hGet
  split at hGet
  · exact hFound value hGet
  · exact h.1 own value hGet

omit [JsonNumber Num] in
/-- Well-formed values are kept in one set more. -/
theorem WellFormed.update_members {contents : CacheContents Num} (h : contents.WellFormed)
    (key : String) {found : List (Json Num)}
    (hFound : ∀ value ∈ found, value.wellFormed = true) :
    ({ contents with members := Function.update contents.members key found } :
      CacheContents Num).WellFormed := by
  refine ⟨h.1, fun own value hMember => ?_⟩
  dsimp only at hMember
  rw [Function.update_apply] at hMember
  split at hMember
  · exact hFound value hMember
  · exact h.2 own value hMember

/-- A call keeps the contents well formed when what it stores is. -/
theorem WellFormed.after {contents : CacheContents Num} (h : contents.WellFormed)
    {call : CacheCall Num Value} (hCall : ∀ value ∈ stored call, value.wellFormed = true) :
    (contents.after call).WellFormed := by
  cases call with
  | setKey key value =>
      apply h.update_value key
      intro own hSame
      obtain rfl := Option.some.inj hSame
      exact hCall value (List.mem_singleton_self value)
  | dropKey key =>
      apply h.update_value key
      intro own hSame
      cases hSame
  | addToSet key value =>
      apply h.update_members key
      intro member hMember
      unfold adding at hMember
      split at hMember
      · exact h.2 key member hMember
      · rcases List.mem_append.mp hMember with hOld | hNew
        · exact h.2 key member hOld
        · exact hCall member hNew
  | dropSet key =>
      apply h.update_members key
      exact fun member hMember => absurd hMember List.not_mem_nil
  | removeFromSet key value =>
      apply h.update_members key
      intro member hMember
      exact h.2 key member (List.mem_of_mem_filter hMember)
  | getKey key transform => exact h
  | readFromSet key transform => exact h

/-- The cache after all the calls. -/
def performAll [JsValue Num Value] (calls : List (CacheCall Num Value)) : MemoryCache :=
  calls.foldl (fun cache call => (MemoryCache.handlers.perform call cache).1) .new

/-- The cache encodes what the calls have made of it. -/
theorem encoded_performAll [JsValue Num Value] (calls : List (CacheCall Num Value)) :
    (afterAll calls).Encoded (performAll calls) := by
  induction calls using List.reverseRecOn with
  | nil => exact encoded_empty
  | append_singleton calls call ih =>
      rw [afterAll_concat, performAll, List.foldl_append]
      exact ih.perform call

/-- The contents are well formed when all that was stored is. -/
theorem wellFormed_afterAll {calls : List (CacheCall Num Value)}
    (h : ∀ call ∈ calls, ∀ value ∈ stored call, value.wellFormed = true) :
    (afterAll calls).WellFormed := by
  induction calls using List.reverseRecOn with
  | nil => exact ⟨fun _ _ hGet => (by cases hGet), fun _ _ hMember => (by cases hMember)⟩
  | append_singleton calls call ih =>
      rw [afterAll_concat]
      apply WellFormed.after
      · apply ih
        intro other hOther
        exact h other (List.mem_append_left _ hOther)
      · exact h call (by simp)

/-! ## Reading -/

variable [JsValue Num Value]

/-- What a read is meant to give for a stored value. -/
def image (transform : Option (Json Num → Value)) (value : Json Num) : Value :=
  match transform with
  | none => JsValue.ofJson value
  | some t => t value

/-- The transform makes something truthy of the value, or leaves it as it is. -/
def Kept (transform : Option (Json Num → Value)) (value : Json Num) : Prop :=
  ∀ t, transform = some t → JsValue.truthy (t value) = true ∨ t value = JsValue.ofJson value

omit [JsonNumber Num] in
/-- A falsy image is replaced by the value that was transformed. -/
theorem transformed_eq_image_iff {transform : Option (Json Num → Value)} {value : Json Num} :
    BaseCache.transformed transform value = image transform value ↔ Kept transform value := by
  cases transform with
  | none => simp [BaseCache.transformed, image, Kept]
  | some t =>
      simp only [BaseCache.transformed, Option.map_some, image, Kept, Option.some.injEq,
        forall_eq']
      split
      · next hTruthy => simp [hTruthy]
      · next hFalsy => simp [hFalsy, eq_comm]

/-- A well-formed value is read back from its text. -/
theorem parseRaw_stringify {value : Json Num} (h : value.wellFormed)
    (transform : Option (Json Num → Value)) :
    BaseCache.parseRaw transform value.stringify =
      .ok (BaseCache.transformed transform value) := by
  rw [BaseCache.parseRaw, Json.parse_stringify h]

/-- The test for a missing value never meets an encoding: no encoding is empty. -/
theorem stringify_ne_empty {value : Json Num} (h : value.wellFormed) : value.stringify ≠ "" := by
  intro hEmpty
  have hParse := Json.parse_stringify h
  rw [hEmpty] at hParse
  cases hParse

/-- It is read back from the cache in the same way. -/
theorem parseKey_stringify {value : Json Num} (h : value.wellFormed)
    (transform : Option (Json Num → Value)) :
    BaseCache.parseKey transform (some value.stringify) =
      .ok (some (BaseCache.transformed transform value)) := by
  rw [BaseCache.parseKey, if_neg (stringify_ne_empty h), parseRaw_stringify h]
  rfl

/-- Every value that is read was put through `transformed`. -/
theorem Encoded.getKey {contents : CacheContents Num} {cache : MemoryCache}
    (h : contents.Encoded cache) (hJson : contents.WellFormed) (key : String)
    (transform : Option (Json Num → Value)) :
    (MemoryCache.handlers.getKey key transform cache).2 =
      .ok ((contents.value key).map (BaseCache.transformed transform)) := by
  change BaseCache.parseKey transform (cache.handleGetKey key) = _
  rw [h.value]
  cases hValue : contents.value key with
  | none => rfl
  | some value => exact parseKey_stringify (hJson.1 key value hValue) transform

/-- A set is read back as the images of its members. -/
theorem Encoded.readFromSet {contents : CacheContents Num} {cache : MemoryCache}
    (h : contents.Encoded cache) (hJson : contents.WellFormed) (key : String)
    (transform : Option (Json Num → Value)) :
    (MemoryCache.handlers.readFromSet key transform cache).2 =
      .ok ((contents.members key).map (BaseCache.transformed transform)) := by
  change (cache.handleReadFromSet key).mapM (BaseCache.parseRaw transform) = _
  rw [h.members]
  apply Traversal.mapM_eq_ok_iff.mpr
  rw [List.map_map, List.map_map]
  apply List.map_congr_left
  intro value hMember
  exact parseRaw_stringify (hJson.2 key value hMember) transform

/-- Both ways of reading give the images of what the calls left under the key. -/
def ReadsImages (calls : List (CacheCall Num Value)) (key : String)
    (transform : Option (Json Num → Value)) : Prop :=
  (MemoryCache.handlers.getKey key transform (performAll calls)).2 =
      .ok (((afterAll calls).value key).map (image transform)) ∧
    (MemoryCache.handlers.readFromSet key transform (performAll calls)).2 =
      .ok (((afterAll calls).members key).map (image transform))

/-- Reading gives the images exactly when the transform makes no falsy value of
what is read, unless it is that value. -/
theorem readsImages_iff {calls : List (CacheCall Num Value)}
    (hJson : ∀ call ∈ calls, ∀ value ∈ stored call, value.wellFormed = true) (key : String)
    (transform : Option (Json Num → Value)) :
    ReadsImages calls key transform ↔
      (∀ value, (afterAll calls).value key = some value → Kept transform value) ∧
        ∀ value ∈ (afterAll calls).members key, Kept transform value := by
  have hEncoded := encoded_performAll calls
  have hWellFormed := wellFormed_afterAll hJson
  rw [ReadsImages, hEncoded.getKey hWellFormed, hEncoded.readFromSet hWellFormed]
  apply and_congr
  · rw [Except.ok.injEq]
    cases (afterAll calls).value key with
    | none => simp
    | some value => simp [transformed_eq_image_iff]
  · rw [Except.ok.injEq, List.map_inj_left]
    exact forall₂_congr fun _ _ => transformed_eq_image_iff

theorem readsImages_iff_doubled :
    ReadsImages [.setKey "k" (.num 5), .addToSet "k" (.num 5), .addToSet "k" .null] "k"
        (some fun value => .arr [value, value] : Option (Json Int → Json Int)) ↔
      (∀ value, (afterAll [.setKey "k" (.num 5), .addToSet "k" (.num 5),
          (.addToSet "k" .null : CacheCall Int (Json Int))]).value "k" = some value →
        Kept (some fun value => .arr [value, value] : Option (Json Int → Json Int)) value) ∧
      ∀ value ∈ (afterAll [.setKey "k" (.num 5), .addToSet "k" (.num 5),
          (.addToSet "k" .null : CacheCall Int (Json Int))]).members "k",
        Kept (some fun value => .arr [value, value] : Option (Json Int → Json Int)) value :=
  readsImages_iff (by decide) "k" _

/-- A transform that makes zero of a stored five. -/
theorem falsy_image_replaced :
    ¬ReadsImages [.setKey "k" (.num 5)] "k"
      (some fun _ => .num 0 : Option (Json Int → Json Int)) := by
  intro hReads
  have hFive : (MemoryCache.handlers.getKey "k"
      (some fun _ => .num 0 : Option (Json Int → Json Int))
      (performAll [(.setKey "k" (.num 5) : CacheCall Int (Json Int))])).2 =
        .ok (some (.num 5)) := by
    apply (encoded_performAll _).getKey
    exact wellFormed_afterAll (by decide)
  have hZero := hReads.1
  rw [hFive] at hZero
  cases hZero

end CacheContents

end Moirae
