import Mathlib.Data.List.Perm.Subperm
import Moirae.Collections.KeyedMap

/-! The FIFO queue of the in-memory publisher: a singly linked list threaded
through a map from keys to items. -/
namespace Moirae

/-- What `randomUUID` returns. Only equality of keys matters. -/
abbrev Uuid := Nat

structure QueueItem (Item : Type) where
  item : Item
  key : Uuid
  nextKey : Option Uuid

structure Queue (Item : Type) where
  firstKey : Option Uuid
  lastKey : Option Uuid
  map : KeyedMap Uuid (QueueItem Item)

namespace Queue

variable {Item : Type}

/-- `new Queue()`. -/
def new : Queue Item := ⟨none, none, .empty⟩

def size (q : Queue Item) : Nat := q.map.size

/-- `clear` forgets the last key only; the first one may stay behind. -/
def clear (q : Queue Item) : Queue Item :=
  { q with map := .empty, lastKey := none }

def dequeue (q : Queue Item) : Option Item × Queue Item :=
  match q.firstKey with
  | none => (none, q)
  | some firstKey =>
      match q.map.get firstKey with
      | none => (none, q)
      | some mapItem =>
          (some mapItem.item,
            { map := q.map.delete mapItem.key
              firstKey := mapItem.nextKey
              lastKey := if q.lastKey = some mapItem.key then none else q.lastKey })

/-- `key` is the fresh `randomUUID()`. `none` is the `TypeError` of assigning
`nextKey` to a last element that is not in the map. -/
def enqueue (q : Queue Item) (key : Uuid) (item : Item) : Option (Queue Item) :=
  let firstKey := if q.size = 0 then some key else q.firstKey
  let last : QueueItem Item := ⟨item, key, none⟩
  match q.lastKey with
  | none => some ⟨firstKey, some key, q.map.set key last⟩
  | some lastKey =>
      match q.map.get lastKey with
      | none => none
      | some prevLast =>
          let linked := q.map.set prevLast.key { prevLast with nextKey := some key }
          some ⟨firstKey, some key, linked.set key last⟩

/-- The items met when following at most `fuel` links. -/
def follow (map : KeyedMap Uuid (QueueItem Item)) : Nat → Option Uuid → List Item
  | 0, _ => []
  | _ + 1, none => []
  | fuel + 1, some key =>
      match map.get key with
      | none => []
      | some mapItem => mapItem.item :: follow map fuel mapItem.nextKey

/-- The items waiting in the queue, first to last. -/
def contents (q : Queue Item) : List Item := follow q.map q.size q.firstKey

/-- The map links exactly these entries, each to the next one. -/
def Linked (map : KeyedMap Uuid (QueueItem Item)) : List (Uuid × Item) → Prop
  | [] => True
  | (key, item) :: rest =>
      map.get key = some ⟨item, key, rest.head?.map Prod.fst⟩ ∧ Linked map rest

/-- The queue represents the list: its map holds the linked entries and
nothing else, and the two end keys are right where they are read. The first
key of an empty queue is not: after `clear` it names an entry that is gone. -/
structure Holds (q : Queue Item) (entries : List (Uuid × Item)) : Prop where
  linked : Linked q.map entries
  distinct : (entries.map Prod.fst).Nodup
  size_eq : q.size = entries.length
  firstKey_eq : entries ≠ [] → q.firstKey = entries.head?.map Prod.fst
  lastKey_eq : q.lastKey = entries.getLast?.map Prod.fst

theorem Linked.congr {map map' : KeyedMap Uuid (QueueItem Item)} {entries : List (Uuid × Item)}
    (h : Linked map entries)
    (hGet : ∀ key ∈ entries.map Prod.fst, map'.get key = map.get key) : Linked map' entries := by
  induction entries with
  | nil => trivial
  | cons entry rest ih =>
      refine ⟨?_, ih h.2 (fun key hKey => hGet key (List.mem_cons_of_mem _ hKey))⟩
      rw [hGet entry.1 List.mem_cons_self]
      exact h.1

theorem Linked.get_isSome {map : KeyedMap Uuid (QueueItem Item)} {entries : List (Uuid × Item)}
    (h : Linked map entries) {key : Uuid} (hKey : key ∈ entries.map Prod.fst) :
    map.get key ≠ none := by
  induction entries with
  | nil => simp at hKey
  | cons entry rest ih =>
      rcases List.mem_cons.mp hKey with rfl | hRest
      · rw [h.1]
        exact Option.some_ne_none _
      · exact ih h.2 hRest

theorem Linked.get_last {map : KeyedMap Uuid (QueueItem Item)} {front : List (Uuid × Item)}
    {key : Uuid} {item : Item} (h : Linked map (front ++ [(key, item)])) :
    map.get key = some ⟨item, key, none⟩ := by
  induction front with
  | nil => exact h.1
  | cons entry front ih => exact ih h.2

/-- Linking one more entry behind the last one. -/
theorem Linked.snoc {map : KeyedMap Uuid (QueueItem Item)} {front : List (Uuid × Item)}
    {lastKey key : Uuid} {lastItem item : Item}
    (h : Linked map (front ++ [(lastKey, lastItem)]))
    (hDistinct : ((front ++ [(lastKey, lastItem)]).map Prod.fst).Nodup)
    (hFresh : key ∉ (front ++ [(lastKey, lastItem)]).map Prod.fst) :
    Linked ((map.set lastKey ⟨lastItem, lastKey, some key⟩).set key ⟨item, key, none⟩)
      (front ++ [(lastKey, lastItem), (key, item)]) := by
  induction front with
  | nil =>
      have hNe : lastKey ≠ key := fun hEq => hFresh (by simp [hEq])
      refine ⟨?_, ?_, trivial⟩
      · rw [KeyedMap.get_set_ne _ hNe, KeyedMap.get_set_self]
        rfl
      · rw [KeyedMap.get_set_self]
        rfl
  | cons entry front ih =>
      rw [List.cons_append, List.map_cons, List.nodup_cons] at hDistinct
      rw [List.cons_append, List.map_cons, List.mem_cons, not_or] at hFresh
      have hNeLast : entry.1 ≠ lastKey := fun hEq => hDistinct.1 (by simp [hEq])
      refine ⟨?_, ih h.2 hDistinct.2 hFresh.2⟩
      rw [KeyedMap.get_set_ne _ (Ne.symm hFresh.1), KeyedMap.get_set_ne _ hNeLast, h.1]
      cases front <;> rfl

theorem follow_of_linked {map : KeyedMap Uuid (QueueItem Item)} {entries : List (Uuid × Item)}
    (h : Linked map entries) :
    follow map entries.length (entries.head?.map Prod.fst) = entries.map Prod.snd := by
  induction entries with
  | nil => rfl
  | cons entry rest ih =>
      have hHead : map.get entry.1 = some ⟨entry.2, entry.1, rest.head?.map Prod.fst⟩ := h.1
      simp only [List.length_cons, List.head?_cons, Option.map_some, follow, hHead, ih h.2,
        List.map_cons]

/-- Reading the contents along the links gives the represented items. -/
theorem Holds.contents_eq {q : Queue Item} {entries : List (Uuid × Item)}
    (h : q.Holds entries) : q.contents = entries.map Prod.snd := by
  rw [contents, h.size_eq]
  cases entries with
  | nil => rfl
  | cons entry rest =>
      rw [h.firstKey_eq (List.cons_ne_nil _ _)]
      exact follow_of_linked h.linked

theorem Holds.get_eq_none_of_nil {q : Queue Item} (h : q.Holds []) (key : Uuid) :
    q.map.get key = none := by
  have hNil : q.map.entries = [] := List.eq_nil_of_length_eq_zero h.size_eq
  rw [KeyedMap.get, hNil, List.lookup_nil]

/-- The represented entries are all there is in the map. -/
theorem Holds.mem_of_get {q : Queue Item} {entries : List (Uuid × Item)} (h : q.Holds entries)
    {key : Uuid} (hKey : q.map.get key ≠ none) : key ∈ entries.map Prod.fst := by
  have hSubset : entries.map Prod.fst ⊆ q.map.entries.map Prod.fst := by
    intro other hOther
    by_contra hNot
    refine h.linked.get_isSome hOther (List.lookup_eq_none_iff.mpr (fun entry hEntry => ?_))
    rw [bne_iff_ne]
    rintro rfl
    exact hNot (List.mem_map_of_mem hEntry)
  have hPerm := (h.distinct.subperm hSubset).perm_of_length_le (by
    rw [List.length_map, List.length_map]
    exact Nat.le_of_eq h.size_eq)
  obtain ⟨found, hFound⟩ := Option.ne_none_iff_exists'.mp hKey
  exact hPerm.mem_iff.mpr (List.mem_map_of_mem (KeyedMap.mem_entries_iff_get.mpr hFound))

theorem holds_new : (new : Queue Item).Holds [] :=
  ⟨trivial, List.nodup_nil, rfl, fun h => absurd rfl h, rfl⟩

theorem Holds.clear {q : Queue Item} : q.clear.Holds [] :=
  ⟨trivial, List.nodup_nil, rfl, fun h => absurd rfl h, rfl⟩

theorem Holds.dequeue_nil {q : Queue Item} (h : q.Holds []) : q.dequeue = (none, q) := by
  unfold dequeue
  cases hFirst : q.firstKey with
  | none => rfl
  | some firstKey => simp only [h.get_eq_none_of_nil firstKey]

/-- Dequeueing returns the oldest item and leaves the others. -/
theorem Holds.dequeue_cons {q : Queue Item} {key : Uuid} {item : Item}
    {rest : List (Uuid × Item)} (h : q.Holds ((key, item) :: rest)) :
    q.dequeue.1 = some item ∧ q.dequeue.2.Holds rest := by
  have hFirst : q.firstKey = some key := h.firstKey_eq (List.cons_ne_nil _ _)
  have hGet := h.linked.1
  have hDistinct := List.nodup_cons.mp h.distinct
  have hDequeue : q.dequeue = (some item,
      { map := q.map.delete key
        firstKey := rest.head?.map Prod.fst
        lastKey := if q.lastKey = some key then none else q.lastKey }) := by
    unfold dequeue
    simp only [hFirst, hGet]
  rw [hDequeue]
  refine ⟨rfl, ?_, hDistinct.2, ?_, fun _ => rfl, ?_⟩
  · refine h.linked.2.congr (fun other hOther => ?_)
    refine KeyedMap.get_delete_ne _ ?_
    rintro rfl
    exact hDistinct.1 hOther
  · have hSize := KeyedMap.size_delete q.map hGet
    have hLength : q.map.size = rest.length + 1 := h.size_eq
    change (q.map.delete key).size = rest.length
    omega
  · have hLast := h.lastKey_eq
    cases rest with
    | nil =>
        have hKey : q.lastKey = some key := by simpa using hLast
        simp [hKey]
    | cons entry rest =>
        have hOther : q.lastKey ≠ some key := by
          rw [hLast]
          intro hEq
          refine hDistinct.1 ?_
          obtain ⟨last, hMem, hKey⟩ := Option.map_eq_some_iff.mp hEq
          rw [List.getLast?_cons_cons] at hMem
          have hMemKey := List.mem_map_of_mem (f := Prod.fst) (List.mem_of_getLast? hMem)
          rwa [hKey] at hMemKey
        rw [if_neg hOther, hLast, List.getLast?_cons_cons]

/-- Enqueueing under a key that is not in use adds the item at the end, and the
last element it links from is never missing. -/
theorem Holds.enqueue {q : Queue Item} {entries : List (Uuid × Item)} (h : q.Holds entries)
    {key : Uuid} (hFresh : key ∉ entries.map Prod.fst) (item : Item) :
    ∃ q', q.enqueue key item = some q' ∧ q'.Holds (entries ++ [(key, item)]) := by
  have hDistinct : ((entries ++ [(key, item)]).map Prod.fst).Nodup :=
    KeyedMap.nodup_map_concat h.distinct hFresh
  rcases List.eq_nil_or_concat entries with rfl | ⟨front, ⟨lastKey, lastItem⟩, rfl⟩
  · have hLast : q.lastKey = none := h.lastKey_eq
    have hSize : q.size = 0 := h.size_eq
    refine ⟨⟨some key, some key, q.map.set key ⟨item, key, none⟩⟩, ?_, ?_⟩
    · simp [Queue.enqueue, hLast, hSize]
    · refine ⟨⟨KeyedMap.get_set_self _ _ _, trivial⟩, hDistinct, ?_, fun _ => rfl, rfl⟩
      change (q.map.set _ _).size = _
      rw [KeyedMap.size_set, if_pos (h.get_eq_none_of_nil key)]
      exact congrArg (· + 1) hSize
  · rw [List.concat_eq_append] at *
    have hLast : q.lastKey = some lastKey := by
      rw [h.lastKey_eq, List.getLast?_concat]
      rfl
    have hGet := h.linked.get_last
    have hSize : q.size = front.length + 1 := by simpa using h.size_eq
    have hNe : lastKey ≠ key := fun hEq => hFresh (by simp [hEq])
    have hKeyNone : q.map.get key = none := by
      by_contra hSome
      exact hFresh (h.mem_of_get hSome)
    refine ⟨⟨q.firstKey, some key,
      (q.map.set lastKey ⟨lastItem, lastKey, some key⟩).set key ⟨item, key, none⟩⟩, ?_, ?_⟩
    · simp [Queue.enqueue, hLast, hGet, hSize]
    · rw [List.append_assoc]
      refine ⟨h.linked.snoc h.distinct hFresh, by simpa using hDistinct, ?_, ?_, by simp⟩
      · change ((q.map.set _ _).set _ _).size = _
        rw [KeyedMap.size_set, KeyedMap.get_set_ne _ (Ne.symm hNe), if_pos hKeyNone,
          KeyedMap.size_set, if_neg (by simp [hGet])]
        change q.size + 1 = _
        simp [hSize]
      · intro _
        have hFirst := h.firstKey_eq (by simp)
        rw [hFirst]
        cases front <;> rfl

end Queue

end Moirae
