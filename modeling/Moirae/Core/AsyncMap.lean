import Moirae.Core.Distributor

/-! A map that can be waited on: who asks for a key that is not there yet
subscribes to the map's distributor and is woken when the key is set. -/
namespace Moirae

/-- The closure that `waitGet` subscribes, with the key it compares. `subId` is
what the subscription returned, so it identifies the closure. -/
structure Waiter where
  subId : Uuid
  key : String
  deriving DecidableEq, Repr

structure AsyncMap (Value : Type) where
  map : KeyedMap String Value
  distributer : Distributor Waiter

/-- What a call of `waitGet` comes to before its first `await`. -/
inductive WaitGet (Value : Type)
  | returned (value : Option Value)
  | waiting

namespace AsyncMap

variable {Value : Type}

/-- `generateAsyncMap`: the distributor is the map's own. -/
def new : AsyncMap Value := ⟨.empty, .new⟩

def size (m : AsyncMap Value) : Nat := m.map.size

def has (m : AsyncMap Value) (key : String) : Bool := m.map.has key

/-- `this._map.get(key) || undefined`: a falsy value is lost. -/
def get (truthy : Value → Bool) (m : AsyncMap Value) (key : String) : Option Value :=
  (m.map.get key).filter truthy

def delete (m : AsyncMap Value) (key : String) : AsyncMap Value :=
  { m with map := m.map.delete key }

/-- The closure of a waiter on an event with this key. -/
def handle (key : String) (distributer : Distributor Waiter) (waiter : Waiter) :
    Distributor Waiter :=
  if waiter.key = key then distributer.unsubscribe waiter.subId else distributer

/-- The waiters whose closure is called with an event of their own key. Their
promises resolve with its value. -/
def woken (m : AsyncMap Value) (key : String) : List Waiter :=
  (m.distributer.publish fun _ => false).filter (·.key = key)

/-- Every listener at the time of the event is called, also those that come
after one that unsubscribes itself. -/
def set (m : AsyncMap Value) (key : String) (value : Value) : AsyncMap Value :=
  { map := m.map.set key value
    distributer := (m.distributer.publish fun _ => false).foldl (handle key) m.distributer }

/-- `subId` is the fresh `randomUUID()` of the subscription. -/
def waitGet (truthy : Value → Bool) (m : AsyncMap Value) (subId : Uuid) (key : String) :
    AsyncMap Value × WaitGet Value :=
  if m.has key then (m, .returned (m.get truthy key))
  else ({ m with distributer := m.distributer.subscribe subId ⟨subId, key⟩ }, .waiting)

/-- The timer of a waiter: its subscription ends and its promise rejects. -/
def timeout (m : AsyncMap Value) (subId : Uuid) : AsyncMap Value :=
  { m with distributer := m.distributer.unsubscribe subId }

/-- The listeners are the subscribed closures, each under its own id. -/
structure Registered (d : Distributor Waiter) : Prop where
  consistent : d.Consistent
  ids : ∀ entry ∈ d.subscriptions.entries, entry.1 = entry.2.subId

theorem registered_new : Registered .new := ⟨rfl, by simp [Distributor.new, KeyedMap.empty]⟩

theorem Registered.ids_nodup {d : Distributor Waiter} (h : Registered d) :
    (d.listeners.map Waiter.subId).Nodup := by
  have hKeys : d.subscriptions.entries.map Prod.fst = d.listeners.map Waiter.subId := by
    rw [h.consistent, List.map_map]
    exact List.map_congr_left h.ids
  exact hKeys ▸ d.subscriptions.distinct

theorem Registered.get_eq_some_iff {d : Distributor Waiter} (h : Registered d) {subId : Uuid}
    {waiter : Waiter} :
    d.subscriptions.get subId = some waiter ↔ waiter ∈ d.listeners ∧ waiter.subId = subId := by
  rw [← KeyedMap.mem_entries_iff_get, h.consistent, List.mem_map]
  constructor
  · intro hMem
    exact ⟨⟨_, hMem, rfl⟩, (h.ids _ hMem).symm⟩
  · rintro ⟨⟨⟨id, w⟩, hMem, rfl⟩, rfl⟩
    have hId : id = w.subId := h.ids _ hMem
    exact hId ▸ hMem

theorem Registered.subscribe {d : Distributor Waiter} (h : Registered d) (waiter : Waiter)
    (hFresh : ∀ w ∈ d.listeners, w.subId ≠ waiter.subId) :
    Registered (d.subscribe waiter.subId waiter) := by
  have hNone : d.subscriptions.get waiter.subId = none := by
    rw [Option.eq_none_iff_forall_ne_some]
    intro w hGet
    obtain ⟨hMem, hId⟩ := h.get_eq_some_iff.mp hGet
    exact hFresh w hMem hId
  refine ⟨h.consistent.subscribe hNone waiter, ?_⟩
  rintro ⟨id, w⟩ hEntry
  rw [Distributor.subscribe, KeyedMap.mem_set_entries] at hEntry
  split at hEntry
  · rename_i hId
    rw [hEntry]
    exact hId
  · exact h.ids _ hEntry

theorem Registered.mem_unsubscribe {d : Distributor Waiter} (h : Registered d) (subId : Uuid)
    {w : Waiter} : w ∈ (d.unsubscribe subId).listeners ↔ w ∈ d.listeners ∧ w.subId ≠ subId := by
  have hNodup : d.listeners.Nodup := h.ids_nodup.of_map _
  unfold Distributor.unsubscribe
  cases hGet : d.subscriptions.get subId with
  | none =>
      have hOther : ∀ w ∈ d.listeners, w.subId ≠ subId := by
        intro w hMem hId
        have hSome := h.get_eq_some_iff.mpr ⟨hMem, hId⟩
        rw [hGet] at hSome
        cases hSome
      exact ⟨fun hMem => ⟨hMem, hOther w hMem⟩, And.left⟩
  | some waiter =>
      obtain ⟨hWaiter, hId⟩ := h.get_eq_some_iff.mp hGet
      change w ∈ Distributor.removeListener d.listeners waiter ↔ _
      rw [Distributor.removeListener_of_nodup hNodup, List.mem_filter]
      refine and_congr_right fun hMem => ?_
      have hIff : w = waiter ↔ w.subId = subId := by
        constructor
        · rintro rfl
          exact hId
        · intro hSame
          exact List.inj_on_of_nodup_map h.ids_nodup hMem hWaiter (hSame.trans hId.symm)
      simp [hIff]

theorem Registered.unsubscribe {d : Distributor Waiter} (h : Registered d) (subId : Uuid) :
    Registered (d.unsubscribe subId) := by
  refine ⟨h.consistent.unsubscribe (h.ids_nodup.of_map _) subId, ?_⟩
  intro entry hEntry
  unfold Distributor.unsubscribe at hEntry
  split at hEntry
  · exact h.ids entry hEntry
  · exact h.ids entry (List.mem_of_mem_filter hEntry)

theorem publish_eq_listeners (d : Distributor Waiter) :
    (d.publish fun _ => false) = d.listeners :=
  Distributor.emitted_eq_self fun _ _ => rfl

theorem mem_woken {m : AsyncMap Value} {key : String} {w : Waiter} :
    w ∈ m.woken key ↔ w ∈ m.distributer.listeners ∧ w.key = key := by
  rw [woken, publish_eq_listeners, List.mem_filter, decide_eq_true_eq]

/-- A list of calls in which those of the waiters are changed, where changing one
twice is the same as once. -/
theorem getElem?_foldl_modify {Call : Type} (f : Call → Call) (hOnce : ∀ call, f (f call) = f call)
    (waiters : List Waiter) (calls : List Call) (j : Nat) :
    (waiters.foldl (fun calls waiter => calls.modify waiter.subId f) calls)[j]? =
      if ∃ waiter ∈ waiters, waiter.subId = j then calls[j]?.map f else calls[j]? := by
  induction waiters generalizing calls with
  | nil => simp
  | cons waiter waiters ih =>
      rw [List.foldl_cons, ih]
      by_cases hSelf : waiter.subId = j
      · subst hSelf
        have hHere : ∃ v ∈ waiter :: waiters, v.subId = waiter.subId :=
          ⟨waiter, List.mem_cons_self, rfl⟩
        rw [if_pos hHere, List.getElem?_modify_eq]
        cases calls[waiter.subId]? <;> simp [hOnce]
      · rw [List.getElem?_modify_ne _ _ hSelf]
        simp [hSelf]

/-- Calling some waiters in order takes the subscriptions of those that wait
for the key. -/
theorem Registered.foldl_handle {d : Distributor Waiter} (h : Registered d) (key : String)
    (waiters : List Waiter) :
    Registered (waiters.foldl (handle key) d) ∧ ∀ w,
      w ∈ (waiters.foldl (handle key) d).listeners ↔
        w ∈ d.listeners ∧ ∀ v ∈ waiters, v.key = key → w.subId ≠ v.subId := by
  induction waiters generalizing d with
  | nil => simpa using h
  | cons v waiters ih =>
      rw [List.foldl_cons, handle]
      by_cases hKey : v.key = key
      · rw [if_pos hKey]
        obtain ⟨hRegistered, hMem⟩ := ih (h.unsubscribe v.subId)
        refine ⟨hRegistered, fun w => ?_⟩
        rw [hMem, h.mem_unsubscribe, List.forall_mem_cons, and_assoc]
        simp [hKey]
      · rw [if_neg hKey]
        obtain ⟨hRegistered, hMem⟩ := ih h
        refine ⟨hRegistered, fun w => ?_⟩
        rw [hMem, List.forall_mem_cons]
        simp [hKey]

theorem Registered.set {m : AsyncMap Value} (h : Registered m.distributer) (key : String)
    (value : Value) : Registered (m.set key value).distributer :=
  (h.foldl_handle key _).1

/-- Setting a key leaves the waiters for other keys, and only those. -/
theorem Registered.mem_listeners_set {m : AsyncMap Value} (h : Registered m.distributer)
    (key : String) (value : Value) {w : Waiter} :
    w ∈ (m.set key value).distributer.listeners ↔
      w ∈ m.distributer.listeners ∧ w.key ≠ key := by
  rw [AsyncMap.set, (h.foldl_handle key _).2 w, publish_eq_listeners]
  refine and_congr_right fun hMem => ?_
  constructor
  · intro hNone hKey
    exact hNone w hMem hKey rfl
  · intro hKey v hListener hSame hId
    have hEq := List.inj_on_of_nodup_map h.ids_nodup hMem hListener hId
    exact hKey (hEq ▸ hSame)

end AsyncMap

end Moirae
