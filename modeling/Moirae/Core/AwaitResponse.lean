import Moirae.Core.AsyncMap
import Moirae.Core.BasePublisher
import Moirae.Runs.Execution

/-! Awaiting the responses of external queries: several calls of
`QueryBus.execute` share the response map of one publisher. -/
namespace Moirae

structure ResponseWrapper (Payload : Type) where
  payload : Payload
  responseKey : String
  routingKey : String
  deriving DecidableEq

namespace AwaitResponse

variable {Payload : Type}

/-- How far an external `execute` has come. -/
inductive Progress (Payload : Type)
  /-- The query is published, `awaitResponse` is still to be called. -/
  | published
  /-- `waitGet` waits for the key. -/
  | waiting
  /-- The promise in `waitGet` is resolved, its continuation is pending. -/
  | woken (response : ResponseWrapper Payload)
  /-- `waitGet` has returned, the continuation of `awaitResponse` is pending. -/
  | returned (response : Option (ResponseWrapper Payload))
  | resolved (response : Option (ResponseWrapper Payload))
  | timedOut
  deriving DecidableEq

structure Call (Payload : Type) where
  responseKey : String
  progress : Progress Payload
  deriving DecidableEq

/-- A call is known by its number, which is the id of its subscription too. -/
structure World (Payload : Type) where
  responseMap : AsyncMap (ResponseWrapper Payload)
  calls : List (Call Payload)
  /-- The responses that `handleResponse` has put into the map. -/
  stored : List (ResponseWrapper Payload)

inductive Action
  | execute (responseKey : String)
  | awaitResponse (i : Nat)
  | handleResponse (responseJSON : String)
  /-- The continuation of `waitGet` after its promise was resolved. -/
  | resume (i : Nat)
  /-- The continuation of `awaitResponse` after `waitGet` has returned. -/
  | finish (i : Nat)
  | timeout (i : Nat)
  deriving DecidableEq

/-- Responses are objects. -/
def truthy (_ : ResponseWrapper Payload) : Bool := true

namespace World

def new : World Payload := ⟨.new, [], []⟩

def setProgress (i : Nat) (progress : Progress Payload) (calls : List (Call Payload)) :
    List (Call Payload) :=
  calls.modify i fun call => { call with progress }

/-- Set a key of the response map; the waiters that are called have their
promises resolved. -/
def set (w : World Payload) (key : String) (response : ResponseWrapper Payload) :
    World Payload :=
  { w with
    responseMap := w.responseMap.set key response
    calls := (w.responseMap.woken key).foldl
      (fun calls waiter => setProgress waiter.subId (.woken response) calls) w.calls }

/-- One step of a run. `parseResponse` is `JSON.parse` and
`ResponseWrapper.fromPlain`; when it throws, nothing is stored. The response
keys are random, so no two calls have the same. -/
def step (parseResponse : String → Except Thrown (ResponseWrapper Payload))
    (w : World Payload) : Action → Option (World Payload)
  | .execute responseKey =>
      if responseKey ∈ w.calls.map Call.responseKey then none
      else some { w with calls := w.calls ++ [⟨responseKey, .published⟩] }
  | .awaitResponse i =>
      match w.calls[i]? with
      | some ⟨responseKey, .published⟩ =>
          match w.responseMap.waitGet truthy i responseKey with
          | (responseMap, .returned response) =>
              some { w with responseMap, calls := setProgress i (.returned response) w.calls }
          | (responseMap, .waiting) =>
              some { w with responseMap, calls := setProgress i .waiting w.calls }
      | _ => none
  | .handleResponse responseJSON =>
      match parseResponse responseJSON with
      | .error _ => some w
      | .ok response => some
          (set { w with stored := w.stored ++ [response] } response.responseKey response)
  | .resume i =>
      match w.calls[i]? with
      | some ⟨responseKey, .woken response⟩ =>
          let again := w.set responseKey response
          some { again with calls := setProgress i (.returned (some response)) again.calls }
      | _ => none
  | .finish i =>
      match w.calls[i]? with
      | some ⟨responseKey, .returned response⟩ => some
          { w with
            responseMap := w.responseMap.delete responseKey
            calls := setProgress i (.resolved response) w.calls }
      | _ => none
  | .timeout i =>
      match w.calls[i]? with
      | some ⟨_, .waiting⟩ => some
          { w with
            responseMap := w.responseMap.timeout i
            calls := setProgress i .timedOut w.calls }
      | _ => none

@[simp] theorem map_responseKey_setProgress (i : Nat) (progress : Progress Payload)
    (calls : List (Call Payload)) :
    (setProgress i progress calls).map Call.responseKey = calls.map Call.responseKey := by
  apply List.ext_getElem?
  intro j
  rw [List.getElem?_map, List.getElem?_map, setProgress, List.getElem?_modify]
  cases calls[j]? with
  | none => rfl
  | some call => by_cases hj : i = j <;> simp [hj]

/-- The call has got to this point. -/
theorem getElem?_setProgress_self {i : Nat} {calls : List (Call Payload)} {call : Call Payload}
    (h : calls[i]? = some call) (progress : Progress Payload) :
    (setProgress i progress calls)[i]? = some ⟨call.responseKey, progress⟩ := by
  simp [setProgress, h]

/-- The other calls are where they were. -/
theorem getElem?_setProgress_ne {i j : Nat} (h : j ≠ i) (calls : List (Call Payload))
    (progress : Progress Payload) : (setProgress i progress calls)[j]? = calls[j]? := by
  rw [setProgress, List.getElem?_modify_ne _ _ (Ne.symm h)]

/-- What waking does to a call: it matters to those that wait for the key. -/
def wake (key : String) (response : ResponseWrapper Payload) (call : Call Payload) :
    Call Payload :=
  match call with
  | ⟨responseKey, .waiting⟩ =>
      ⟨responseKey, if responseKey = key then .woken response else .waiting⟩
  | _ => call

@[simp] theorem responseKey_wake (key : String) (response : ResponseWrapper Payload)
    (call : Call Payload) : (wake key response call).responseKey = call.responseKey := by
  unfold wake
  split <;> rfl

/-- What is known of a call: a response that has arrived is the call's own, and
the call has not missed one. -/
def Answered (w : World Payload) (call : Call Payload) : Prop :=
  match call.progress with
  | .published => ∀ r ∈ w.stored, r.responseKey = call.responseKey →
      w.responseMap.has call.responseKey = true
  | .waiting => ∀ r ∈ w.stored, r.responseKey ≠ call.responseKey
  | .woken r => r ∈ w.stored ∧ r.responseKey = call.responseKey
  | .returned response => ∃ r ∈ w.stored, response = some r ∧
      r.responseKey = call.responseKey
  | .resolved response => ∃ r ∈ w.stored, response = some r ∧
      r.responseKey = call.responseKey
  | .timedOut => True

structure Sound (w : World Payload) : Prop where
  registered : AsyncMap.Registered w.responseMap.distributer
  keys : (w.calls.map Call.responseKey).Nodup
  /-- The listeners are those of the calls that wait. -/
  listeners : ∀ waiter, waiter ∈ w.responseMap.distributer.listeners ↔
    w.calls[waiter.subId]? = some ⟨waiter.key, .waiting⟩
  /-- Every response lies under its own key. -/
  mapped : ∀ key response, w.responseMap.map.get key = some response →
    response ∈ w.stored ∧ response.responseKey = key
  /-- A response that comes before its query is kept. -/
  early : ∀ r ∈ w.stored, r.responseKey ∉ w.calls.map Call.responseKey →
    w.responseMap.has r.responseKey = true
  answered : ∀ call ∈ w.calls, w.Answered call

/-- There are no calls at first. -/
theorem sound_new : (new : World Payload).Sound where
  registered := AsyncMap.registered_new
  keys := List.nodup_nil
  listeners := by simp [new, AsyncMap.new, Distributor.new]
  mapped := by simp [new, AsyncMap.new]
  early := by simp [new]
  answered := by simp [new]

/-- Two calls with one key are the same call. -/
theorem Sound.index_eq {w : World Payload} (h : w.Sound) {i j : Nat} {call call' : Call Payload}
    (hi : w.calls[i]? = some call) (hj : w.calls[j]? = some call')
    (hKey : call.responseKey = call'.responseKey) : i = j := by
  have hLength : i < (w.calls.map Call.responseKey).length := by
    rw [List.length_map]
    exact (List.getElem?_eq_some_iff.mp hi).1
  refine (List.getElem?_inj hLength h.keys).mp ?_
  simp [hi, hj, hKey]

/-- The calls of these waiters are woken, and no others. -/
theorem getElem?_foldl_woken (response : ResponseWrapper Payload) (waiters : List Waiter)
    (calls : List (Call Payload)) (j : Nat) :
    (waiters.foldl (fun calls waiter => setProgress waiter.subId (.woken response) calls)
      calls)[j]? =
        if ∃ waiter ∈ waiters, waiter.subId = j then
          calls[j]?.map fun call => { call with progress := .woken response }
        else calls[j]? :=
  AsyncMap.getElem?_foldl_modify
    (fun call : Call Payload => { call with progress := .woken response }) (fun _ => rfl) waiters
    calls j

/-- Setting a key wakes the calls that wait for it. -/
theorem Sound.calls_set {w : World Payload} (h : w.Sound) (key : String)
    (response : ResponseWrapper Payload) :
    (w.set key response).calls = w.calls.map (wake key response) := by
  apply List.ext_getElem?
  intro j
  rw [set, getElem?_foldl_woken, List.getElem?_map]
  have hWoken : (∃ waiter ∈ w.responseMap.woken key, waiter.subId = j) ↔
      w.calls[j]? = some ⟨key, .waiting⟩ := by
    constructor
    · rintro ⟨waiter, hWaiter, rfl⟩
      obtain ⟨hMem, rfl⟩ := AsyncMap.mem_woken.mp hWaiter
      exact (h.listeners waiter).mp hMem
    · intro hCall
      exact ⟨⟨j, key⟩, AsyncMap.mem_woken.mpr ⟨(h.listeners ⟨j, key⟩).mpr hCall, rfl⟩, rfl⟩
  by_cases hCall : w.calls[j]? = some ⟨key, .waiting⟩
  · rw [if_pos (hWoken.mpr hCall), hCall]
    simp [wake]
  · rw [if_neg (mt hWoken.mp hCall)]
    cases hAt : w.calls[j]? with
    | none => rfl
    | some call =>
        rw [Option.map_some]
        congr 1
        unfold wake
        split
        · rename_i responseKey
          have hNe : responseKey ≠ key := by
            rintro rfl
            exact hCall hAt
          rw [if_neg hNe]
        · rfl

/-- A call stays answered when its response stays in the map. -/
theorem Answered.imp {v w : World Payload} {call : Call Payload} (h : v.Answered call)
    (hStored : v.stored = w.stored)
    (hMap : call.progress = .published → v.responseMap.has call.responseKey = true →
      w.responseMap.has call.responseKey = true) : w.Answered call := by
  unfold Answered at h ⊢
  rw [hStored] at h
  cases hProgress : call.progress with
  | published =>
      rw [hProgress] at h
      exact fun r hr hKey => hMap hProgress (h r hr hKey)
  | waiting | woken r | returned r | resolved r | timedOut =>
      rw [hProgress] at h
      exact h

/-- The map keeps the last response under each key. -/
theorem get_set (w : World Payload) (r : ResponseWrapper Payload) (key : String) :
    (w.set r.responseKey r).responseMap.map.get key =
      if key = r.responseKey then some r else w.responseMap.map.get key :=
  KeyedMap.get_set _ _ _ _

/-- A response that is there stays, and the new one is there. -/
theorem has_set {w : World Payload} {r : ResponseWrapper Payload} {key : String}
    (h : w.responseMap.has key = true ∨ key = r.responseKey) :
    (w.set r.responseKey r).responseMap.has key = true := by
  rw [AsyncMap.has, KeyedMap.has, get_set]
  split
  · rfl
  · exact h.resolve_right ‹_›

/-- The calls that wait after a key was set are those that wait for another one. -/
theorem wake_eq_waiting_iff {key own : String} {response : ResponseWrapper Payload}
    {call : Call Payload} :
    wake key response call = ⟨own, .waiting⟩ ↔ call = ⟨own, .waiting⟩ ∧ own ≠ key := by
  obtain ⟨responseKey, progress⟩ := call
  cases progress with
  | waiting =>
      by_cases hKey : responseKey = key
      · rw [wake, if_pos hKey]
        simp [hKey, eq_comm]
      · rw [wake, if_neg hKey]
        constructor
        · intro hSame
          obtain rfl := (Call.mk.inj hSame).1
          exact ⟨rfl, hKey⟩
        · exact And.left
  | published | woken _ | returned _ | resolved _ | timedOut => simp [wake]

/-- A response changes no key of a call. -/
theorem Sound.map_responseKey_set {w : World Payload} (h : w.Sound)
    (r : ResponseWrapper Payload) :
    (w.set r.responseKey r).calls.map Call.responseKey = w.calls.map Call.responseKey := by
  rw [h.calls_set, List.map_map]
  exact List.map_congr_left fun call _ => responseKey_wake r.responseKey r call

/-- A call that has missed no response misses none when the next one is put into
the map: it wakes the call if the call waits for it. -/
theorem Answered.set {w : World Payload} {call : Call Payload} (h : w.Answered call)
    {r : ResponseWrapper Payload} {stored : List (ResponseWrapper Payload)}
    (hStored : ∀ r', r' ∈ stored ↔ r' ∈ w.stored ∨ r' = r) :
    (World.set { w with stored } r.responseKey r).Answered (wake r.responseKey r call) := by
  obtain ⟨key, progress⟩ := call
  cases progress with
  | published =>
      intro r' hr' hKey
      refine has_set (w := { w with stored }) ?_
      rcases (hStored r').mp hr' with hBefore | rfl
      · exact Or.inl (h r' hBefore hKey)
      · exact Or.inr hKey.symm
  | waiting =>
      rw [wake]
      split
      · rename_i hKey
        exact ⟨(hStored r).mpr (Or.inr rfl), hKey.symm⟩
      · rename_i hKey
        intro r' hr'
        rcases (hStored r').mp hr' with hBefore | rfl
        · exact h r' hBefore
        · exact fun hSame => hKey hSame.symm
  | woken r' => exact ⟨(hStored r').mpr (Or.inl h.1), h.2⟩
  | returned response | resolved response =>
      obtain ⟨r', hMem, hSome, hKey⟩ := h
      exact ⟨r', (hStored r').mpr (Or.inl hMem), hSome, hKey⟩
  | timedOut => trivial

/-- A response is put into the map, for the first time or again. -/
theorem Sound.set {w : World Payload} (h : w.Sound) {r : ResponseWrapper Payload}
    {stored : List (ResponseWrapper Payload)}
    (hStored : ∀ r', r' ∈ stored ↔ r' ∈ w.stored ∨ r' = r) :
    (World.set { w with stored } r.responseKey r).Sound := by
  have hCalls : (World.set { w with stored } r.responseKey r).calls =
      w.calls.map (wake r.responseKey r) := h.calls_set r.responseKey r
  have hKeys : (World.set { w with stored } r.responseKey r).calls.map Call.responseKey =
      w.calls.map Call.responseKey := h.map_responseKey_set r
  refine ⟨h.registered.set r.responseKey r, ?_, ?_, ?_, ?_, ?_⟩
  · rw [hKeys]
    exact h.keys
  · intro waiter
    rw [hCalls, List.getElem?_map]
    change waiter ∈ (w.responseMap.set r.responseKey r).distributer.listeners ↔ _
    rw [h.registered.mem_listeners_set, h.listeners]
    simp only [Option.map_eq_some_iff, wake_eq_waiting_iff]
    constructor
    · intro hWaiting
      exact ⟨_, hWaiting.1, rfl, hWaiting.2⟩
    · rintro ⟨call, hCall, rfl, hKey⟩
      exact ⟨hCall, hKey⟩
  · intro key response hEntry
    rw [get_set] at hEntry
    split at hEntry
    · obtain rfl := Option.some.inj hEntry
      exact ⟨(hStored r).mpr (Or.inr rfl), Eq.symm ‹_›⟩
    · obtain ⟨hMem, hKey⟩ := h.mapped key response hEntry
      exact ⟨(hStored response).mpr (Or.inl hMem), hKey⟩
  · intro r' hr' hUnclaimed
    rw [hKeys] at hUnclaimed
    refine has_set (w := { w with stored }) ?_
    rcases (hStored r').mp hr' with hBefore | rfl
    · exact Or.inl (h.early r' hBefore hUnclaimed)
    · exact Or.inr rfl
  · intro call hCall
    rw [hCalls] at hCall
    obtain ⟨call, hOld, rfl⟩ := List.mem_map.mp hCall
    exact (h.answered call hOld).set hStored

/-- One call moves on; the map and the subscriptions change for its key only. -/
theorem Sound.update {w : World Payload} (h : w.Sound) {i : Nat} {call : Call Payload}
    (hCall : w.calls[i]? = some call) {responseMap : AsyncMap (ResponseWrapper Payload)}
    {progress : Progress Payload}
    (hRegistered : AsyncMap.Registered responseMap.distributer)
    (hListeners : ∀ waiter, waiter ∈ responseMap.distributer.listeners ↔
      if waiter.subId = i then waiter.key = call.responseKey ∧ progress = .waiting
      else waiter ∈ w.responseMap.distributer.listeners)
    (hMapped : ∀ key r, responseMap.map.get key = some r → w.responseMap.map.get key = some r)
    (hOthers : ∀ key ≠ call.responseKey,
      responseMap.map.get key = w.responseMap.map.get key)
    (hAnswered : World.Answered { w with responseMap } ⟨call.responseKey, progress⟩) :
    World.Sound { w with responseMap, calls := setProgress i progress w.calls } where
  registered := hRegistered
  keys := by
    rw [map_responseKey_setProgress]
    exact h.keys
  listeners := by
    intro waiter
    change waiter ∈ responseMap.distributer.listeners ↔
      (setProgress i progress w.calls)[waiter.subId]? = _
    rw [hListeners]
    by_cases hSelf : waiter.subId = i
    · rw [if_pos hSelf, hSelf, getElem?_setProgress_self hCall, Option.some_inj,
        Call.mk.injEq, eq_comm]
    · rw [if_neg hSelf, getElem?_setProgress_ne hSelf, h.listeners]
  mapped := fun key r hGet => h.mapped key r (hMapped key r hGet)
  early := by
    intro r hr hUnclaimed
    rw [map_responseKey_setProgress] at hUnclaimed
    have hKey : r.responseKey ≠ call.responseKey := by
      intro hSame
      exact hUnclaimed (hSame ▸ List.mem_map_of_mem (List.mem_of_getElem? hCall))
    rw [AsyncMap.has, KeyedMap.has, hOthers _ hKey]
    exact h.early r hr hUnclaimed
  answered := by
    intro other hOther
    obtain ⟨j, hj⟩ := List.mem_iff_getElem?.mp hOther
    by_cases hSelf : j = i
    · rw [hSelf, getElem?_setProgress_self hCall] at hj
      obtain rfl := Option.some.inj hj
      exact hAnswered
    · rw [getElem?_setProgress_ne hSelf] at hj
      have hKey : other.responseKey ≠ call.responseKey := fun hSame =>
        hSelf (h.index_eq hj hCall hSame)
      refine (h.answered other (List.mem_of_getElem? hj)).imp rfl (fun _ hHas => ?_)
      rw [AsyncMap.has, KeyedMap.has, hOthers _ hKey]
      exact hHas

/-- The same when the subscriptions stay as they are: the call neither waited
nor waits now. -/
theorem Sound.setProgress {w : World Payload} (h : w.Sound) {i : Nat} {call : Call Payload}
    (hCall : w.calls[i]? = some call) (hBefore : call.progress ≠ .waiting)
    {responseMap : AsyncMap (ResponseWrapper Payload)} {progress : Progress Payload}
    (hAfter : progress ≠ .waiting)
    (hDistributer : responseMap.distributer = w.responseMap.distributer)
    (hMapped : ∀ key r, responseMap.map.get key = some r → w.responseMap.map.get key = some r)
    (hOthers : ∀ key ≠ call.responseKey,
      responseMap.map.get key = w.responseMap.map.get key)
    (hAnswered : World.Answered { w with responseMap } ⟨call.responseKey, progress⟩) :
    World.Sound { w with responseMap, calls := World.setProgress i progress w.calls } := by
  refine h.update hCall (hDistributer ▸ h.registered) (fun waiter => ?_) hMapped hOthers hAnswered
  rw [hDistributer]
  by_cases hSelf : waiter.subId = i
  · rw [if_pos hSelf, h.listeners, hSelf, hCall]
    constructor
    · intro hWaiting
      rw [Option.some.inj hWaiting] at hBefore
      exact absurd rfl hBefore
    · exact fun hWaiting => absurd hWaiting.2 hAfter
  · rw [if_neg hSelf]

/-- A query goes out under a key that no call has. -/
theorem Sound.execute {w : World Payload} (h : w.Sound) {responseKey : String}
    (hFresh : responseKey ∉ w.calls.map Call.responseKey) :
    World.Sound { w with calls := w.calls ++ [⟨responseKey, .published⟩] } where
  registered := h.registered
  keys := KeyedMap.nodup_map_concat h.keys hFresh
  listeners := by
    intro waiter
    rw [h.listeners, List.getElem?_append]
    split
    · rfl
    · rename_i hLength
      rw [List.getElem?_eq_none (Nat.le_of_not_lt hLength)]
      constructor
      · intro hNone
        cases hNone
      · intro hLast
        have hMem := List.mem_singleton.mp (List.mem_of_getElem? hLast)
        cases hMem
  mapped := h.mapped
  early := by
    intro r hr hUnclaimed
    rw [List.map_append, List.mem_append, not_or] at hUnclaimed
    exact h.early r hr hUnclaimed.1
  answered := by
    intro call hCall
    rcases List.mem_append.mp hCall with hOld | hNew
    · exact (h.answered call hOld).imp rfl fun _ hHas => hHas
    · rw [List.mem_singleton.mp hNew]
      intro r hr hKey
      have hHas := h.early r hr (hKey.symm ▸ hFresh)
      exact hKey ▸ hHas

/-- `waitGet` finds the response that has come before. -/
theorem Sound.found {w : World Payload} (h : w.Sound) {responseKey : String}
    (hHas : w.responseMap.has responseKey = true) :
    ∃ r ∈ w.stored, w.responseMap.get truthy responseKey = some r ∧
      r.responseKey = responseKey := by
  obtain ⟨r, hGet⟩ := Option.isSome_iff_exists.mp hHas
  obtain ⟨hMem, hKey⟩ := h.mapped responseKey r hGet
  exact ⟨r, hMem, by simp [AsyncMap.get, hGet, truthy], hKey⟩

/-- A call begins to wait when its response is not there. -/
theorem Sound.awaitResponse {w : World Payload} (h : w.Sound) {i : Nat} {responseKey : String}
    (hCall : w.calls[i]? = some ⟨responseKey, .published⟩)
    (hMissing : w.responseMap.has responseKey = false) :
    World.Sound
      { w with
        responseMap := { w.responseMap with
          distributer := w.responseMap.distributer.subscribe i ⟨i, responseKey⟩ }
        calls := World.setProgress i .waiting w.calls } := by
  have hFree : ∀ waiter ∈ w.responseMap.distributer.listeners, waiter.subId ≠ i := by
    intro waiter hMem hSelf
    have hWaiting := (h.listeners waiter).mp hMem
    rw [hSelf, hCall] at hWaiting
    cases hWaiting
  refine h.update hCall (h.registered.subscribe ⟨i, responseKey⟩ hFree) ?_
    (fun _ _ hGet => hGet) (fun _ _ => rfl) ?_
  · intro waiter
    change waiter ∈ w.responseMap.distributer.listeners ++ [⟨i, responseKey⟩] ↔ _
    rw [List.mem_append, List.mem_singleton]
    split
    · rename_i hSelf
      have hOld : waiter ∉ w.responseMap.distributer.listeners := fun hMem =>
        hFree waiter hMem hSelf
      rw [or_iff_right hOld, and_iff_left rfl, ← hSelf]
      constructor
      · intro hEq
        rw [hEq]
      · rintro rfl
        rfl
    · rename_i hOther
      refine or_iff_left ?_
      rintro rfl
      exact hOther rfl
  · intro r hr hKey
    have hHas := h.answered _ (List.mem_of_getElem? hCall) r hr hKey
    rw [hMissing] at hHas
    cases hHas

/-- A call that waits is given up. -/
theorem Sound.timeout {w : World Payload} (h : w.Sound) {i : Nat} {responseKey : String}
    (hCall : w.calls[i]? = some ⟨responseKey, .waiting⟩) :
    World.Sound
      { w with
        responseMap := w.responseMap.timeout i
        calls := World.setProgress i .timedOut w.calls } := by
  refine h.update hCall (h.registered.unsubscribe i) ?_ (fun _ _ hGet => hGet)
    (fun _ _ => rfl) trivial
  intro waiter
  change waiter ∈ (w.responseMap.distributer.unsubscribe i).listeners ↔ _
  rw [h.registered.mem_unsubscribe]
  split
  · rename_i hSelf
    simp [hSelf]
  · rename_i hOther
    exact and_iff_left hOther

/-- A call of whom a response has arrived moves to `returned`. -/
theorem Sound.return {w : World Payload} (h : w.Sound) {i : Nat} {call : Call Payload}
    (hCall : w.calls[i]? = some call) (hBefore : call.progress ≠ .waiting)
    {response : Option (ResponseWrapper Payload)}
    (hOwn : ∃ r ∈ w.stored, response = some r ∧ r.responseKey = call.responseKey) :
    World.Sound { w with calls := World.setProgress i (.returned response) w.calls } :=
  h.setProgress hCall hBefore (by simp) rfl (fun _ _ hGet => hGet) (fun _ _ => rfl) hOwn

/-- A call that has its answer deletes the response. -/
theorem Sound.finish {w : World Payload} (h : w.Sound) {i : Nat} {responseKey : String}
    {response : Option (ResponseWrapper Payload)}
    (hCall : w.calls[i]? = some ⟨responseKey, .returned response⟩) :
    World.Sound
      { w with
        responseMap := w.responseMap.delete responseKey
        calls := World.setProgress i (.resolved response) w.calls } := by
  refine h.setProgress hCall (by simp) (by simp) rfl ?_ ?_
    (h.answered _ (List.mem_of_getElem? hCall))
  · intro key r hGet
    rw [AsyncMap.delete] at hGet
    exact (KeyedMap.get_delete_eq_some_iff.mp hGet).2
  · intro key hKey
    exact KeyedMap.get_delete_ne _ hKey

/-- The call is still woken after the key was set again: nobody waits for it. -/
theorem getElem?_set_woken {w : World Payload} (h : w.Sound) {i : Nat} {responseKey : String}
    {r : ResponseWrapper Payload} (hCall : w.calls[i]? = some ⟨responseKey, .woken r⟩) :
    (w.set responseKey r).calls[i]? = some ⟨responseKey, .woken r⟩ := by
  rw [h.calls_set, List.getElem?_map, hCall]
  rfl

/-- A call that was woken returns what it was woken with. -/
theorem Sound.resume {w : World Payload} (h : w.Sound) {i : Nat} {responseKey : String}
    {r : ResponseWrapper Payload} (hCall : w.calls[i]? = some ⟨responseKey, .woken r⟩) :
    World.Sound
      { w.set responseKey r with
        calls := World.setProgress i (.returned (some r)) (w.set responseKey r).calls } := by
  obtain ⟨hMem, hKey⟩ : r ∈ w.stored ∧ r.responseKey = responseKey :=
    h.answered _ (List.mem_of_getElem? hCall)
  have hSame : ∀ r', r' ∈ w.stored ↔ r' ∈ w.stored ∨ r' = r := by
    intro r'
    refine (or_iff_left_of_imp ?_).symm
    rintro rfl
    exact hMem
  have hSet : (w.set r.responseKey r).Sound := h.set hSame
  rw [hKey] at hSet
  exact hSet.return (getElem?_set_woken h hCall) (by simp) ⟨r, hMem, rfl, hKey⟩

variable {parseResponse : String → Except Thrown (ResponseWrapper Payload)}

/-- Each step keeps the invariant. -/
theorem Sound.step {w t : World Payload} {a : Action} (h : w.Sound)
    (hStep : step parseResponse w a = some t) : t.Sound := by
  cases a with
  | execute responseKey =>
      rw [World.step] at hStep
      split at hStep
      · cases hStep
      · obtain rfl := Option.some.inj hStep
        exact h.execute ‹_›
  | awaitResponse i =>
      rw [World.step] at hStep
      split at hStep
      · rename_i responseKey hCall
        unfold AsyncMap.waitGet at hStep
        cases hHas : w.responseMap.has responseKey with
        | true =>
            rw [hHas, if_pos rfl] at hStep
            obtain rfl := Option.some.inj hStep
            obtain ⟨r, hMem, hGet, hKey⟩ := h.found hHas
            exact h.return hCall (by simp) ⟨r, hMem, hGet, hKey⟩
        | false =>
            rw [hHas, if_neg Bool.false_ne_true] at hStep
            obtain rfl := Option.some.inj hStep
            exact h.awaitResponse hCall hHas
      · cases hStep
  | handleResponse responseJSON =>
      rw [World.step] at hStep
      split at hStep
      · exact Option.some.inj hStep ▸ h
      · obtain rfl := Option.some.inj hStep
        exact h.set (by simp)
  | resume i =>
      rw [World.step] at hStep
      split at hStep
      · rename_i hCall
        obtain rfl := Option.some.inj hStep
        exact h.resume hCall
      · cases hStep
  | finish i =>
      rw [World.step] at hStep
      split at hStep
      · rename_i hCall
        obtain rfl := Option.some.inj hStep
        exact h.finish hCall
      · cases hStep
  | timeout i =>
      rw [World.step] at hStep
      split at hStep
      · rename_i hCall
        obtain rfl := Option.some.inj hStep
        exact h.timeout hCall
      · cases hStep

/-- A call that ended with a response has one of its own key. -/
def ResolvedRight (w : World Payload) (call : Call Payload) : Prop :=
  ∀ response, call.progress = .resolved response →
    ∃ r ∈ w.stored, response = some r ∧ r.responseKey = call.responseKey

/-- Once a response with its key has come, a call that is not timed out resolves
with such a response after its own next steps, whatever the others wait for. -/
def Resolves (parseResponse : String → Except Thrown (ResponseWrapper Payload))
    (w : World Payload) (i : Nat) (call : Call Payload) : Prop :=
  call.progress ≠ .timedOut → (∃ r ∈ w.stored, r.responseKey = call.responseKey) →
    ∃ next, (∀ a ∈ next, a = .awaitResponse i ∨ a = .resume i ∨ a = .finish i) ∧
      ∃ t, Runs.exec (step parseResponse) w next = some t ∧
        ∃ r ∈ w.stored, r.responseKey = call.responseKey ∧
          t.calls[i]? = some ⟨call.responseKey, .resolved (some r)⟩

/-- Every call that has its response got its own, or is about to. -/
def Matched (parseResponse : String → Except Thrown (ResponseWrapper Payload))
    (w : World Payload) : Prop :=
  ∀ i call, w.calls[i]? = some call →
    w.ResolvedRight call ∧ w.Resolves parseResponse i call

/-- One step more. -/
theorem exec_finish {w : World Payload} {i : Nat} {responseKey : String}
    {response : Option (ResponseWrapper Payload)}
    (hCall : w.calls[i]? = some ⟨responseKey, .returned response⟩) :
    ∃ t, Runs.exec (step parseResponse) w [.finish i] = some t ∧
      t.calls[i]? = some ⟨responseKey, .resolved response⟩ := by
  have hStep : step parseResponse w (.finish i) = some
      { w with
        responseMap := w.responseMap.delete responseKey
        calls := World.setProgress i (.resolved response) w.calls } := by
    rw [World.step, hCall]
  exact ⟨_, Runs.exec_cons_of_step hStep [], getElem?_setProgress_self hCall _⟩

/-- Two steps more for a call that was woken. -/
theorem exec_resume {w : World Payload} (h : w.Sound) {i : Nat} {responseKey : String}
    {r : ResponseWrapper Payload} (hCall : w.calls[i]? = some ⟨responseKey, .woken r⟩) :
    ∃ t, Runs.exec (step parseResponse) w [.resume i, .finish i] = some t ∧
      t.calls[i]? = some ⟨responseKey, .resolved (some r)⟩ := by
  have hStep : step parseResponse w (.resume i) = some
      { w.set responseKey r with
        calls := World.setProgress i (.returned (some r)) (w.set responseKey r).calls } := by
    rw [World.step, hCall]
  rw [Runs.exec_cons_of_step hStep]
  exact exec_finish (getElem?_setProgress_self (getElem?_set_woken h hCall) _)

/-- Two steps more for a call that finds its response. -/
theorem exec_awaitResponse {w : World Payload} {i : Nat} {responseKey : String}
    {response : Option (ResponseWrapper Payload)}
    (hCall : w.calls[i]? = some ⟨responseKey, .published⟩)
    (hHas : w.responseMap.has responseKey = true)
    (hGet : w.responseMap.get truthy responseKey = response) :
    ∃ t, Runs.exec (step parseResponse) w [.awaitResponse i, .finish i] = some t ∧
      t.calls[i]? = some ⟨responseKey, .resolved response⟩ := by
  have hStep : step parseResponse w (.awaitResponse i) = some
      { w with calls := World.setProgress i (.returned response) w.calls } := by
    simp only [World.step, hCall]
    rw [AsyncMap.waitGet, hHas, if_pos rfl, hGet]
  rw [Runs.exec_cons_of_step hStep]
  exact exec_finish (getElem?_setProgress_self hCall _)

/-- Wherever a call is, it can be brought to its end. -/
theorem Sound.resolves {w : World Payload} (h : w.Sound) {i : Nat} {call : Call Payload}
    (hCall : w.calls[i]? = some call) : w.Resolves parseResponse i call := by
  rintro hInTime ⟨r, hMem, hKey⟩
  have hAnswered := h.answered call (List.mem_of_getElem? hCall)
  obtain ⟨responseKey, progress⟩ := call
  cases progress with
  | published =>
      have hHas := hAnswered r hMem hKey
      obtain ⟨r', hMem', hGet, hKey'⟩ := h.found hHas
      obtain ⟨t, hRun, hEnd⟩ := exec_awaitResponse hCall hHas hGet
      exact ⟨_, by simp, t, hRun, r', hMem', hKey', hEnd⟩
  | waiting => exact absurd hKey (hAnswered r hMem)
  | woken r' =>
      obtain ⟨t, hRun, hEnd⟩ := exec_resume h hCall
      exact ⟨_, by simp, t, hRun, r', hAnswered.1, hAnswered.2, hEnd⟩
  | returned response =>
      obtain ⟨r', hMem', rfl, hKey'⟩ := hAnswered
      obtain ⟨t, hRun, hEnd⟩ := exec_finish hCall
      exact ⟨_, by simp, t, hRun, r', hMem', hKey', hEnd⟩
  | resolved response =>
      obtain ⟨r', hMem', rfl, hKey'⟩ := hAnswered
      exact ⟨[], by simp, w, rfl, r', hMem', hKey', hCall⟩
  | timedOut => exact absurd rfl hInTime

/-- A call is resolved with the response under its own key. -/
theorem Sound.resolvedRight {w : World Payload} (h : w.Sound) {call : Call Payload}
    (hCall : call ∈ w.calls) : w.ResolvedRight call := by
  intro response hProgress
  have hAnswered := h.answered call hCall
  rw [Answered, hProgress] at hAnswered
  exact hAnswered

/-- In every run of external queries, whatever the order in which responses are
stored and waiters go on, each call gets the response to its own query. -/
theorem responses_matched (parseResponse : String → Except Thrown (ResponseWrapper Payload))
    (actions : List Action) :
    Runs.Always (step parseResponse) (Matched parseResponse) new actions := by
  refine Runs.always_of_allowed Sound (fun _ => True) (fun _ _ _ _ h hStep => h.step hStep) ?_
    sound_new (fun _ _ => trivial)
  intro w h i call hCall
  exact ⟨h.resolvedRight (List.mem_of_getElem? hCall), h.resolves hCall⟩

end World

end AwaitResponse

end Moirae
