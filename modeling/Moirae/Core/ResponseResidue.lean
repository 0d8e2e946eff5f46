import Moirae.Core.AwaitResponse

/-! What is left in the response map once every query has ended. A response that
comes after its query timed out is never taken out again. -/
namespace Moirae.AwaitResponse.World

variable {Payload : Type}

/-- Neither a response nor a closure of a `waitGet` is left. -/
def NoResidue (w : World Payload) : Prop :=
  w.responseMap.map.entries = [] ∧ w.responseMap.distributer.listeners = [] ∧
    w.responseMap.distributer.subscriptions.entries = []

def Settled (w : World Payload) : Prop :=
  ∀ call ∈ w.calls, call.progress = .timedOut ∨ ∃ response, call.progress = .resolved response

/-- Every response is for one of the calls, and no call gets two. -/
structure OneEach (w : World Payload) : Prop where
  keys : (w.stored.map ResponseWrapper.responseKey).Nodup
  awaited : ∀ r ∈ w.stored, r.responseKey ∈ w.calls.map Call.responseKey

/-- No response was stored for a call that has timed out. -/
def NoneLate (w : World Payload) : Prop :=
  ∀ key, ⟨key, .timedOut⟩ ∈ w.calls → ∀ r ∈ w.stored, r.responseKey ≠ key

/-- A response that is stored is not for a call that has timed out. -/
def InTime (parseResponse : String → Except Thrown (ResponseWrapper Payload)) (w : World Payload) :
    Action → Prop
  | .handleResponse responseJSON =>
      ∀ r, parseResponse responseJSON = .ok r → ⟨r.responseKey, .timedOut⟩ ∉ w.calls
  | _ => True

/-- Where the response of a call that has ended is: a late one stays in the map,
any other one has been taken out. -/
def Accounted (w : World Payload) (call : Call Payload) : Prop :=
  match call.progress with
  | .timedOut => ∀ r ∈ w.stored, r.responseKey = call.responseKey →
      w.responseMap.has call.responseKey = true
  | .resolved _ => (w.stored.map ResponseWrapper.responseKey).Nodup →
      w.responseMap.has call.responseKey = false
  | .published | .waiting | .woken _ | .returned _ => True

/-- Calls are told apart by their keys, so a call that moves on leaves the others
as they are. -/
theorem mem_setProgress {calls : List (Call Payload)} (hKeys : (calls.map Call.responseKey).Nodup)
    {i : Nat} {call : Call Payload} (hCall : calls[i]? = some call) (progress : Progress Payload)
    {other : Call Payload} : other ∈ setProgress i progress calls ↔
      other = ⟨call.responseKey, progress⟩ ∨
        other ∈ calls ∧ other.responseKey ≠ call.responseKey := by
  have hIndex : ∀ j, calls[j]? = some other → other.responseKey = call.responseKey → j = i := by
    intro j hj hSame
    have hLength : j < (calls.map Call.responseKey).length := by
      rw [List.length_map]
      exact (List.getElem?_eq_some_iff.mp hj).1
    refine (List.getElem?_inj hLength hKeys).mp ?_
    simp [hj, hCall, hSame]
  constructor
  · intro hOther
    obtain ⟨j, hj⟩ := List.mem_iff_getElem?.mp hOther
    by_cases hSelf : j = i
    · rw [hSelf, getElem?_setProgress_self hCall] at hj
      exact .inl (Option.some.inj hj).symm
    · rw [getElem?_setProgress_ne hSelf] at hj
      exact .inr ⟨List.mem_of_getElem? hj, fun hSame => hSelf (hIndex j hj hSame)⟩
  · rintro (rfl | ⟨hOther, hNe⟩)
    · exact List.mem_of_getElem? (getElem?_setProgress_self hCall progress)
    · obtain ⟨j, hj⟩ := List.mem_iff_getElem?.mp hOther
      have hSelf : j ≠ i := by
        rintro rfl
        rw [hj] at hCall
        exact hNe (congrArg Call.responseKey (Option.some.inj hCall))
      rw [← getElem?_setProgress_ne hSelf calls progress] at hj
      exact List.mem_of_getElem? hj

/-- Waking changes calls that wait and nothing else. -/
theorem mem_map_wake {calls : List (Call Payload)} {key : String}
    {response : ResponseWrapper Payload} {call : Call Payload} (hWaiting : call.progress ≠ .waiting)
    (hWoken : ∀ r, call.progress ≠ .woken r) :
    call ∈ calls.map (wake key response) ↔ call ∈ calls := by
  rw [List.mem_map]
  constructor
  · rintro ⟨old, hOld, rfl⟩
    obtain ⟨responseKey, progress⟩ := old
    cases progress with
    | waiting =>
        rw [wake] at hWaiting hWoken
        split at hWoken
        · exact absurd rfl (hWoken response)
        · rw [if_neg ‹_›] at hWaiting
          exact absurd rfl hWaiting
    | published | woken _ | returned _ | resolved _ | timedOut => exact hOld
  · intro hCall
    refine ⟨call, hCall, ?_⟩
    obtain ⟨responseKey, progress⟩ := call
    cases progress with
    | waiting => exact absurd rfl hWaiting
    | published | woken _ | returned _ | resolved _ | timedOut => rfl

variable {parseResponse : String → Except Thrown (ResponseWrapper Payload)}

/-- What a step does to the calls and the map. -/
inductive Stepped (parseResponse : String → Except Thrown (ResponseWrapper Payload))
    (w : World Payload) : Action → World Payload → Prop
  | executed (responseKey : String) : Stepped parseResponse w (.execute responseKey)
      { w with calls := w.calls ++ [⟨responseKey, .published⟩] }
  | ignored {responseJSON : String} {reason : Thrown} :
      parseResponse responseJSON = .error reason →
      Stepped parseResponse w (.handleResponse responseJSON) w
  | stored {responseJSON : String} {r : ResponseWrapper Payload} :
      parseResponse responseJSON = .ok r →
      Stepped parseResponse w (.handleResponse responseJSON)
        (World.set { w with stored := w.stored ++ [r] } r.responseKey r)
  /-- One call moves on; the map changes for its key only. -/
  | moved {action : Action} {i : Nat} {call : Call Payload}
      {responseMap : AsyncMap (ResponseWrapper Payload)} {progress : Progress Payload} :
      InTime parseResponse w action → w.calls[i]? = some call → call.progress ≠ .timedOut →
      (progress = .timedOut → call.progress = .waiting) →
      (∀ response, progress = .resolved response → responseMap.has call.responseKey = false) →
      (∀ key ≠ call.responseKey, responseMap.has key = w.responseMap.has key) →
      Stepped parseResponse w action
        { w with responseMap, calls := setProgress i progress w.calls }

theorem has_set_of_ne (w : World Payload) {r : ResponseWrapper Payload} {key other : String}
    (h : other ≠ key) : (w.set key r).responseMap.has other = w.responseMap.has other :=
  congrArg Option.isSome (KeyedMap.get_set_ne w.responseMap.map h r)

/-- Nobody waits for the key of a call that was woken. -/
theorem calls_set_of_woken {w : World Payload} (h : w.Sound) {i : Nat} {responseKey : String}
    {r : ResponseWrapper Payload} (hCall : w.calls[i]? = some ⟨responseKey, .woken r⟩) :
    (w.set responseKey r).calls = w.calls := by
  rw [h.calls_set]
  refine (List.map_congr_left fun call hMem => ?_).trans (List.map_id _)
  obtain ⟨j, hj⟩ := List.mem_iff_getElem?.mp hMem
  obtain ⟨own, progress⟩ := call
  cases progress with
  | waiting =>
      rw [wake, if_neg]
      · rfl
      · rintro rfl
        obtain rfl : j = i := h.index_eq hj hCall rfl
        rw [hj] at hCall
        cases hCall
  | published | woken _ | returned _ | resolved _ | timedOut => rfl

theorem stepped_of_step {w t : World Payload} {action : Action} (h : w.Sound)
    (hStep : step parseResponse w action = some t) : Stepped parseResponse w action t := by
  cases action with
  | execute responseKey =>
      rw [World.step] at hStep
      split at hStep
      · cases hStep
      · cases hStep
        exact .executed responseKey
  | awaitResponse i =>
      rw [World.step] at hStep
      split at hStep
      · rename_i responseKey hCall
        unfold AsyncMap.waitGet at hStep
        cases hHas : w.responseMap.has responseKey with
        | true =>
            rw [hHas, if_pos rfl] at hStep
            cases hStep
            exact .moved trivial hCall (by simp) (by simp) (by simp) fun _ _ => rfl
        | false =>
            rw [hHas, if_neg Bool.false_ne_true] at hStep
            cases hStep
            exact .moved trivial hCall (by simp) (by simp) (by simp) fun _ _ => rfl
      · cases hStep
  | handleResponse responseJSON =>
      rw [World.step] at hStep
      cases hParse : parseResponse responseJSON with
      | error reason =>
          rw [hParse] at hStep
          cases hStep
          exact .ignored hParse
      | ok r =>
          rw [hParse] at hStep
          cases hStep
          exact .stored hParse
  | resume i =>
      rw [World.step] at hStep
      split at hStep
      · rename_i responseKey r hCall
        cases hStep
        rw [calls_set_of_woken h hCall]
        exact .moved trivial hCall (by simp) (by simp) (by simp)
          fun key hKey => has_set_of_ne w hKey
      · cases hStep
  | finish i =>
      rw [World.step] at hStep
      split at hStep
      · rename_i responseKey response hCall
        cases hStep
        refine .moved trivial hCall (by simp) (by simp) (fun _ _ => ?_) fun key hKey => ?_
        · simp [AsyncMap.has, AsyncMap.delete, KeyedMap.has, KeyedMap.get_delete]
        · exact congrArg Option.isSome (KeyedMap.get_delete_ne _ hKey)
      · cases hStep
  | timeout i =>
      rw [World.step] at hStep
      split at hStep
      · rename_i responseKey hCall
        cases hStep
        exact .moved trivial hCall (by simp) (fun _ => rfl) (by simp) fun _ _ => rfl
      · cases hStep

/-- A call that has moved on is accounted for, and so are the others. -/
theorem Accounted.set {w : World Payload} (h : w.Sound) {call : Call Payload}
    (hCall : call ∈ w.calls) (hAccounted : w.Accounted call) (r : ResponseWrapper Payload) :
    (World.set { w with stored := w.stored ++ [r] } r.responseKey r).Accounted call := by
  obtain ⟨key, progress⟩ := call
  cases progress with
  | published | waiting | woken _ | returned _ => trivial
  | timedOut =>
      intro r' hr' hKey
      refine has_set (w := { w with stored := w.stored ++ [r] }) ?_
      rcases List.mem_append.mp hr' with hOld | hNew
      · exact .inl (hAccounted r' hOld hKey)
      · exact .inr (List.mem_singleton.mp hNew ▸ hKey.symm)
  | resolved response =>
      intro hNodup
      obtain ⟨own, hOwn, -, hKey⟩ := h.resolvedRight hCall response rfl
      change (List.map _ (w.stored ++ [r])).Nodup at hNodup
      rw [List.map_append, List.map_singleton, ← List.concat_eq_append,
        List.nodup_concat] at hNodup
      -- Its own response was stored before, so this one is another call's.
      have hNe : key ≠ r.responseKey := by
        rintro rfl
        exact hNodup.1 (List.mem_map.mpr ⟨own, hOwn, hKey⟩)
      rw [has_set_of_ne _ hNe]
      exact hAccounted hNodup.2

/-- A call that waits has missed no response. -/
theorem Sound.answered_of_waiting {w : World Payload} (h : w.Sound) {call : Call Payload}
    (hCall : call ∈ w.calls) (hWaiting : call.progress = .waiting) :
    ∀ r ∈ w.stored, r.responseKey ≠ call.responseKey := by
  have hAnswered := h.answered call hCall
  rw [Answered, hWaiting] at hAnswered
  exact hAnswered

theorem accounted_moved {w : World Payload} (h : w.Sound) {i : Nat} {call : Call Payload}
    (hCall : call ∈ w.calls) {responseMap : AsyncMap (ResponseWrapper Payload)}
    {progress : Progress Payload} (hTimedOut : progress = .timedOut → call.progress = .waiting)
    (hResolved : ∀ response, progress = .resolved response →
      responseMap.has call.responseKey = false) :
    Accounted { w with responseMap, calls := setProgress i progress w.calls }
      ⟨call.responseKey, progress⟩ := by
  cases progress with
  | published | waiting | woken _ | returned _ => trivial
  | timedOut =>
      exact fun r hr hKey => absurd hKey (h.answered_of_waiting hCall (hTimedOut rfl) r hr)
  | resolved response => exact fun _ => hResolved response rfl

theorem Accounted.congr {w : World Payload} {call : Call Payload} (h : w.Accounted call)
    {responseMap : AsyncMap (ResponseWrapper Payload)} {calls : List (Call Payload)}
    (hHas : responseMap.has call.responseKey = w.responseMap.has call.responseKey) :
    Accounted { w with responseMap, calls } call := by
  obtain ⟨key, progress⟩ := call
  cases progress with
  | published | waiting | woken _ | returned _ => trivial
  | timedOut => exact fun r hr hKey => hHas.trans (h r hr hKey)
  | resolved response => exact fun hNodup => hHas.trans (h hNodup)

theorem accounted_step {w t : World Payload} {action : Action} (h : w.Sound)
    (hStep : step parseResponse w action = some t)
    (hAll : ∀ call ∈ w.calls, w.Accounted call) : ∀ call ∈ t.calls, t.Accounted call := by
  cases stepped_of_step h hStep with
  | executed responseKey =>
      intro call hCall
      rcases List.mem_append.mp hCall with hOld | hNew
      · exact hAll call hOld
      · rw [List.mem_singleton.mp hNew]
        trivial
  | ignored => exact hAll
  | stored hParse =>
      rename_i r
      rintro ⟨key, progress⟩ hCall
      have hWake := h.calls_set r.responseKey r
      change _ ∈ (w.set r.responseKey r).calls at hCall
      rw [hWake] at hCall
      cases progress with
      | published | waiting | woken _ | returned _ => trivial
      | timedOut | resolved _ =>
          have hOld := (mem_map_wake (by simp) (by simp)).mp hCall
          exact Accounted.set h hOld (hAll _ hOld) r
  | moved hInTime hAt hBefore hTimedOut hResolved hOthers =>
      intro other hOther
      rcases (mem_setProgress h.keys hAt _).mp hOther with rfl | ⟨hOld, hNe⟩
      · exact accounted_moved h (List.mem_of_getElem? hAt) hTimedOut hResolved
      · exact (hAll other hOld).congr (hOthers _ hNe)

/-- A response that arrives is late when its call has timed out. -/
theorem noneLate_set_iff {w : World Payload} (h : w.Sound) (r : ResponseWrapper Payload) :
    (World.set { w with stored := w.stored ++ [r] } r.responseKey r).NoneLate ↔
      w.NoneLate ∧ ⟨r.responseKey, .timedOut⟩ ∉ w.calls := by
  have hCalls : ∀ key, ⟨key, .timedOut⟩ ∈
      (World.set { w with stored := w.stored ++ [r] } r.responseKey r).calls ↔
        ⟨key, .timedOut⟩ ∈ w.calls := fun key => by
    change _ ∈ (w.set r.responseKey r).calls ↔ _
    rw [h.calls_set]
    exact mem_map_wake (by simp) (by simp)
  constructor
  · intro hLate
    constructor
    · intro key hKey r' hr'
      exact hLate key ((hCalls key).mpr hKey) r' (List.mem_append_left [r] hr')
    · intro hMem
      exact hLate _ ((hCalls _).mpr hMem) r
        (List.mem_append_right _ (List.mem_singleton.mpr rfl)) rfl
  · rintro ⟨hLate, hInTime⟩ key hKey r' hr'
    rcases List.mem_append.mp hr' with hOld | hNew
    · exact hLate key ((hCalls key).mp hKey) r' hOld
    · obtain rfl := List.mem_singleton.mp hNew
      rintro rfl
      exact hInTime ((hCalls _).mp hKey)

/-- A call that moves on makes no response late: it times out while it waits,
with no response for it. -/
theorem noneLate_moved_iff {w : World Payload} (h : w.Sound) {i : Nat} {call : Call Payload}
    (hAt : w.calls[i]? = some call) (hBefore : call.progress ≠ .timedOut)
    {progress : Progress Payload} (hTimedOut : progress = .timedOut → call.progress = .waiting)
    (responseMap : AsyncMap (ResponseWrapper Payload)) :
    NoneLate { w with responseMap, calls := setProgress i progress w.calls } ↔ w.NoneLate := by
  constructor
  · intro hLate key hKey
    refine hLate key ((mem_setProgress h.keys hAt progress).mpr (.inr ⟨hKey, ?_⟩))
    intro hSame
    obtain ⟨j, hj⟩ := List.mem_iff_getElem?.mp hKey
    obtain rfl := h.index_eq hj hAt hSame
    rw [hj] at hAt
    exact hBefore (congrArg Call.progress (Option.some.inj hAt)).symm
  · intro hLate key hKey r hr
    rcases (mem_setProgress h.keys hAt progress).mp hKey with hNew | ⟨hOld, -⟩
    · obtain ⟨rfl, hProgress⟩ := Call.mk.inj hNew
      exact h.answered_of_waiting (List.mem_of_getElem? hAt) (hTimedOut hProgress.symm) r hr
    · exact hLate key hOld r hr

/-- A response is stored late when the step was not in time, and stays so. -/
theorem noneLate_step_iff {w t : World Payload} {action : Action} (h : w.Sound)
    (hStep : step parseResponse w action = some t) :
    t.NoneLate ↔ w.NoneLate ∧ InTime parseResponse w action := by
  cases stepped_of_step h hStep with
  | executed responseKey =>
      rw [and_iff_left (show InTime parseResponse w (.execute responseKey) from trivial)]
      refine forall_congr' fun key => imp_congr_left ?_
      simp
  | ignored hParse =>
      refine (and_iff_left fun r hOk => ?_).symm
      rw [hParse] at hOk
      cases hOk
  | stored hParse =>
      rename_i r
      rw [noneLate_set_iff h r]
      apply and_congr_right
      intro _
      constructor
      · intro hInTime r' hOk
        obtain rfl := Except.ok.inj (hParse.symm.trans hOk)
        exact hInTime
      · intro hInTime
        exact hInTime r hParse
  | moved hInTime hAt hBefore hTimedOut hResolved hOthers =>
      rw [and_iff_left hInTime]
      exact noneLate_moved_iff h hAt hBefore hTimedOut _

theorem no_listeners_of_settled {w : World Payload} (h : w.Sound) (hSettled : w.Settled) :
    w.responseMap.distributer.listeners = [] ∧
      w.responseMap.distributer.subscriptions.entries = [] := by
  have hListeners : w.responseMap.distributer.listeners = [] := by
    refine List.eq_nil_iff_forall_not_mem.mpr fun waiter hWaiter => ?_
    have hWaiting := List.mem_of_getElem? ((h.listeners waiter).mp hWaiter)
    rcases hSettled _ hWaiting with hTimedOut | ⟨response, hResolved⟩
    · cases hTimedOut
    · cases hResolved
  have hClosures : w.responseMap.distributer.subscriptions.entries.map Prod.snd = [] :=
    h.registered.consistent.symm.trans hListeners
  exact ⟨hListeners, List.map_eq_nil_iff.mp hClosures⟩

/-- When all calls have ended, exactly the late responses are left. -/
theorem noResidue_iff_noneLate {w : World Payload} (h : w.Sound)
    (hAll : ∀ call ∈ w.calls, w.Accounted call) (hEach : w.OneEach) (hSettled : w.Settled) :
    w.NoResidue ↔ w.NoneLate := by
  constructor
  · rintro ⟨hEntries, -⟩ key hKey r hr hSame
    have hHas : w.responseMap.has key = true := hAll _ hKey r hr hSame
    rw [AsyncMap.has, KeyedMap.has, KeyedMap.get, hEntries] at hHas
    cases hHas
  · intro hLate
    refine ⟨List.eq_nil_iff_forall_not_mem.mpr ?_, no_listeners_of_settled h hSettled⟩
    rintro ⟨key, r⟩ hEntry
    have hGet := KeyedMap.mem_entries_iff_get.mp hEntry
    obtain ⟨hStored, rfl⟩ := h.mapped key r hGet
    obtain ⟨⟨key, progress⟩, hCall, rfl⟩ := List.mem_map.mp (hEach.awaited r hStored)
    rcases hSettled _ hCall with hTimedOut | ⟨response, hResolved⟩
    · obtain rfl : progress = .timedOut := hTimedOut
      exact hLate _ hCall r hStored rfl
    · obtain rfl : progress = .resolved response := hResolved
      have hGone : w.responseMap.has r.responseKey = false := hAll _ hCall hEach.keys
      rw [AsyncMap.has, KeyedMap.has, hGet] at hGone
      cases hGone

/-- In every run in which each call gets at most one response and all of them
end, nothing is left exactly when no response was stored for a call that had
timed out. -/
theorem noResidue_iff_inTime
    (parseResponse : String → Except Thrown (ResponseWrapper Payload)) {actions : List Action}
    {w : World Payload} (hRun : Runs.exec (step parseResponse) new actions = some w)
    (hEach : w.OneEach) (hSettled : w.Settled) :
    w.NoResidue ↔ Runs.StepsMeet (step parseResponse) (InTime parseResponse) new actions := by
  have hStep : ∀ (s : World Payload) a t, s.Sound ∧ (∀ call ∈ s.calls, s.Accounted call) →
      step parseResponse s a = some t → t.Sound ∧ ∀ call ∈ t.calls, t.Accounted call :=
    fun s a t hInv hNext => ⟨hInv.1.step hNext, accounted_step hInv.1 hNext hInv.2⟩
  have hNew : (new : World Payload).Sound ∧ ∀ call ∈ (new : World Payload).calls,
      new.Accounted call := ⟨sound_new, List.forall_mem_nil _⟩
  have hNoneLate : (new : World Payload).NoneLate := fun _ hKey => absurd hKey List.not_mem_nil
  obtain ⟨hSound, hAll⟩ := Runs.invariant_of_step _ hStep hNew hRun
  rw [noResidue_iff_noneLate hSound hAll hEach hSettled,
    ← Runs.always_iff_stepsMeet Sound (fun _ => True) (P := NoneLate)
      (fun _ _ _ _ h hNext => h.step hNext)
      (fun s a t _ h hLate hNext => (noneLate_step_iff h hNext).trans (and_iff_right hLate))
      sound_new hNoneLate fun _ _ => trivial]
  constructor
  · exact Runs.always_of_last Sound (fun _ _ _ h hNext => h.step hNext)
      (fun _ _ _ h hNext hLate => ((noneLate_step_iff h hNext).mp hLate).1) sound_new hRun
  · intro hAlways
    exact Runs.always_iff_prefixes.mp hAlways actions [] w (List.append_nil actions).symm hRun

section OneQuery

/-- Here the text of a response is its key. -/
def parsePayload (responseJSON : String) : Except Thrown (ResponseWrapper String) :=
  .ok ⟨responseJSON, responseJSON, "node"⟩

def timedOutQuery : List Action :=
  [.execute "r1", .awaitResponse 0, .timeout 0, .handleResponse "r1"]

def answeredQuery : List Action :=
  [.execute "r1", .awaitResponse 0, .handleResponse "r1", .resume 0, .finish 0]

/-- The response to a query that has timed out is still there when all is over. -/
theorem not_noResidue_timedOutQuery :
    ∃ w, Runs.exec (step parsePayload) new timedOutQuery = some w ∧ w.OneEach ∧ w.Settled ∧
      ¬ w.NoResidue := by
  refine ⟨_, rfl, ⟨by decide, ?_⟩, ?_, ?_⟩
  · intro r hr
    obtain rfl := List.mem_singleton.mp hr
    exact List.mem_singleton.mpr rfl
  · intro call hCall
    obtain rfl := List.mem_singleton.mp hCall
    exact .inl rfl
  · rintro ⟨⟨⟩, -⟩

theorem noResidue_iff_inTime_answeredQuery :
    ∃ w, Runs.exec (step parsePayload) new answeredQuery = some w ∧
      (w.NoResidue ↔ Runs.StepsMeet (step parsePayload) (InTime parsePayload) new
        answeredQuery) := by
  refine ⟨_, rfl, noResidue_iff_inTime parsePayload rfl ⟨by decide, ?_⟩ ?_⟩
  · intro r hr
    obtain rfl := List.mem_singleton.mp hr
    exact List.mem_singleton.mpr rfl
  · intro call hCall
    obtain rfl := List.mem_singleton.mp hCall
    exact .inr ⟨_, rfl⟩

end OneQuery

end Moirae.AwaitResponse.World
