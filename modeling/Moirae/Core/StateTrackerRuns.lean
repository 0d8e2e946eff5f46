import Moirae.Core.StateTracker

/-! Whom a state tracker calls, after any calls of its functions and with timers
that fire at any time. -/
namespace Moirae.StateTracker

variable {State Handler : Type}

/-! ## What is live -/

/-- Is this a function, or the closure of a promise that is pending? -/
def listening (tracker : StateTracker State Handler) : StateListener Handler → Bool
  | .handler _ => true
  | .awaiting call => match tracker.awaits[call]? with
    | none => false
    | some awaiting => awaiting.promise.isNone

/-- A call on the tracker, or a timer that fires. `subscribe` and `await` are
given the `randomUUID()` that they draw. -/
inductive Call (State Handler : Type)
  | set (newState : State)
  | subscribe (key : Uuid) (handler : Handler)
  | unsubscribe (key : Uuid)
  | await (key : Uuid) (desiredState : State)
  | elapse (call : Nat)

/-- The subscriptions that were made and have not ended since, by their keys. -/
abbrev Live (Handler : Type) := KeyedMap Uuid (StateListener Handler)

structure World (State Handler : Type) where
  tracker : StateTracker State Handler
  live : Live Handler

namespace World

section Steps

variable [DecidableEq State] [DecidableEq Handler]

/-- The tracker after a call. A drawn key was never drawn before, and a timer
fires only while its promise is pending. -/
def perform (throws : Handler → Bool) (tracker : StateTracker State Handler) :
    Call State Handler → Option (StateTracker State Handler)
  | .set newState => some (tracker.set throws newState).1
  | .subscribe key handler =>
      if tracker.subscriptions.get key = none then
        some (tracker.subscribe key (.handler handler))
      else none
  | .unsubscribe key => some (tracker.unsubscribe key)
  | .await key desiredState =>
      if tracker.subscriptions.get key = none then some (tracker.await key desiredState)
      else none
  | .elapse call =>
      if tracker.listening (.awaiting call) then some (tracker.elapse call) else none

/-- `unsubscribe` ends the subscription with its key. That of `await` is live
until the promise settles. -/
def change (w : World State Handler) : Call State Handler → Live Handler
  | .subscribe key handler => w.live.set key (.handler handler)
  | .unsubscribe key => w.live.delete key
  | .await key desiredState =>
      if w.tracker.state = desiredState then w.live
      else w.live.set key (.awaiting w.tracker.awaits.length)
  | .set _ => w.live
  | .elapse _ => w.live

def step (throws : Handler → Bool) (w : World State Handler) (call : Call State Handler) :
    Option (World State Handler) :=
  (perform throws w.tracker call).map fun tracker =>
    ⟨tracker, (w.change call).filter tracker.listening⟩

/-- The next `set` calls each function and each closure as often as it has live
subscriptions. -/
def Exact (throws : Handler → Bool) (w : World State Handler) : Prop :=
  ∀ newState listener, (w.tracker.set throws newState).2.count listener =
    (w.live.entries.map Prod.snd).count listener

end Steps

/-- No function with a live subscription throws. -/
def NoneThrows (throws : Handler → Bool) (w : World State Handler) : Prop :=
  ∀ listener ∈ w.live.entries.map Prod.snd, listener.throws throws = false

/-- An ended key is not used again while its function has another subscription,
no promise times out that is still subscribed, and nothing is subscribed behind
a function that throws. -/
def Harmless (throws : Handler → Bool) (w : World State Handler) : Call State Handler → Prop
  | .set _ => True
  | .subscribe _ _ => w.NoneThrows throws
  | .unsubscribe key => ∀ listener, w.tracker.subscriptions.get key = some listener →
      w.live.get key = none → listener ∉ w.live.entries.map Prod.snd
  | .await _ desiredState => w.tracker.state = desiredState ∨ w.NoneThrows throws
  | .elapse call => ∀ awaiting, w.tracker.awaits[call]? = some awaiting →
      w.live.get awaiting.key = none

end World

/-! ## The invariant -/

/-- The listeners are those of the live subscriptions, in step with the map and
with the promises that are pending. -/
structure Linked (tracker : StateTracker State Handler) (live : Live Handler) : Prop where
  balanced : tracker.listeners.Perm (live.entries.map Prod.snd)
  recorded : ∀ key listener, live.get key = some listener →
    tracker.subscriptions.get key = some listener
  awaited : ∀ call awaiting, tracker.awaits[call]? = some awaiting →
    tracker.subscriptions.get awaiting.key = some (.awaiting call)
  pending : ∀ key call, live.get key = some (.awaiting call) →
    ∃ awaiting, tracker.awaits[call]? = some awaiting ∧ awaiting.key = key ∧
      awaiting.promise = none

/-- And only the last one may throw, so that all of them are called. -/
structure Sound (throws : Handler → Bool) (tracker : StateTracker State Handler)
    (live : Live Handler) : Prop extends Linked tracker live where
  quiet : tracker.listeners.Pairwise fun listener _ => listener.throws throws = false

section Soundness

variable {throws : Handler → Bool} {tracker : StateTracker State Handler} {live : Live Handler}

/-- A promise that was given a result is not pending. -/
theorem not_listening_of_settle {next : StateTracker State Handler} {call : Nat}
    {result : Except Thrown State}
    (hAwaits : next.awaits = (tracker.settle call result).awaits) :
    next.listening (.awaiting call) = false := by
  simp only [StateTracker.listening, hAwaits, awaits_settle]
  cases tracker.awaits[call]? with
  | none => rfl
  | some awaiting => cases awaiting.promise <;> simp

/-- The promises of other calls are left as they were. -/
theorem listening_of_settle {next : StateTracker State Handler} {call : Nat}
    {result : Except Thrown State}
    (hAwaits : next.awaits = (tracker.settle call result).awaits)
    {listener : StateListener Handler} (hOther : listener ≠ .awaiting call) :
    next.listening listener = tracker.listening listener := by
  cases listener with
  | handler _ => rfl
  | awaiting other =>
      have hNe : call ≠ other := fun hSame => hOther (hSame ▸ rfl)
      simp [StateTracker.listening, hAwaits, awaits_settle, hNe]

/-- A live closure has a pending promise. -/
theorem Linked.listening (h : Linked tracker live) {key : Uuid}
    {listener : StateListener Handler} (hLive : live.get key = some listener) :
    tracker.listening listener = true := by
  cases listener with
  | handler _ => rfl
  | awaiting call =>
      obtain ⟨awaiting, hCall, -, hPending⟩ := h.pending key call hLive
      simp [StateTracker.listening, hCall, hPending]

/-- A key that the tracker does not know is not live. -/
theorem Linked.get_of_fresh (h : Linked tracker live) {key : Uuid}
    (hFresh : tracker.subscriptions.get key = none) : live.get key = none := by
  apply Option.eq_none_iff_forall_ne_some.mpr
  intro own hOwn
  rw [h.recorded key own hOwn] at hFresh
  cases hFresh

theorem Linked.filter_eq (h : Linked tracker live) : live.filter tracker.listening = live :=
  KeyedMap.filter_eq_self fun _ _ hLive => h.listening hLive

theorem Sound.filtered (h : Sound throws tracker live) :
    Sound throws tracker (live.filter tracker.listening) := by
  rw [h.filter_eq]
  exact h

/-- The closure of a call is live under the key of the call only. -/
theorem Linked.get_of_live (h : Linked tracker live) {call : Nat}
    {awaiting : Awaiting State} (hCall : tracker.awaits[call]? = some awaiting) {key : Uuid}
    (hLive : live.get key = some (.awaiting call)) : key = awaiting.key := by
  obtain ⟨own, hOwn, rfl, -⟩ := h.pending key call hLive
  rw [hCall] at hOwn
  rw [Option.some.inj hOwn]

/-- All that `set` calls, when nothing is behind a function that throws. -/
theorem Sound.called [DecidableEq State] [DecidableEq Handler] (h : Sound throws tracker live)
    (newState : State) : (tracker.set throws newState).2 = tracker.listeners :=
  Distributor.emitted_of_quiet h.quiet

theorem Sound.exact [DecidableEq State] [DecidableEq Handler] (h : Sound throws tracker live) :
    World.Exact throws ⟨tracker, live⟩ := by
  intro newState listener
  rw [h.called, h.balanced.count_eq]

theorem sound_new {initialStatus : State} {ee : EventEmitter (StateListener Handler)}
    {uuid : String} (hOwn : ee.listeners (stateKey uuid) = []) :
    Sound throws (new initialStatus ee uuid) .empty where
  balanced := by
    show (ee.listeners (stateKey uuid)).Perm []
    rw [hOwn]
  recorded := by
    intro key listener hGet
    cases hGet
  awaited := by
    intro call awaiting hCall
    cases hCall
  pending := by
    intro key call hGet
    cases hGet
  quiet := by
    show (ee.listeners (stateKey uuid)).Pairwise _
    rw [hOwn]
    exact .nil

/-- A new listener, under a key that was not used before. -/
theorem Linked.listen (h : Linked tracker live) (next : StateTracker State Handler)
    {key : Uuid} (hFresh : tracker.subscriptions.get key = none)
    {listener : StateListener Handler}
    (hListeners : next.listeners = tracker.listeners ++ [listener])
    (hSubscriptions : next.subscriptions = tracker.subscriptions.set key listener)
    (hKept : ∀ (call : Nat) awaiting, tracker.awaits[call]? = some awaiting →
      next.awaits[call]? = some awaiting)
    (hNew : ∀ (call : Nat) awaiting, next.awaits[call]? = some awaiting →
      tracker.awaits[call]? = some awaiting ∨ awaiting.key = key ∧ listener = .awaiting call)
    (hPending : ∀ call, listener = .awaiting call → ∃ awaiting,
      next.awaits[call]? = some awaiting ∧ awaiting.key = key ∧ awaiting.promise = none) :
    Linked next (live.set key listener) where
  balanced := by
    rw [hListeners, KeyedMap.entries_set_of_new (h.get_of_fresh hFresh), List.map_append]
    exact h.balanced.append_right _
  recorded := by
    intro other own hGet
    rw [KeyedMap.get_set] at hGet
    rw [hSubscriptions, KeyedMap.get_set]
    split at hGet
    · next hSame => rwa [if_pos hSame]
    · next hOther => rw [if_neg hOther, h.recorded other own hGet]
  awaited := by
    intro call awaiting hCall
    rw [hSubscriptions, KeyedMap.get_set]
    rcases hNew call awaiting hCall with hOld | ⟨hKey, rfl⟩
    · have hOwn := h.awaited call awaiting hOld
      have hOther : awaiting.key ≠ key := by
        rintro rfl
        rw [hFresh] at hOwn
        cases hOwn
      rw [if_neg hOther, hOwn]
    · rw [if_pos hKey]
  pending := by
    intro other call hGet
    rw [KeyedMap.get_set] at hGet
    split at hGet
    · next hSame =>
        rw [hSame]
        exact hPending call (Option.some.inj hGet)
    · obtain ⟨awaiting, hCall, hRest⟩ := h.pending other call hGet
      exact ⟨awaiting, hKept call awaiting hCall, hRest⟩

theorem Linked.subscribe (h : Linked tracker live) {key : Uuid}
    (hFresh : tracker.subscriptions.get key = none) (handler : Handler) :
    Linked (tracker.subscribe key (.handler handler)) (live.set key (.handler handler)) := by
  apply h.listen _ hFresh (listeners_subscribe tracker key _) rfl
  · exact fun _ _ hCall => hCall
  · exact fun _ _ hCall => .inl hCall
  · intro call hSame
    cases hSame

/-- Behind listeners that do not throw. -/
theorem Sound.quiet_concat (h : Sound throws tracker live)
    (hQuiet : ∀ listener ∈ live.entries.map Prod.snd, listener.throws throws = false)
    (listener : StateListener Handler) :
    (tracker.listeners ++ [listener]).Pairwise
      fun listener _ => listener.throws throws = false := by
  apply List.pairwise_append.mpr
  refine ⟨h.quiet, List.pairwise_singleton _ _, ?_⟩
  intro own hOwn _ _
  exact hQuiet own (h.balanced.mem_iff.mp hOwn)

variable [DecidableEq Handler]

/-- A closure that does not listen any more is not live either, and whatever else
listens is live as before. -/
theorem Linked.balanced_settled (h : Linked tracker live) (next : StateTracker State Handler)
    {call : Nat} {result : Except Thrown State}
    (hAwaits : next.awaits = (tracker.settle call result).awaits)
    (hCount : ∀ listener, next.listeners.count listener =
      if listener = .awaiting call then 0 else tracker.listeners.count listener) :
    next.listeners.Perm ((live.filter next.listening).entries.map Prod.snd) := by
  apply List.perm_iff_count.mpr
  intro listener
  rw [hCount, KeyedMap.values_filter]
  by_cases hSame : listener = .awaiting call
  · subst hSame
    rw [if_pos rfl, List.count_eq_zero_of_not_mem]
    simp [not_listening_of_settle hAwaits]
  · rw [if_neg hSame, h.balanced.count_eq]
    by_cases hLive : listener ∈ live.entries.map Prod.snd
    · obtain ⟨key, hGet⟩ := KeyedMap.mem_values_iff.mp hLive
      have hListening : next.listening listener = true := by
        rw [listening_of_settle hAwaits hSame]
        exact h.listening hGet
      rw [List.count_filter hListening]
    · rw [List.count_eq_zero_of_not_mem hLive, List.count_eq_zero_of_not_mem]
      exact fun hMem => hLive (List.mem_of_mem_filter hMem)

/-- A call whose closure does not listen any more, and has a settled promise. -/
theorem Linked.settled (h : Linked tracker live) (next : StateTracker State Handler)
    (call : Nat) (result : Except Thrown State)
    (hSubscriptions : next.subscriptions = tracker.subscriptions)
    (hAwaits : next.awaits = (tracker.settle call result).awaits)
    (hCount : ∀ listener, next.listeners.count listener =
      if listener = .awaiting call then 0 else tracker.listeners.count listener) :
    Linked next (live.filter next.listening) where
  balanced := h.balanced_settled next hAwaits hCount
  recorded := by
    intro key listener hGet
    rw [hSubscriptions]
    exact h.recorded key listener (KeyedMap.get_filter_eq_some_iff.mp hGet).1
  awaited := by
    intro other awaiting hOwn
    rw [hSubscriptions]
    rw [hAwaits, awaits_settle] at hOwn
    obtain ⟨before, hBefore, rfl⟩ := Option.map_eq_some_iff.mp hOwn
    have hKey := h.awaited other before hBefore
    split
    · exact hKey
    · exact hKey
  pending := by
    intro key other hGet
    obtain ⟨hLive, hListening⟩ := KeyedMap.get_filter_eq_some_iff.mp hGet
    have hOther : call ≠ other := by
      rintro rfl
      rw [not_listening_of_settle hAwaits] at hListening
      cases hListening
    obtain ⟨awaiting, hCall, hOwn⟩ := h.pending key other hLive
    refine ⟨awaiting, ?_, hOwn⟩
    rw [hAwaits, awaits_settle, hCall, Option.map_some, if_neg hOther]

/-- The closure of a call is there once at most. -/
theorem Linked.count_awaiting_le (h : Linked tracker live) (call : Nat) :
    tracker.listeners.count (.awaiting call) ≤ 1 := by
  rw [h.balanced.count_eq]
  by_cases hLive : StateListener.awaiting call ∈ live.entries.map Prod.snd
  · obtain ⟨key, hGet⟩ := KeyedMap.mem_values_iff.mp hLive
    obtain ⟨awaiting, hCall, hKey, -⟩ := h.pending key call hGet
    rw [(KeyedMap.perm_values_of_get hGet).count_eq, List.count_cons_self]
    have hOnce : StateListener.awaiting call ∉ (live.delete key).entries.map Prod.snd := by
      intro hMem
      obtain ⟨other, hGet⟩ := KeyedMap.mem_values_iff.mp hMem
      obtain ⟨hNe, hOther⟩ := KeyedMap.get_delete_eq_some_iff.mp hGet
      exact hNe ((h.get_of_live hCall hOther).trans hKey)
    have hNone := List.count_eq_zero_of_not_mem hOnce
    omega
  · have hNone := List.count_eq_zero_of_not_mem hLive
    omega

theorem listening_unsubscribe (key : Uuid) :
    (tracker.unsubscribe key).listening = tracker.listening := by
  funext listener
  cases listener with
  | handler _ => rfl
  | awaiting call => simp only [StateTracker.listening, awaits_unsubscribe]

/-- For a key that is live, or whose function has no live subscription. -/
theorem Linked.balanced_unsubscribe (h : Linked tracker live) {key : Uuid}
    (hHarmless : ∀ listener, tracker.subscriptions.get key = some listener →
      live.get key = none → listener ∉ live.entries.map Prod.snd) :
    (tracker.unsubscribe key).listeners.Perm ((live.delete key).entries.map Prod.snd) := by
  cases hGet : tracker.subscriptions.get key with
  | none =>
      rw [unsubscribe_of_none hGet, KeyedMap.delete_eq_self (h.get_of_fresh hGet)]
      exact h.balanced
  | some listener =>
      rw [listeners_unsubscribe hGet]
      cases hLive : live.get key with
      | none =>
          have hNot : listener ∉ tracker.listeners := fun hMem =>
            hHarmless listener hGet hLive (h.balanced.mem_iff.mp hMem)
          rw [KeyedMap.delete_eq_self hLive]
          apply (Distributor.removeListener_perm _ _).trans
          rw [List.erase_of_not_mem hNot]
          exact h.balanced
      | some own =>
          have hOwn := h.recorded key own hLive
          rw [hGet] at hOwn
          obtain rfl := Option.some.inj hOwn
          apply Distributor.removeListener_perm_of_cons
          exact h.balanced.trans (KeyedMap.perm_values_of_get hLive)

/-- Ending a subscription takes no listener from another place. -/
theorem listeners_unsubscribe_sublist (tracker : StateTracker State Handler) (key : Uuid) :
    (tracker.unsubscribe key).listeners.Sublist tracker.listeners := by
  cases hGet : tracker.subscriptions.get key with
  | none =>
      rw [unsubscribe_of_none hGet]
  | some listener =>
      rw [listeners_unsubscribe hGet]
      exact Distributor.removeListener_sublist _ _

theorem Sound.unsubscribe (h : Sound throws tracker live) {key : Uuid}
    (hHarmless : ∀ listener, tracker.subscriptions.get key = some listener →
      live.get key = none → listener ∉ live.entries.map Prod.snd) :
    Sound throws (tracker.unsubscribe key) (live.delete key) where
  balanced := h.balanced_unsubscribe hHarmless
  recorded := by
    intro other listener hOther
    rw [subscriptions_unsubscribe]
    exact h.recorded other listener (KeyedMap.get_delete_eq_some_iff.mp hOther).2
  awaited := by
    rw [awaits_unsubscribe, subscriptions_unsubscribe]
    exact h.awaited
  pending := by
    intro other call hOther
    rw [awaits_unsubscribe]
    exact h.pending other call (KeyedMap.get_delete_eq_some_iff.mp hOther).2
  quiet := h.quiet.sublist (listeners_unsubscribe_sublist tracker key)

/-- The timer of a promise whose closure is not subscribed any more. -/
theorem Sound.elapse (h : Sound throws tracker live) {call : Nat} {awaiting : Awaiting State}
    (hCall : tracker.awaits[call]? = some awaiting) (hEnded : live.get awaiting.key = none) :
    Sound throws (tracker.elapse call) (live.filter (tracker.elapse call).listening) := by
  have hNot : StateListener.awaiting call ∉ tracker.listeners := by
    intro hMem
    obtain ⟨key, hGet⟩ := KeyedMap.mem_values_iff.mp (h.balanced.mem_iff.mp hMem)
    rw [h.get_of_live hCall hGet, hEnded] at hGet
    cases hGet
  refine ⟨h.settled (tracker.elapse call) call (.error timeoutError) rfl rfl ?_, h.quiet⟩
  intro listener
  show tracker.listeners.count listener = _
  split
  · next hSame => rw [hSame, List.count_eq_zero_of_not_mem hNot]
  · rfl

variable [DecidableEq State]

omit [DecidableEq Handler] in
theorem await_of_eq {key : Uuid} {desiredState : State} (h : tracker.state = desiredState) :
    tracker.await key desiredState = tracker := if_pos h

omit [DecidableEq Handler] in
theorem await_of_ne {key : Uuid} {desiredState : State} (h : tracker.state ≠ desiredState) :
    tracker.await key desiredState =
      { tracker.subscribe key (.awaiting tracker.awaits.length) with
        awaits := tracker.awaits ++ [⟨desiredState, key, none⟩] } := if_neg h

omit [DecidableEq Handler] in
theorem listeners_await {key : Uuid} {desiredState : State} (h : tracker.state ≠ desiredState) :
    (tracker.await key desiredState).listeners =
      tracker.listeners ++ [.awaiting tracker.awaits.length] := by
  rw [await_of_ne h]
  exact listeners_subscribe tracker key _

omit [DecidableEq Handler] in
/-- The closure of a new call is known by the number of calls before it. -/
theorem Linked.await (h : Linked tracker live) {key : Uuid}
    (hFresh : tracker.subscriptions.get key = none) {desiredState : State}
    (hOther : tracker.state ≠ desiredState) :
    Linked (tracker.await key desiredState)
      (live.set key (.awaiting tracker.awaits.length)) := by
  have hAwaits : (tracker.await key desiredState).awaits =
      tracker.awaits ++ [⟨desiredState, key, none⟩] := by
    rw [await_of_ne hOther]
  apply h.listen (tracker.await key desiredState) hFresh (listeners_await hOther)
  · rw [await_of_ne hOther]
    rfl
  · intro call awaiting hCall
    obtain ⟨hBefore, -⟩ := List.getElem?_eq_some_iff.mp hCall
    rwa [hAwaits, List.getElem?_append_left hBefore]
  · intro call awaiting hCall
    rw [hAwaits, List.getElem?_append] at hCall
    split at hCall
    · exact .inl hCall
    · next hLast =>
        rw [List.getElem?_singleton] at hCall
        obtain ⟨hZero, hSame⟩ := Option.ite_none_right_eq_some.mp hCall
        obtain rfl := Option.some.inj hSame
        have hCall : tracker.awaits.length = call := by omega
        exact .inr ⟨rfl, congrArg _ hCall⟩
  · intro call hSame
    obtain rfl := StateListener.awaiting.inj hSame
    rw [hAwaits]
    exact ⟨_, List.getElem?_concat_length, rfl, rfl⟩

/-- A listener that is called may end its own subscription, and no other. -/
theorem Sound.notify (h : Sound throws tracker live) (newState : State)
    (listener : StateListener Handler) :
    Sound throws (tracker.notify newState listener)
      (live.filter (tracker.notify newState listener).listening) := by
  have hSame := h.filtered
  cases listener with
  | handler own => exact hSame
  | awaiting call =>
      cases hCall : tracker.awaits[call]? with
      | none =>
          have hNothing : tracker.notify newState (.awaiting call) = tracker := by
            simp only [StateTracker.notify, hCall]
          rw [hNothing]
          exact hSame
      | some awaiting =>
          rw [notify_awaiting hCall]
          split
          · have hListeners := listeners_unsubscribe (h.awaited call awaiting hCall)
            have hOnce := h.count_awaiting_le call
            constructor
            · apply h.settled _ call (.ok newState)
              · exact subscriptions_unsubscribe tracker awaiting.key
              · simp [settle]
              · intro listener
                show (tracker.unsubscribe awaiting.key).listeners.count listener = _
                rw [hListeners, Distributor.count_removeListener]
                split
                · next hOwn =>
                    rw [hOwn]
                    omega
                · omega
            · show (tracker.unsubscribe awaiting.key).listeners.Pairwise _
              exact h.quiet.sublist (listeners_unsubscribe_sublist tracker awaiting.key)
          · exact hSame

/-- Promises stay settled. -/
theorem listening_of_notify {newState : State} {called listener : StateListener Handler}
    (h : (tracker.notify newState called).listening listener = true) :
    tracker.listening listener = true := by
  cases listener with
  | handler _ => rfl
  | awaiting call =>
      cases called with
      | handler _ => exact h
      | awaiting other =>
          cases hOther : tracker.awaits[other]? with
          | none => simpa only [StateTracker.notify, hOther] using h
          | some own =>
              rw [notify_awaiting hOther] at h
              split at h
              · simp only [StateTracker.listening, awaits_settle, awaits_unsubscribe] at h ⊢
                cases hCall : tracker.awaits[call]? with
                | none => simp [hCall] at h
                | some awaiting =>
                    simp only [hCall, Option.map_some] at h
                    split at h
                    · cases awaiting.promise <;> simp at h
                    · exact h
              · exact h

theorem listening_of_foldl_notify {newState : State} {called : List (StateListener Handler)}
    {listener : StateListener Handler}
    (h : (called.foldl (StateTracker.notify newState) tracker).listening listener = true) :
    tracker.listening listener = true := by
  induction called generalizing tracker with
  | nil => exact h
  | cons first called ih => exact listening_of_notify (ih h)

/-- The induction is on the listeners that were copied. Those called first may
have ended their subscriptions already. -/
theorem Sound.foldl_notify (h : Sound throws tracker live) (newState : State)
    (called : List (StateListener Handler)) :
    Sound throws (called.foldl (StateTracker.notify newState) tracker)
      (live.filter (called.foldl (StateTracker.notify newState) tracker).listening) := by
  induction called generalizing tracker live with
  | nil => exact h.filtered
  | cons first called ih =>
      have hRest := ih (h.notify newState first)
      rwa [KeyedMap.filter_filter _ fun _ hLast => listening_of_foldl_notify hLast] at hRest

theorem Sound.set (h : Sound throws tracker live) (newState : State) :
    Sound throws (tracker.set throws newState).1
      (live.filter (tracker.set throws newState).1.listening) := by
  have hUpdated : Sound throws { tracker with state := newState } live :=
    ⟨⟨h.balanced, h.recorded, h.awaited, h.pending⟩, h.quiet⟩
  exact hUpdated.foldl_notify newState _

end Soundness

namespace World

variable [DecidableEq State] [DecidableEq Handler] {throws : Handler → Bool}
  {w w' : World State Handler}

theorem exact_iff_called : w.Exact throws ↔
    ∀ listener, (Distributor.emitted (StateListener.throws throws) w.tracker.listeners).count
      listener = (w.live.entries.map Prod.snd).count listener :=
  ⟨fun h listener => h w.tracker.state listener, fun h _ listener => h listener⟩

/-- Harmless calls keep the invariant. -/
theorem sound_step {call : Call State Handler} (h : Sound throws w.tracker w.live)
    (hStep : step throws w call = some w') (hHarmless : w.Harmless throws call) :
    Sound throws w'.tracker w'.live := by
  obtain ⟨tracker, hPerform, rfl⟩ := Option.map_eq_some_iff.mp hStep
  cases call with
  | set newState =>
      obtain rfl := Option.some.inj hPerform
      exact h.set newState
  | subscribe key handler =>
      obtain ⟨hFresh, hTracker⟩ := Option.ite_none_right_eq_some.mp hPerform
      obtain rfl := Option.some.inj hTracker
      refine Sound.filtered ⟨h.subscribe hFresh handler, ?_⟩
      rw [listeners_subscribe]
      exact h.quiet_concat hHarmless _
  | unsubscribe key =>
      obtain rfl := Option.some.inj hPerform
      exact (h.unsubscribe hHarmless).filtered
  | await key desiredState =>
      obtain ⟨hFresh, hTracker⟩ := Option.ite_none_right_eq_some.mp hPerform
      obtain rfl := Option.some.inj hTracker
      rw [change]
      split
      · next hSame =>
          rw [await_of_eq hSame]
          exact h.filtered
      · next hOther =>
          refine Sound.filtered ⟨h.await hFresh hOther, ?_⟩
          rw [listeners_await hOther]
          exact h.quiet_concat (hHarmless.resolve_left hOther) _
  | elapse call =>
      obtain ⟨hPending, hTracker⟩ := Option.ite_none_right_eq_some.mp hPerform
      obtain rfl := Option.some.inj hTracker
      cases hCall : w.tracker.awaits[call]? with
      | none => simp [listening, hCall] at hPending
      | some awaiting => exact h.elapse hCall (hHarmless awaiting hCall)

/-- A listener behind a function that throws is not called. -/
theorem not_exact_behind (h : Sound throws w.tracker w.live) (hThrows : ¬w.NoneThrows throws)
    {next : StateTracker State Handler} {live : Live Handler} (hNext : Linked next live)
    {listener : StateListener Handler}
    (hListeners : next.listeners = w.tracker.listeners ++ [listener]) :
    ¬Exact throws ⟨next, live⟩ := by
  intro hExact
  have hLoud : ∃ own ∈ w.tracker.listeners, own.throws throws = true := by
    obtain ⟨own, hOwn⟩ := not_forall.mp hThrows
    obtain ⟨hLive, hOwn⟩ := Classical.not_imp.mp hOwn
    exact ⟨own, h.balanced.mem_iff.mpr hLive, by simpa using hOwn⟩
  have hCalled := (List.perm_iff_count.mpr (exact_iff_called.mp hExact)).length_eq
  have hNextLength := hNext.balanced.length_eq
  simp only [hListeners, Distributor.emitted_append hLoud, Distributor.emitted_of_quiet h.quiet,
    List.length_append, List.length_singleton] at hCalled hNextLength
  omega

/-- One listener fewer than live subscriptions. -/
theorem not_exact_unsubscribe (h : Sound throws w.tracker w.live) {key : Uuid}
    {listener : StateListener Handler}
    (hGet : w.tracker.subscriptions.get key = some listener)
    (hLive : listener ∈ w.live.entries.map Prod.snd) :
    ¬Exact throws ⟨w.tracker.unsubscribe key, w.live⟩ := by
  intro hExact
  have hMem := h.balanced.mem_iff.mpr hLive
  have hQuiet := h.quiet.sublist (listeners_unsubscribe_sublist w.tracker key)
  have hLength := (Distributor.removeListener_perm w.tracker.listeners listener).length_eq
  have hCalled := (List.perm_iff_count.mpr (exact_iff_called.mp hExact)).length_eq
  have hSome := List.length_pos_of_mem hMem
  rw [Distributor.emitted_of_quiet hQuiet, listeners_unsubscribe hGet, hLength,
    List.length_erase_of_mem hMem, ← h.balanced.length_eq] at hCalled
  omega

/-- A closure that listens although its promise is settled. -/
theorem not_exact_elapse (h : Sound throws w.tracker w.live) {call : Nat}
    (hLive : StateListener.awaiting call ∈ w.live.entries.map Prod.snd) :
    ¬Exact throws
      ⟨w.tracker.elapse call, w.live.filter (w.tracker.elapse call).listening⟩ := by
  intro hExact
  have hMem := h.balanced.mem_iff.mpr hLive
  have hDone : (w.tracker.elapse call).listening (.awaiting call) = false :=
    not_listening_of_settle rfl
  have hNone : StateListener.awaiting call ∉
      (w.live.filter (w.tracker.elapse call).listening).entries.map Prod.snd := by
    rw [KeyedMap.values_filter, List.mem_filter, hDone]
    exact fun hKept => Bool.false_ne_true hKept.2
  have hCalled := exact_iff_called.mp hExact (.awaiting call)
  have hSome := List.count_pos_iff.mpr hMem
  change (Distributor.emitted _ w.tracker.listeners).count _ =
    ((w.live.filter (w.tracker.elapse call).listening).entries.map Prod.snd).count _ at hCalled
  rw [List.count_eq_zero_of_not_mem hNone, Distributor.emitted_of_quiet h.quiet] at hCalled
  omega

/-- Any other call makes the next `set` call too few listeners, or too many. -/
theorem not_exact_of_step {call : Call State Handler} (h : Sound throws w.tracker w.live)
    (hStep : step throws w call = some w') (hHarmful : ¬w.Harmless throws call) :
    ¬w'.Exact throws := by
  obtain ⟨tracker, hPerform, rfl⟩ := Option.map_eq_some_iff.mp hStep
  intro hExact
  cases call with
  | set newState => exact hHarmful trivial
  | subscribe key handler =>
      obtain ⟨hFresh, hTracker⟩ := Option.ite_none_right_eq_some.mp hPerform
      obtain rfl := Option.some.inj hTracker
      have hNext := h.subscribe hFresh handler
      exact not_exact_behind h hHarmful hNext (listeners_subscribe _ _ _)
        (hNext.filter_eq ▸ hExact)
  | unsubscribe key =>
      obtain rfl := Option.some.inj hPerform
      obtain ⟨listener, hHarmful⟩ := not_forall.mp hHarmful
      obtain ⟨hGet, hHarmful⟩ := Classical.not_imp.mp hHarmful
      obtain ⟨hEnded, hLive⟩ := Classical.not_imp.mp hHarmful
      rw [change, KeyedMap.delete_eq_self hEnded, listening_unsubscribe, h.filter_eq] at hExact
      exact not_exact_unsubscribe h hGet (not_not.mp hLive) hExact
  | await key desiredState =>
      obtain ⟨hFresh, hTracker⟩ := Option.ite_none_right_eq_some.mp hPerform
      obtain rfl := Option.some.inj hTracker
      obtain ⟨hOther, hThrows⟩ := not_or.mp hHarmful
      have hNext := h.await hFresh hOther
      rw [change, if_neg hOther] at hExact
      exact not_exact_behind h hThrows hNext (listeners_await hOther)
        (hNext.filter_eq ▸ hExact)
  | elapse call =>
      obtain ⟨-, hTracker⟩ := Option.ite_none_right_eq_some.mp hPerform
      obtain rfl := Option.some.inj hTracker
      obtain ⟨awaiting, hHarmful⟩ := not_forall.mp hHarmful
      obtain ⟨hCall, hLive⟩ := Classical.not_imp.mp hHarmful
      obtain ⟨listener, hGet⟩ := Option.ne_none_iff_exists'.mp hLive
      have hRecorded := h.recorded awaiting.key listener hGet
      rw [h.awaited call awaiting hCall] at hRecorded
      obtain rfl := Option.some.inj hRecorded
      exact not_exact_elapse h (KeyedMap.mem_values_iff.mpr ⟨_, hGet⟩) hExact

/-- Each `set` calls the live subscriptions throughout a run exactly when no
call of the run does harm. -/
theorem always_exact_iff {initialStatus : State} {ee : EventEmitter (StateListener Handler)}
    {uuid : String} (hOwn : ee.listeners (stateKey uuid) = [])
    (calls : List (Call State Handler)) :
    Runs.Always (step throws) (Exact throws) ⟨.new initialStatus ee uuid, .empty⟩ calls ↔
      Runs.StepsMeet (step throws) (Harmless throws) ⟨.new initialStatus ee uuid, .empty⟩
        calls := by
  have hIff : ∀ (w : World State Handler) call w', Sound throws w.tracker w.live →
      step throws w call = some w' → (w'.Exact throws ↔ w.Harmless throws call) := by
    intro w call w' h hStep
    constructor
    · intro hExact
      by_contra hHarmful
      exact not_exact_of_step h hStep hHarmful hExact
    · intro hHarmless
      exact (sound_step h hStep hHarmless).exact
  apply Runs.always_iff_stepsMeet_while (fun w => Sound throws w.tracker w.live) (fun _ => True)
    _ _ (sound_new hOwn) (sound_new hOwn).exact fun _ _ => trivial
  · intro w call w' _ h _ hStep hExact
    exact sound_step h hStep ((hIff w call w' h hStep).mp hExact)
  · exact fun w call w' _ h _ hStep => hIff w call w' h hStep

theorem always_exact_iff_shared :
    Runs.Always (step (· == "g")) (Exact (· == "g")) ⟨.new "a" .new "tracker", .empty⟩
        [.subscribe 1 "f", .subscribe 2 "f", .await 3 "b", .unsubscribe 1, .set "b",
          .unsubscribe 3, .subscribe 4 "g", .set "a"] ↔
      Runs.StepsMeet (step (· == "g")) (Harmless (· == "g")) ⟨.new "a" .new "tracker", .empty⟩
        [.subscribe 1 "f", .subscribe 2 "f", .await 3 "b", .unsubscribe 1, .set "b",
          .unsubscribe 3, .subscribe 4 "g", .set "a"] :=
  always_exact_iff rfl _

/-- A key that is used twice takes the other subscription of the function away,
and a promise that has timed out goes on listening. -/
theorem not_always_exact_shared :
    ¬Runs.Always (step fun _ => false) (Exact fun _ => false) ⟨.new "a" .new "tracker", .empty⟩
        [.subscribe 1 "f", .subscribe 2 "f", .unsubscribe 1, .unsubscribe 1] ∧
      ¬Runs.Always (step fun _ => false) (Exact fun (_ : String) => false)
        ⟨.new "a" .new "tracker", .empty⟩ [.await 1 "b", .elapse 0] := by
  constructor
  · intro hAlways
    have hLast := hAlways.last rfl "b" (.handler "f")
    revert hLast
    decide
  · intro hAlways
    have hLast := hAlways.last rfl "b" (.awaiting 0)
    revert hLast
    decide

end World

end Moirae.StateTracker
