import Moirae.Core.Distributor
import Moirae.Runs.Execution

/-! Distributors that share an event emitter. Each has its own map of
subscriptions, and its own event name on the emitter. -/
namespace Moirae

/-- The listeners for each event name, in the order in which they were added. -/
structure EventEmitter (Listener : Type) where
  listeners : String → List Listener

namespace EventEmitter

variable {Listener : Type}

def new : EventEmitter Listener := ⟨fun _ => []⟩

def addListener (ee : EventEmitter Listener) (eventName : String) (listener : Listener) :
    EventEmitter Listener :=
  ⟨Function.update ee.listeners eventName (ee.listeners eventName ++ [listener])⟩

def removeListener [DecidableEq Listener] (ee : EventEmitter Listener) (eventName : String)
    (listener : Listener) : EventEmitter Listener :=
  ⟨Function.update ee.listeners eventName
    (Distributor.removeListener (ee.listeners eventName) listener)⟩

/-- The listeners that are called. -/
def emit (ee : EventEmitter Listener) (throws : Listener → Bool) (eventName : String) :
    List Listener :=
  Distributor.emitted throws (ee.listeners eventName)

end EventEmitter

namespace Distributor

variable {Handler : Type}

/-- The listeners are those of the live subscriptions, each as often. -/
def Balanced (d : Distributor Handler) : Prop :=
  d.listeners.Perm (d.subscriptions.entries.map Prod.snd)

theorem balanced_new : (new : Distributor Handler).Balanced := .refl []

theorem removeListener_perm [DecidableEq Handler] (listeners : List Handler)
    (handler : Handler) : (removeListener listeners handler).Perm (listeners.erase handler) :=
  (List.reverse_perm _).trans ((List.reverse_perm listeners).erase handler)

/-- Removing one of the listeners leaves the others. -/
theorem removeListener_perm_of_cons [DecidableEq Handler] {listeners others : List Handler}
    {handler : Handler} (h : listeners.Perm (handler :: others)) :
    (removeListener listeners handler).Perm others := by
  have hErased := h.erase handler
  rw [List.erase_cons_head] at hErased
  exact (removeListener_perm listeners handler).trans hErased

theorem count_removeListener [DecidableEq Handler] (listeners : List Handler)
    (handler other : Handler) :
    (removeListener listeners handler).count other =
      listeners.count other - if other = handler then 1 else 0 := by
  rw [(removeListener_perm listeners handler).count_eq, List.count_erase]
  by_cases hSame : other = handler
  · simp [hSame]
  · simp [hSame, Ne.symm hSame]

theorem removeListener_sublist [DecidableEq Handler] (listeners : List Handler)
    (handler : Handler) : (removeListener listeners handler).Sublist listeners := by
  have hErase := (List.erase_sublist (a := handler) (l := listeners.reverse)).reverse
  rwa [List.reverse_reverse] at hErase

/-- When only the last listener may throw, all of them are called. -/
theorem emitted_of_quiet {throws : Handler → Bool} {listeners : List Handler}
    (h : listeners.Pairwise fun listener _ => throws listener = false) :
    emitted throws listeners = listeners := by
  induction listeners with
  | nil => rfl
  | cons listener listeners ih =>
      obtain ⟨hFirst, hRest⟩ := List.pairwise_cons.mp h
      rw [emitted]
      split
      · next hThrows =>
          cases listeners with
          | nil => rfl
          | cons next _ =>
              have hQuiet := hFirst next List.mem_cons_self
              rw [hThrows] at hQuiet
              cases hQuiet
      · rw [ih hRest]

/-- Nothing behind a listener that throws is called. -/
theorem emitted_append {throws : Handler → Bool} {listeners : List Handler}
    (h : ∃ listener ∈ listeners, throws listener = true) (behind : List Handler) :
    emitted throws (listeners ++ behind) = emitted throws listeners := by
  induction listeners with
  | nil => simp at h
  | cons listener listeners ih =>
      rw [List.cons_append, emitted, emitted]
      split
      · rfl
      · next hQuiet =>
          rw [ih]
          simpa [hQuiet] using h

theorem Balanced.subscribe {d : Distributor Handler} (h : d.Balanced) {key : Uuid}
    (hFresh : d.subscriptions.get key = none) (handlerFn : Handler) :
    (d.subscribe key handlerFn).Balanced := by
  show (d.listeners ++ [handlerFn]).Perm ((d.subscriptions.set key handlerFn).entries.map Prod.snd)
  rw [KeyedMap.entries_set_of_new hFresh, List.map_append]
  exact h.append_right _

/-- Whichever instance of the listener is removed, one is. -/
theorem Balanced.unsubscribe [DecidableEq Handler] {d : Distributor Handler} (h : d.Balanced)
    (key : Uuid) : (d.unsubscribe key).Balanced := by
  unfold Distributor.unsubscribe
  cases hGet : d.subscriptions.get key with
  | none => exact h
  | some handler =>
      show (removeListener d.listeners handler).Perm
        ((d.subscriptions.delete key).entries.map Prod.snd)
      apply removeListener_perm_of_cons
      exact h.trans (KeyedMap.perm_values_of_get hGet)

theorem entries_unsubscribe [DecidableEq Handler] (d : Distributor Handler) (key : Uuid) :
    (d.unsubscribe key).subscriptions.entries =
      d.subscriptions.entries.filter fun entry => entry.1 ≠ key := by
  unfold Distributor.unsubscribe
  cases hGet : d.subscriptions.get key with
  | none => exact (congrArg KeyedMap.entries (KeyedMap.delete_eq_self hGet)).symm
  | some handler => rfl

/-- The listeners that `clear` leaves behind belong to no subscription. -/
theorem Balanced.clear_iff {d : Distributor Handler} (h : d.Balanced) :
    d.clear.Balanced ↔ d.subscriptions.entries = [] := by
  have hNone : d.listeners = [] ↔ d.subscriptions.entries = [] := by
    rw [← List.length_eq_zero_iff, h.length_eq, List.length_map, List.length_eq_zero_iff]
  rw [← hNone]
  exact List.perm_nil

end Distributor

/-- The distributors on one emitter, each known by its `_uuid`. -/
structure Distributors (Handler : Type) where
  ee : EventEmitter Handler
  subscriptions : String → KeyedMap Uuid Handler

namespace Distributors

variable {Handler : Type}

def DISTRIBUTION_KEY : String := "__dist-key__"

/-- `_key`, the event name of a distributor. -/
def distributionKey (uuid : String) : String := uuid ++ ":" ++ DISTRIBUTION_KEY

def new : Distributors Handler := ⟨.new, fun _ => .empty⟩

def listenerCount (family : Distributors Handler) (uuid : String) : Nat :=
  (family.subscriptions uuid).size

def clear (family : Distributors Handler) (uuid : String) : Distributors Handler :=
  { family with subscriptions := Function.update family.subscriptions uuid .empty }

def subscribe (family : Distributors Handler) (uuid : String) (key : Uuid)
    (handlerFn : Handler) : Distributors Handler where
  ee := family.ee.addListener (distributionKey uuid) handlerFn
  subscriptions :=
    Function.update family.subscriptions uuid ((family.subscriptions uuid).set key handlerFn)

def publish (family : Distributors Handler) (throws : Handler → Bool) (uuid : String) :
    List Handler :=
  family.ee.emit throws (distributionKey uuid)

def unsubscribe [DecidableEq Handler] (family : Distributors Handler) (uuid : String)
    (key : Uuid) : Distributors Handler :=
  match (family.subscriptions uuid).get key with
  | none => family
  | some handler =>
      { ee := family.ee.removeListener (distributionKey uuid) handler
        subscriptions :=
          Function.update family.subscriptions uuid ((family.subscriptions uuid).delete key) }

/-- One distributor, with the listeners under its event name. -/
def distributor (family : Distributors Handler) (uuid : String) : Distributor Handler :=
  ⟨family.subscriptions uuid, family.ee.listeners (distributionKey uuid)⟩

theorem distributionKey_injective : Function.Injective distributionKey := by
  intro uuid uuid' h
  have hList := congrArg String.toList h
  simp only [distributionKey, String.toList_append, List.append_assoc] at hList
  exact String.toList_injective (List.append_cancel_right hList)

/-! ## One distributor at a time -/

/-- What an operation changes under the event name and in the map of one
distributor, it changes in no other. -/
theorem distributor_update (family : Distributors Handler) (uuid : String)
    (listeners : List Handler) (subscriptions : KeyedMap Uuid Handler) :
    (⟨⟨Function.update family.ee.listeners (distributionKey uuid) listeners⟩,
        Function.update family.subscriptions uuid subscriptions⟩ :
      Distributors Handler).distributor =
        Function.update family.distributor uuid ⟨subscriptions, listeners⟩ := by
  funext uuid'
  by_cases hSame : uuid' = uuid
  · subst hSame
    simp [distributor]
  · have hKey : distributionKey uuid' ≠ distributionKey uuid :=
      fun h => hSame (distributionKey_injective h)
    simp [distributor, hSame, hKey]

theorem distributor_subscribe (family : Distributors Handler) (uuid : String) (key : Uuid)
    (handlerFn : Handler) :
    (family.subscribe uuid key handlerFn).distributor =
      Function.update family.distributor uuid
        ((family.distributor uuid).subscribe key handlerFn) :=
  family.distributor_update uuid _ _

theorem distributor_unsubscribe [DecidableEq Handler] (family : Distributors Handler)
    (uuid : String) (key : Uuid) :
    (family.unsubscribe uuid key).distributor =
      Function.update family.distributor uuid ((family.distributor uuid).unsubscribe key) := by
  unfold unsubscribe Distributor.unsubscribe
  change _ = Function.update family.distributor uuid
    (match (family.subscriptions uuid).get key with
      | none => family.distributor uuid
      | some handler => _)
  cases (family.subscriptions uuid).get key with
  | none => exact (Function.update_eq_self uuid family.distributor).symm
  | some handler => exact family.distributor_update uuid _ _

theorem distributor_clear (family : Distributors Handler) (uuid : String) :
    (family.clear uuid).distributor =
      Function.update family.distributor uuid (family.distributor uuid).clear := by
  have hUpdate := family.distributor_update uuid
    (family.ee.listeners (distributionKey uuid)) .empty
  rw [Function.update_eq_self] at hUpdate
  exact hUpdate

/-! ## Runs -/

/-- A call on the distributor with this `_uuid`. `subscribe` is given the
`randomUUID()` that it draws. -/
inductive Call (Handler : Type)
  | subscribe (uuid : String) (key : Uuid) (handlerFn : Handler)
  | unsubscribe (uuid : String) (key : Uuid)
  | clear (uuid : String)
  | publish (uuid : String)

/-- The subscriptions of each distributor that were made, and neither ended nor
cleared since. -/
abbrev Live (Handler : Type) := String → List (Uuid × Handler)

def Live.after (live : Live Handler) : Call Handler → Live Handler
  | .subscribe uuid key handlerFn =>
      Function.update live uuid (live uuid ++ [(key, handlerFn)])
  | .unsubscribe uuid key =>
      Function.update live uuid ((live uuid).filter fun entry => entry.1 ≠ key)
  | .clear uuid => Function.update live uuid []
  | .publish _ => live

structure World (Handler : Type) where
  family : Distributors Handler
  live : Live Handler

namespace World

def initial : World Handler := ⟨.new, fun _ => []⟩

/-- `randomUUID` does not return a key that is still in use. -/
def step [DecidableEq Handler] (w : World Handler) (call : Call Handler) :
    Option (World Handler) :=
  match call with
  | .subscribe uuid key handlerFn =>
      if (w.family.subscriptions uuid).get key = none then
        some ⟨w.family.subscribe uuid key handlerFn, w.live.after call⟩
      else none
  | .unsubscribe uuid key => some ⟨w.family.unsubscribe uuid key, w.live.after call⟩
  | .clear uuid => some ⟨w.family.clear uuid, w.live.after call⟩
  | .publish _ => some ⟨w.family, w.live.after call⟩

/-- To publish now is to call each handler as often as the distributor has live
subscriptions for it, and `listenerCount` counts these. -/
def Faithful [DecidableEq Handler] (throws : Handler → Bool) (w : World Handler) : Prop :=
  ∀ uuid,
    (∀ handler, (w.family.publish throws uuid).count handler =
      ((w.live uuid).map Prod.snd).count handler) ∧
    w.family.listenerCount uuid = (w.live uuid).length

/-- Only a distributor without live subscriptions is cleared. -/
def ClearsNothing (w : World Handler) : Call Handler → Prop
  | .clear uuid => w.live uuid = []
  | _ => True

/-- The maps have the live subscriptions, in all runs. -/
def Recorded (w : World Handler) : Prop :=
  ∀ uuid, (w.family.distributor uuid).subscriptions.entries = w.live uuid

theorem recorded_initial : (initial : World Handler).Recorded := fun _ => rfl

variable [DecidableEq Handler]

/-- What a call does: to the live subscriptions, and to the distributor it is
made on. -/
theorem step_spec {w w' : World Handler} {call : Call Handler} (h : w.step call = some w') :
    w'.live = w.live.after call ∧
      match call with
      | .subscribe uuid key handlerFn =>
          (w.family.distributor uuid).subscriptions.get key = none ∧
            w'.family.distributor = Function.update w.family.distributor uuid
              ((w.family.distributor uuid).subscribe key handlerFn)
      | .unsubscribe uuid key =>
          w'.family.distributor = Function.update w.family.distributor uuid
            ((w.family.distributor uuid).unsubscribe key)
      | .clear uuid =>
          w'.family.distributor = Function.update w.family.distributor uuid
            (w.family.distributor uuid).clear
      | .publish _ => w'.family = w.family := by
  cases call with
  | subscribe uuid key handlerFn =>
      rw [step] at h
      split at h
      · next hFresh =>
          obtain rfl := Option.some.inj h
          exact ⟨rfl, hFresh, w.family.distributor_subscribe uuid key handlerFn⟩
      · cases h
  | unsubscribe uuid key =>
      obtain rfl := Option.some.inj h
      exact ⟨rfl, w.family.distributor_unsubscribe uuid key⟩
  | clear uuid =>
      obtain rfl := Option.some.inj h
      exact ⟨rfl, w.family.distributor_clear uuid⟩
  | publish uuid =>
      obtain rfl := Option.some.inj h
      exact ⟨rfl, rfl⟩

omit [DecidableEq Handler] in
theorem Recorded.update {w w' : World Handler} (h : w.Recorded) {uuid : String}
    {d : Distributor Handler} {live : List (Uuid × Handler)}
    (hFamily : w'.family.distributor = Function.update w.family.distributor uuid d)
    (hLive : w'.live = Function.update w.live uuid live)
    (hEntries : d.subscriptions.entries = live) : w'.Recorded := by
  intro uuid'
  rw [hFamily, hLive]
  by_cases hSame : uuid' = uuid
  · subst hSame
    simpa using hEntries
  · simpa [hSame] using h uuid'

/-- Each call records what it does to the live subscriptions. -/
theorem Recorded.step {w w' : World Handler} {call : Call Handler} (h : w.Recorded)
    (hStep : w.step call = some w') : w'.Recorded := by
  obtain ⟨hLive, hFamily⟩ := step_spec hStep
  cases call with
  | subscribe uuid key handlerFn =>
      obtain ⟨hFresh, hFamily⟩ := hFamily
      apply h.update hFamily hLive
      rw [← h uuid]
      exact KeyedMap.entries_set_of_new hFresh handlerFn
  | unsubscribe uuid key =>
      apply h.update hFamily hLive
      rw [← h uuid]
      exact Distributor.entries_unsubscribe _ key
  | clear uuid => exact h.update hFamily hLive rfl
  | publish uuid =>
      intro uuid'
      rw [hFamily, hLive]
      exact h uuid'

/-- When no handler throws, publishing calls the listeners, which are to be
those of the subscriptions. -/
theorem faithful_iff_balanced {throws : Handler → Bool}
    (hThrows : ∀ handler, throws handler = false) {w : World Handler} (h : w.Recorded) :
    w.Faithful throws ↔ ∀ uuid, (w.family.distributor uuid).Balanced := by
  apply forall_congr'
  intro uuid
  have hCount : w.family.listenerCount uuid = (w.live uuid).length := by
    rw [← h uuid]
    rfl
  have hCalled : w.family.publish throws uuid = (w.family.distributor uuid).listeners :=
    Distributor.emitted_eq_self fun handler _ => hThrows handler
  rw [hCalled, and_iff_left hCount, ← List.perm_iff_count, ← h uuid]
  rfl

omit [DecidableEq Handler] in
/-- Changing one of the balanced distributors keeps all of them balanced exactly
when the new one is. -/
theorem balanced_update_iff {w w' : World Handler} {uuid : String} {d : Distributor Handler}
    (h : ∀ uuid, (w.family.distributor uuid).Balanced)
    (hFamily : w'.family.distributor = Function.update w.family.distributor uuid d) :
    (∀ uuid', (w'.family.distributor uuid').Balanced) ↔ d.Balanced := by
  rw [hFamily]
  constructor
  · intro hAll
    simpa using hAll uuid
  · intro hNew uuid'
    by_cases hSame : uuid' = uuid
    · subst hSame
      simpa using hNew
    · simpa [hSame] using h uuid'

/-- The only call that can leave listeners without a subscription is `clear`. -/
theorem Recorded.balanced_step_iff {w w' : World Handler} {call : Call Handler} (h : w.Recorded)
    (hBalanced : ∀ uuid, (w.family.distributor uuid).Balanced)
    (hStep : w.step call = some w') :
    (∀ uuid, (w'.family.distributor uuid).Balanced) ↔ w.ClearsNothing call := by
  obtain ⟨-, hFamily⟩ := step_spec hStep
  cases call with
  | subscribe uuid key handlerFn =>
      obtain ⟨hFresh, hFamily⟩ := hFamily
      rw [balanced_update_iff hBalanced hFamily]
      exact iff_of_true ((hBalanced uuid).subscribe hFresh handlerFn) trivial
  | unsubscribe uuid key =>
      rw [balanced_update_iff hBalanced hFamily]
      exact iff_of_true ((hBalanced uuid).unsubscribe key) trivial
  | clear uuid =>
      rw [balanced_update_iff hBalanced hFamily, (hBalanced uuid).clear_iff, h uuid]
      rfl
  | publish uuid =>
      rw [hFamily]
      exact iff_of_true hBalanced trivial

/-- Distributors publish to their live subscriptions throughout a run exactly
when only those without any are cleared in it. -/
theorem always_faithful_iff {throws : Handler → Bool}
    (hThrows : ∀ handler, throws handler = false) (calls : List (Call Handler)) :
    Runs.Always World.step (Faithful throws) initial calls ↔
      Runs.StepsMeet World.step ClearsNothing initial calls := by
  have hInitial : (initial : World Handler).Faithful throws := by
    apply (faithful_iff_balanced hThrows recorded_initial).mpr
    exact fun _ => Distributor.balanced_new
  apply Runs.always_iff_stepsMeet Recorded (fun _ => True) _ _ recorded_initial hInitial
    fun _ _ => trivial
  · exact fun w call w' _ h hStep => h.step hStep
  · intro w call w' _ h hFaithful hStep
    rw [faithful_iff_balanced hThrows (h.step hStep)]
    exact h.balanced_step_iff ((faithful_iff_balanced hThrows h).mp hFaithful) hStep

theorem always_faithful_iff_quiet :
    Runs.Always World.step (Faithful fun _ => false) initial
        [.subscribe "a" 1 "f", .subscribe "b" 2 "f", .subscribe "a" 3 "f", .unsubscribe "a" 1,
          .unsubscribe "a" 1, .publish "a", .clear "c"] ↔
      Runs.StepsMeet World.step ClearsNothing initial
        [.subscribe "a" 1 "f", .subscribe "b" 2 "f", .subscribe "a" 3 "f", .unsubscribe "a" 1,
          .unsubscribe "a" 1, .publish "a", .clear "c"] :=
  always_faithful_iff (fun _ => rfl) _

/-- A cleared distributor calls its handler still, and counts no listener. -/
theorem cleared_still_called :
    (∃ w, Runs.exec World.step initial [.subscribe "a" 1 "f", .clear "a"] = some w ∧
      w.family.publish (fun _ => false) "a" = ["f"] ∧ w.live "a" = [] ∧
      w.family.listenerCount "a" = 0) ∧
    ¬Runs.Always World.step (Faithful fun _ => false) initial
      [.subscribe "a" 1 "f", .clear "a"] := by
  refine ⟨⟨_, rfl, by decide, by decide, by decide⟩, fun hAlways => ?_⟩
  have hCleared := (hAlways.last rfl "a").1 "f"
  revert hCleared
  decide

end World

end Distributors

end Moirae
