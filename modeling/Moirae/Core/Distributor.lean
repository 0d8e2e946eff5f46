import Moirae.Core.Queue

/-! Distribution of payloads to subscribers. A distributor keeps its own map of
subscriptions beside the listeners that the shared event emitter holds under
the distributor's key. No other distributor has that key, so the listeners
under it are kept here with the map. -/
namespace Moirae

structure Distributor (Handler : Type) where
  subscriptions : KeyedMap Uuid Handler
  listeners : List Handler

namespace Distributor

variable {Handler : Type}

def new : Distributor Handler := ⟨.empty, []⟩

def listenerCount (d : Distributor Handler) : Nat := d.subscriptions.size

/-- `clear` empties the map and leaves the emitter's listeners alone. -/
def clear (d : Distributor Handler) : Distributor Handler :=
  { d with subscriptions := .empty }

/-- `key` is the fresh `randomUUID()` that `subscribe` returns. -/
def subscribe (d : Distributor Handler) (key : Uuid) (handlerFn : Handler) :
    Distributor Handler :=
  { subscriptions := d.subscriptions.set key handlerFn
    listeners := d.listeners ++ [handlerFn] }

/-- `EventEmitter.removeListener` takes away at most one instance of the
listener, the one added last. -/
def removeListener [DecidableEq Handler] (listeners : List Handler) (handler : Handler) :
    List Handler :=
  (listeners.reverse.erase handler).reverse

def unsubscribe [DecidableEq Handler] (d : Distributor Handler) (key : Uuid) :
    Distributor Handler :=
  match d.subscriptions.get key with
  | none => d
  | some handler =>
      { subscriptions := d.subscriptions.delete key
        listeners := removeListener d.listeners handler }

/-- The listeners that emitting a payload calls: all of them in order, or those
up to the first one that throws. -/
def emitted (throws : Handler → Bool) : List Handler → List Handler
  | [] => []
  | listener :: listeners =>
      if throws listener then [listener] else listener :: emitted throws listeners

/-- `publish` emits to the listeners, whatever the subscription map says. -/
def publish (d : Distributor Handler) (throws : Handler → Bool) : List Handler :=
  emitted throws d.listeners

theorem emitted_eq_nil_iff {throws : Handler → Bool} {listeners : List Handler} :
    emitted throws listeners = [] ↔ listeners = [] := by
  cases listeners with
  | nil => simp [emitted]
  | cons listener listeners =>
      rw [emitted]
      split <;> simp

theorem emitted_eq_self {throws : Handler → Bool} {listeners : List Handler}
    (h : ∀ listener ∈ listeners, throws listener = false) :
    emitted throws listeners = listeners := by
  induction listeners with
  | nil => rfl
  | cons listener listeners ih =>
      rw [emitted, h listener List.mem_cons_self, if_neg Bool.false_ne_true,
        ih (fun l hl => h l (List.mem_cons_of_mem _ hl))]

/-- The listeners are those of the live subscriptions, in the same order. This
holds as long as the distributor was never cleared. -/
def Consistent (d : Distributor Handler) : Prop :=
  d.listeners = d.subscriptions.entries.map Prod.snd

theorem consistent_new : (new : Distributor Handler).Consistent := rfl

theorem Consistent.subscribe {d : Distributor Handler} (h : d.Consistent) {key : Uuid}
    (hFresh : d.subscriptions.get key = none) (handlerFn : Handler) :
    (d.subscribe key handlerFn).Consistent := by
  change d.listeners ++ [handlerFn] = (d.subscriptions.set key handlerFn).entries.map Prod.snd
  rw [KeyedMap.entries_set_of_new hFresh, List.map_append, h]
  rfl

theorem removeListener_of_nodup [DecidableEq Handler] {listeners : List Handler}
    (h : listeners.Nodup) (handler : Handler) :
    removeListener listeners handler = listeners.filter (· ≠ handler) := by
  rw [removeListener, (List.nodup_reverse.mpr h).erase_eq_filter, ← List.filter_reverse,
    List.reverse_reverse]
  simp only [ne_eq, decide_not]
  rfl

/-- With closures that are all different, unsubscribing takes away the listener
of that subscription and no other. -/
theorem Consistent.unsubscribe [DecidableEq Handler] {d : Distributor Handler}
    (h : d.Consistent) (hDistinct : d.listeners.Nodup) (key : Uuid) :
    (d.unsubscribe key).Consistent := by
  unfold Distributor.unsubscribe
  cases hGet : d.subscriptions.get key with
  | none => exact h
  | some handler =>
      change removeListener d.listeners handler =
        (d.subscriptions.entries.filter _).map Prod.snd
      rw [removeListener_of_nodup hDistinct, h, List.filter_map]
      congr 1
      refine List.filter_congr (fun entry hEntry => ?_)
      have hHandler := KeyedMap.mem_entries_iff_get.mpr hGet
      rw [h] at hDistinct
      have hIff : entry.2 = handler ↔ entry.1 = key := by
        constructor
        · intro hEq
          have hSame := List.inj_on_of_nodup_map hDistinct hEntry hHandler hEq
          rw [hSame]
        · intro hEq
          have hSame := List.inj_on_of_nodup_map d.subscriptions.distinct hEntry hHandler hEq
          rw [hSame]
      simp [hIff]

end Distributor

end Moirae
