import Moirae.Core.Queue
import Moirae.Runs.Simulation

/-! The queue against a list of items. Calls come in any order; the keys that
`enqueue` draws never repeat. -/
namespace Moirae.Queue

variable {Item : Type}

/-- A call of the queue. `enqueue` is given the `randomUUID()` that it draws. -/
inductive Call (Item : Type)
  | enqueue (key : Uuid) (item : Item)
  | dequeue
  | clear

/-- The key that a call draws. -/
def Call.drawn : Call Item → Option Uuid
  | .enqueue key _ => some key
  | .dequeue => none
  | .clear => none

/-- What a call returned, and the size after it. -/
structure Answer (Item : Type) where
  returned : Option Item
  size : Nat
  deriving DecidableEq

/-- One call on the queue. No answer is the `TypeError` of a missing last
element, which is met after the first key was written. -/
def perform : Call Item → Queue Item → Queue Item × Option (Answer Item)
  | .enqueue key item, q => match q.enqueue key item with
    | none => ({ q with firstKey := if q.size = 0 then some key else q.firstKey }, none)
    | some q' => (q', some ⟨none, q'.size⟩)
  | .dequeue, q => (q.dequeue.2, some ⟨q.dequeue.1, q.dequeue.2.size⟩)
  | .clear, q => (q.clear, some ⟨none, q.clear.size⟩)

/-- One call on a plain list, oldest item first. -/
def performFifo : Call Item → List Item → List Item × Option (Answer Item)
  | .enqueue _ item, items => (items ++ [item], some ⟨none, items.length + 1⟩)
  | .dequeue, items => (items.tail, some ⟨items.head?, items.length - 1⟩)
  | .clear, _ => ([], some ⟨none, 0⟩)

/-- What a call does to the entries that the queue holds. -/
def Call.advance : Call Item → List (Uuid × Item) → List (Uuid × Item)
  | .enqueue key item, entries => entries ++ [(key, item)]
  | .dequeue, entries => entries.tail
  | .clear, _ => []

theorem Call.map_snd_advance (call : Call Item) (entries : List (Uuid × Item)) :
    (call.advance entries).map Prod.snd = (performFifo call (entries.map Prod.snd)).1 := by
  cases call with
  | enqueue key item => simp [advance, performFifo]
  | dequeue => cases entries <;> rfl
  | clear => rfl

/-- Only the key that is drawn is new. -/
theorem Call.key_of_advance {call : Call Item} {entries : List (Uuid × Item)} {key : Uuid}
    (h : key ∈ (call.advance entries).map Prod.fst) :
    key ∈ entries.map Prod.fst ∨ call.drawn = some key := by
  cases call with
  | enqueue own item =>
      simp only [advance, List.map_append, List.map_cons, List.map_nil, List.mem_append,
        List.mem_singleton] at h
      rcases h with hOld | rfl
      · exact .inl hOld
      · exact .inr rfl
  | dequeue =>
      obtain ⟨entry, hEntry, rfl⟩ := List.mem_map.mp h
      exact .inl (List.mem_map_of_mem (List.mem_of_mem_tail hEntry))
  | clear => simp [advance] at h

/-- One call answers as the list does, and leaves a queue that holds what the
list holds. -/
theorem Holds.perform {q : Queue Item} {entries : List (Uuid × Item)} (h : q.Holds entries)
    {call : Call Item} (hFresh : ∀ key, call.drawn = some key → key ∉ entries.map Prod.fst) :
    (q.perform call).1.Holds (call.advance entries) ∧
      (q.perform call).2 = (performFifo call (entries.map Prod.snd)).2 := by
  cases call with
  | enqueue key item =>
      obtain ⟨q', hSome, hHolds⟩ := h.enqueue (hFresh key rfl) item
      have hSize : q'.size = entries.length + 1 := by
        rw [hHolds.size_eq]
        simp
      simp only [Queue.perform, hSome, performFifo, hSize, List.length_map, and_true]
      exact hHolds
  | dequeue =>
      cases entries with
      | nil =>
          have hSize : q.size = 0 := h.size_eq
          simp only [Queue.perform, h.dequeue_nil, hSize]
          exact ⟨h, rfl⟩
      | cons entry rest =>
          obtain ⟨hItem, hHolds⟩ := h.dequeue_cons
          have hSize := hHolds.size_eq
          simp only [Queue.perform, hItem, hSize]
          refine ⟨hHolds, ?_⟩
          simp [performFifo]
  | clear => exact ⟨Holds.clear, rfl⟩

/-- The induction is on the calls. The keys in the queue are among those drawn
before, so none of them is drawn again. -/
theorem Holds.answers {q : Queue Item} {entries : List (Uuid × Item)} (h : q.Holds entries)
    {calls : List (Call Item)} (hNever : (calls.filterMap Call.drawn).Nodup)
    (hFresh : ∀ key ∈ calls.filterMap Call.drawn, key ∉ entries.map Prod.fst) :
    Runs.answers Queue.perform q calls =
      Runs.answers performFifo (entries.map Prod.snd) calls := by
  induction calls generalizing q entries with
  | nil => rfl
  | cons call calls ih =>
      have hDrawn : ∀ key, call.drawn = some key →
          key ∈ (call :: calls).filterMap Call.drawn := by
        intro key hKey
        simp [hKey]
      have hLater : ∀ key ∈ calls.filterMap Call.drawn,
          key ∈ (call :: calls).filterMap Call.drawn := by
        intro key hKey
        cases hCall : call.drawn <;> simp [hCall, hKey]
      have hOther : ∀ key ∈ calls.filterMap Call.drawn, call.drawn ≠ some key := by
        intro key hKey hSame
        rw [List.filterMap_cons, hSame] at hNever
        exact (List.nodup_cons.mp hNever).1 hKey
      have hRest : (calls.filterMap Call.drawn).Nodup := by
        apply List.Nodup.sublist _ hNever
        exact (List.sublist_cons_self call calls).filterMap Call.drawn
      obtain ⟨hNext, hAnswer⟩ := h.perform fun key hKey => hFresh key (hDrawn key hKey)
      rw [Runs.answers, Runs.answers, hAnswer, ← call.map_snd_advance entries]
      congr 1
      apply ih hNext hRest
      intro key hKey hMem
      rcases Call.key_of_advance hMem with hOld | hSame
      · exact hFresh key (hLater key hKey) hOld
      · exact hOther key hKey hSame

/-- A new queue gives the answers of an empty list to every sequence of calls:
each `dequeue` returns the oldest item, the sizes agree, and no `enqueue` meets
a missing last element. -/
theorem answers_eq_fifo {calls : List (Call Item)}
    (hNever : (calls.filterMap Call.drawn).Nodup) :
    Runs.answers perform new calls = Runs.answers performFifo [] calls :=
  holds_new.answers hNever fun _ _ => List.not_mem_nil

theorem answers_eq_fifo_stale :
    Runs.answers perform new
        [.enqueue 1 "a", .enqueue 2 "b", .clear, .dequeue, .enqueue 3 "c", .dequeue] =
      Runs.answers performFifo []
        [.enqueue 1 "a", .enqueue 2 "b", .clear, .dequeue, .enqueue 3 "c", .dequeue] :=
  answers_eq_fifo (by decide)

end Moirae.Queue
