import Moirae.Core.AggregateHandlers

/-! The copy of an aggregate that `getAggregatePriorTo` makes. It is a new
object, but the aggregate is its prototype: it has the fields of the aggregate
until it assigns its own, and the same arrays and objects in them. -/
namespace Moirae

/-- What a field holds: a primitive value, or an array or object by its address. -/
inductive Field (Value : Type)
  | primitive (value : Value)
  | reference (address : Nat)
  deriving DecidableEq

/-- The fields that are set. Those of an array are its indices. -/
abbrev Slots (Value : Type) := String → Option (Field Value)

/-- What the handlers of an aggregate work on: the arrays and objects, its own
fields, and those of its prototypes, from the nearest one on. -/
structure Domain (Value : Type) where
  memory : Nat → Slots Value
  own : Slots Value
  inherited : List (Slots Value)

namespace Domain

variable {Value : Type}

/-- Reading a field: the first object in the chain that has it decides. -/
def visible (domain : Domain Value) : Slots Value :=
  fun name => (domain.own :: domain.inherited).findSome? (· name)

/-- `Object.create(this)`. -/
def create (domain : Domain Value) : Domain Value :=
  { domain with own := fun _ => none, inherited := domain.own :: domain.inherited }

/-- The arrays and objects that can be reached through the fields. -/
inductive Reaches (domain : Domain Value) : Nat → Prop
  | field {slots : Slots Value} {name : String} {address : Nat}
      (hSlots : slots ∈ domain.own :: domain.inherited)
      (hField : slots name = some (.reference address)) : Reaches domain address
  | inside {outer address : Nat} {name : String} (hOuter : Reaches domain outer)
      (hField : domain.memory outer name = some (.reference address)) : Reaches domain address

/-- The fields are the same, down to what is in their arrays and objects. -/
def Same (domain domain' : Domain Value) : Prop :=
  domain'.own = domain.own ∧ domain'.inherited = domain.inherited ∧
    ∀ address, domain.Reaches address → domain'.memory address = domain.memory address

@[simp] theorem visible_create (domain : Domain Value) :
    domain.create.visible = domain.visible := by
  funext name
  simp [visible, create]

end Domain

/-- An aggregate class with handlers that read and assign fields, and change
arrays and objects in place. Assigning a field never reaches a prototype. -/
structure ObjectClass (Value Data : Type) extends ThrowingClass (Domain Value) Data where
  inherited_eq : ∀ name handler, applyHandler name = some handler →
    ∀ domain event, (handler domain event).inherited = domain.inherited

namespace ObjectClass

open AggregateRoot (filed)

variable {Value Data : Type} (cls : ObjectClass Value Data)

/-- The copy before anything is applied to it. -/
def copied (root : AggregateRoot (Domain Value) Data) : AggregateRoot (Domain Value) Data :=
  { root with state := root.state.create }

/-- The aggregate once a copy of it was changed: the history and the memory are
the same for both, fields are assigned on the copy. -/
def original (root copy : AggregateRoot (Domain Value) Data) :
    AggregateRoot (Domain Value) Data :=
  { root with
    eventHistory := copy.eventHistory
    state := { root.state with memory := copy.state.memory } }

/-- Reading a field of what is beyond the end of the history. -/
def undefinedEventError : Thrown :=
  .error "TypeError" "Cannot read properties of undefined (reading '$uuid')"

/-- The loop, with an index into the history that the copy appends to. It runs
out of fuel where the loop goes on for ever. -/
def replayUntil (uuid : String) : Nat → AggregateRoot (Domain Value) Data → Nat →
    Option (AggregateRoot (Domain Value) Data × Option Thrown)
  | 0, _, _ => none
  | fuel + 1, aggregate, idx => match aggregate.eventHistory[idx]? with
    | none => some (aggregate, some undefinedEventError)
    | some event =>
        if event.uuid ≠ uuid ∧ idx < aggregate.eventHistory.length then
          match cls.apply aggregate event true with
          | (aggregate', some reason) => some (aggregate', some reason)
          | (aggregate', none) => replayUntil uuid fuel aggregate' (idx + 1)
        else some (aggregate, none)

/-- The result, and the aggregate that the method was called on afterwards. -/
def getAggregatePriorTo (fuel : Nat) (root : AggregateRoot (Domain Value) Data)
    (event : IEvent Data) :
    Option (AggregateRoot (Domain Value) Data ×
      Except Thrown (AggregateRoot (Domain Value) Data)) :=
  match cls.replayUntil event.uuid fuel (copied root) 0 with
  | none => none
  | some (copy, some reason) => some (original root copy, .error reason)
  | some (copy, none) => some (original root copy, .ok copy)

/-- Nothing about the aggregate has changed. -/
def Unchanged (root root' : AggregateRoot (Domain Value) Data) : Prop :=
  root'.eventHistory = root.eventHistory ∧
    root'.uncommittedEventHistory = root.uncommittedEventHistory ∧
    root'.lastCommittedIndex = root.lastCommittedIndex ∧
    root'.updatedAt = root.updatedAt ∧ root.state.Same root'.state

/-- The copy fails at this event, and has not changed an array or an object of
the aggregate by then. -/
def FailsUnnoticed (root : AggregateRoot (Domain Value) Data) (event : IEvent Data) : Prop :=
  ¬cls.Accepts root.state.create event ∧ ∀ address, root.state.Reaches address →
    (cls.handle root.state.create event).memory address = root.state.memory address

section

variable {cls}

/-- The loop applies the events before the one that it looks for. The induction
is on these, and the copy has appended something by the time it gets to the next. -/
theorem replayUntil_eq {uuid : String} {found : IEvent Data} (hFound : found.uuid = uuid)
    {done before after : List (IEvent Data)} (hBefore : ∀ event ∈ before, event.uuid ≠ uuid)
    {aggregate : AggregateRoot (Domain Value) Data} {appended : List (IEvent Data)}
    (hHistory : aggregate.eventHistory = done ++ (before ++ found :: after) ++ appended)
    {fuel : Nat} (hFuel : before.length < fuel) :
    cls.replayUntil uuid fuel aggregate done.length =
      some (cls.applyAll true aggregate before) := by
  induction before generalizing done aggregate appended fuel with
  | nil =>
      obtain ⟨fuel, rfl⟩ := Nat.exists_eq_succ_of_ne_zero (Nat.ne_of_gt hFuel)
      have hGet : aggregate.eventHistory[done.length]? = some found := by
        simp [hHistory]
      rw [replayUntil, hGet]
      simp [hFound, ThrowingClass.applyAll]
  | cons event before ih =>
      obtain ⟨fuel, rfl⟩ := Nat.exists_eq_succ_of_ne_zero (Nat.ne_of_gt (Nat.zero_lt_of_lt hFuel))
      obtain ⟨hEvent, hRest⟩ := List.forall_mem_cons.mp hBefore
      have hGet : aggregate.eventHistory[done.length]? = some event := by
        simp [hHistory]
      have hInside : done.length < aggregate.eventHistory.length := by
        simp [hHistory]
      rw [replayUntil, hGet, ThrowingClass.applyAll]
      dsimp only
      rw [if_pos ⟨hEvent, hInside⟩]
      rcases hApply : cls.apply aggregate event true with ⟨next, _ | reason⟩
      · obtain ⟨-, rfl⟩ := ThrowingClass.apply_eq_none_iff.mp hApply
        have hHandled : (aggregate.handled cls.handle event true).eventHistory =
            (done ++ [event]) ++ (before ++ found :: after) ++
              (appended ++ [filed aggregate.streamId event]) := by
          simp [AggregateRoot.handled, hHistory]
        have hEnough : before.length < fuel := by simpa using hFuel
        have hNext := ih hRest hHandled hEnough
        rwa [List.length_append, List.length_singleton] at hNext
      · rfl

/-- An event of the history ends the loop at the first entry with its id. -/
theorem exists_found {history : List (IEvent Data)} {event : IEvent Data}
    (hMem : event ∈ history) :
    ∃ before found after, history = before ++ found :: after ∧ found.uuid = event.uuid ∧
      ∀ other ∈ before, other.uuid ≠ event.uuid := by
  have hSome : (history.find? (·.uuid = event.uuid)).isSome = true := by
    rw [List.find?_isSome]
    exact ⟨event, hMem, by simp⟩
  obtain ⟨found, hFind⟩ := Option.isSome_iff_exists.mp hSome
  obtain ⟨hFound, before, after, hSplit, hBefore⟩ := List.find?_eq_some_iff_append.mp hFind
  exact ⟨before, found, after, hSplit, by simpa using hFound, by simpa using hBefore⟩

/-- With enough fuel, the result comes from applying what precedes the event. -/
theorem getAggregatePriorTo_eq {root : AggregateRoot (Domain Value) Data}
    {event found : IEvent Data} {before after : List (IEvent Data)}
    (hHistory : root.eventHistory = before ++ found :: after) (hFound : found.uuid = event.uuid)
    (hBefore : ∀ other ∈ before, other.uuid ≠ event.uuid) {fuel : Nat}
    (hFuel : root.eventHistory.length ≤ fuel) :
    cls.getAggregatePriorTo fuel root event =
      some (original root (cls.applyAll true (copied root) before).1,
        match (cls.applyAll true (copied root) before).2 with
        | some reason => .error reason
        | none => .ok (cls.applyAll true (copied root) before).1) := by
  have hLength : before.length < fuel := by
    rw [hHistory, List.length_append, List.length_cons] at hFuel
    omega
  have hCopied : (copied root).eventHistory = [] ++ (before ++ found :: after) ++ [] := by
    simp [copied, hHistory]
  have hLoop : cls.replayUntil event.uuid fuel (copied root) 0 =
      some (cls.applyAll true (copied root) before) :=
    replayUntil_eq hFound hBefore hCopied hLength
  rw [getAggregatePriorTo, hLoop]
  rcases cls.applyAll true (copied root) before with ⟨copy, _ | reason⟩ <;> rfl

theorem unchanged_refl (root : AggregateRoot (Domain Value) Data) : Unchanged root root :=
  ⟨rfl, rfl, rfl, rfl, rfl, rfl, fun _ _ => rfl⟩

/-- Once the first event is applied to the copy the history has grown, whatever
happens to the events after it. -/
theorem not_unchanged_of_accepts {root : AggregateRoot (Domain Value) Data} {first : IEvent Data}
    (hAccepts : cls.Accepts root.state.create first) (before : List (IEvent Data)) :
    ¬Unchanged root (original root (cls.applyAll true (copied root) (first :: before)).1) := by
  have hTakes : cls.Takes true (copied root).state first := ⟨fun _ => rfl, hAccepts⟩
  rw [ThrowingClass.applyAll, ThrowingClass.apply_of_takes hTakes]
  intro hUnchanged
  have hPrefix : ((copied root).handled cls.handle first true).eventHistory <+:
      (cls.applyAll true ((copied root).handled cls.handle first true) before).1.eventHistory :=
    ThrowingClass.applyAll_eventHistory true _ before
  have hGrown := hPrefix.length_le
  have hSame := congrArg List.length hUnchanged.1
  change (cls.applyAll true ((copied root).handled cls.handle first true)
    before).1.eventHistory.length = root.eventHistory.length at hSame
  rw [hSame] at hGrown
  simp only [copied, AggregateRoot.handled, List.length_append, List.length_singleton] at hGrown
  omega

/-- A first event that fails can only have changed what is shared. -/
theorem unchanged_iff_of_refuses {root : AggregateRoot (Domain Value) Data} {first : IEvent Data}
    (hRefuses : ¬cls.Accepts root.state.create first) (before : List (IEvent Data)) :
    Unchanged root (original root (cls.applyAll true (copied root) (first :: before)).1) ↔
      cls.FailsUnnoticed root first := by
  have hNotTaken : ¬cls.Takes true (copied root).state first := fun hTakes => hRefuses hTakes.2
  obtain ⟨reason, hApply⟩ := ThrowingClass.apply_of_refuses hNotTaken
  rw [if_neg (fun hBoth => Bool.false_ne_true hBoth.2.symm)] at hApply
  rw [ThrowingClass.applyAll, hApply]
  constructor
  · rintro ⟨-, -, -, -, -, -, hMemory⟩
    exact ⟨hRefuses, hMemory⟩
  · rintro ⟨-, hMemory⟩
    exact ⟨rfl, rfl, rfl, rfl, rfl, rfl, hMemory⟩

/-- The method leaves the aggregate alone exactly when there is nothing to be
applied before the event, or when the first event to be applied already fails,
without having changed an array or an object of the aggregate. -/
theorem unchanged_iff {root : AggregateRoot (Domain Value) Data} {event : IEvent Data}
    (hMem : event ∈ root.eventHistory) :
    ∃ root' result,
      (∀ fuel, root.eventHistory.length ≤ fuel →
        cls.getAggregatePriorTo fuel root event = some (root', result)) ∧
      (Unchanged root root' ↔ ∃ first, root.eventHistory.head? = some first ∧
        (first.uuid = event.uuid ∨ cls.FailsUnnoticed root first)) := by
  obtain ⟨before, found, after, hHistory, hFound, hBefore⟩ := exists_found hMem
  refine ⟨_, _, fun fuel hFuel => getAggregatePriorTo_eq hHistory hFound hBefore hFuel, ?_⟩
  cases before with
  | nil => exact iff_of_true (unchanged_refl root) ⟨found, by rw [hHistory]; rfl, Or.inl hFound⟩
  | cons first before =>
      have hHead : root.eventHistory.head? = some first := by rw [hHistory]; rfl
      have hOther : first.uuid ≠ event.uuid := hBefore first List.mem_cons_self
      have hCondition : (∃ first, root.eventHistory.head? = some first ∧
          (first.uuid = event.uuid ∨ cls.FailsUnnoticed root first)) ↔
          cls.FailsUnnoticed root first := by
        simp [hHead, hOther]
      rw [hCondition]
      by_cases hAccepts : cls.Accepts root.state.create first
      · exact iff_of_false (not_unchanged_of_accepts hAccepts before) fun hFails =>
          hFails.1 hAccepts
      · exact unchanged_iff_of_refuses hAccepts before

/-! ### Listing greetings in an object -/

/-- The field `greetings` holds an object with an entry for each greeting. -/
def listingHello : ObjectClass String Unit where
  name := "ListingAggregate"
  initial :=
    ⟨fun _ _ => none, fun name => if name = "greetings" then some (.reference 0) else none, []⟩
  deleted _ := false
  applyHandler name :=
    if name = "HelloSaidEvent" then some fun domain event =>
      match domain.visible "greetings" with
      | some (.reference address) =>
          { domain with
            memory := Function.update domain.memory address
              (Function.update (domain.memory address) event.uuid (some (.primitive "said"))) }
      | _ => domain
    else none
  rollbackHandler _ := none
  applyThrows _ _ _ := none
  rollbackThrows _ _ _ := none
  inherited_eq := by
    intro name handler h domain event
    split at h
    · cases h
      dsimp only
      split <;> rfl
    · cases h

/-- A new aggregate that two greetings were applied to. -/
def listed : AggregateRoot (Domain String) Unit :=
  listingHello.handledAll (.new listingHello.toAggregateClass "hello-1")
    [greeting "e1" "tx", greeting "e2" "tx"] false

theorem unchanged_iff_listed :
    ∃ root' result,
      (∀ fuel, listed.eventHistory.length ≤ fuel →
        listingHello.getAggregatePriorTo fuel listed (greeting "e2" "tx") =
          some (root', result)) ∧
      (Unchanged listed root' ↔ ∃ first, listed.eventHistory.head? = some first ∧
        (first.uuid = "e2" ∨ listingHello.FailsUnnoticed listed first)) :=
  unchanged_iff
    (List.mem_cons_of_mem _ List.mem_cons_self : greeting "e2" "tx" ∈ listed.eventHistory)

/-- Asking for the aggregate before the second greeting says the first again. -/
theorem history_grows :
    greeting "e2" "tx" ∈ listed.eventHistory ∧
    ∃ root' copy, listingHello.getAggregatePriorTo 2 listed (greeting "e2" "tx") =
        some (root', .ok copy) ∧ ¬Unchanged listed root' := by
  refine ⟨List.mem_cons_of_mem _ List.mem_cons_self, _, _, rfl, fun hUnchanged => ?_⟩
  have hLength := congrArg List.length hUnchanged.1
  revert hLength
  decide

end

end ObjectClass

end Moirae
