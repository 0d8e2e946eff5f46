import Moirae.Core.DomainStore
import Moirae.Text.Json

/-! The name of the queue from which the nodes take events to process. Nodes
that come up with one name share the queue, and each event is processed by one
of them. -/
namespace Moirae.RabbitMQPublisher

def EVENT_PUBLISHER : String := "__event_publisher__"

def generateWorkQueue (namespaceRoot role domain : String) : String :=
  namespaceRoot ++ "-work-" ++ role ++ "-" ++ domain

variable (sha1 : List String → String)

/-- A single domain stands for itself. `sha1` hashes the object that has the
domains as its only field. -/
def eventDomain (domains : List String) : String :=
  if domains.length = 1 then domains.headD "undefined" else sha1 domains

/-- What `handleBootstrap` calls the queue in the role of the event publisher. -/
def eventQueueName (namespaceRoot : String) (store : DomainStore) : String :=
  generateWorkQueue namespaceRoot EVENT_PUBLISHER ("events__" ++ eventDomain sha1 store.getAll)

theorem generateWorkQueue_injective (namespaceRoot role : String) :
    Function.Injective (generateWorkQueue namespaceRoot role) := by
  intro domain domain' h
  have hChars := congrArg String.toList h
  exact String.toList_inj.mp (by simpa [generateWorkQueue] using hChars)

variable {sha1}

/-- The name keeps the order in which the store lists its domains. -/
theorem eventDomain_eq_iff
    (hSha1 : ∀ domains domains', domains.Perm domains' → sha1 domains = sha1 domains' →
      domains = domains')
    {domains domains' : List String} (hPerm : domains.Perm domains') :
    eventDomain sha1 domains = eventDomain sha1 domains' ↔ domains = domains' := by
  constructor
  · intro h
    unfold eventDomain at h
    rw [← hPerm.length_eq] at h
    by_cases hOne : domains.length = 1
    · obtain ⟨domain, rfl⟩ := List.length_eq_one_iff.mp hOne
      exact (List.singleton_perm.mp hPerm).symm ▸ rfl
    · rw [if_neg hOne, if_neg hOne] at h
      exact hSha1 domains domains' hPerm h
  · rintro rfl
    rfl

/-- Two nodes with the same domains share the queue exactly when any two domains
were first added in the same order on both. -/
theorem eventQueueName_eq_iff
    (hSha1 : ∀ domains domains', domains.Perm domains' → sha1 domains = sha1 domains' →
      domains = domains')
    (namespaceRoot : String) {calls calls' : List (List String)}
    (hSame : ∀ domain, (DomainStore.registered calls).has domain =
      (DomainStore.registered calls').has domain) :
    eventQueueName sha1 namespaceRoot (.registered calls) =
        eventQueueName sha1 namespaceRoot (.registered calls') ↔
      ∀ domain ∈ calls.flatten, ∀ domain' ∈ calls.flatten,
        (calls.flatten.idxOf domain < calls.flatten.idxOf domain' ↔
          calls'.flatten.idxOf domain < calls'.flatten.idxOf domain') := by
  have hMem : ∀ domain, domain ∈ calls.flatten ↔ domain ∈ calls'.flatten := by
    intro domain
    rw [← DomainStore.has_registered_iff, ← DomainStore.has_registered_iff, hSame]
  have hPerm : ((DomainStore.registered calls).getAll).Perm
      (DomainStore.registered calls').getAll := by
    refine (List.perm_ext_iff_of_nodup (ValueSet.distinct _) (ValueSet.distinct _)).mpr ?_
    intro domain
    exact decide_eq_decide.mp (hSame domain)
  have hPrefix : Function.Injective fun text => "events__" ++ text := by
    intro text text' hText
    have hChars := congrArg String.toList hText
    exact String.toList_inj.mp (by simpa using hChars)
  rw [eventQueueName, eventQueueName, (generateWorkQueue_injective _ _).eq_iff, hPrefix.eq_iff,
    eventDomain_eq_iff hSha1 hPerm, ← ValueSet.values_foldl_add_eq_iff hMem,
    ← DomainStore.domains_registered, ← DomainStore.domains_registered]
  rfl

/-- A hash that is the text of the object itself. -/
def textHash (domains : List String) : String :=
  (Json.obj [("domains", .arr (domains.map .str))] : Json Int).stringify

theorem wellFormedItems_map_str (domains : List String) :
    Json.wellFormedItems (domains.map (.str : String → Json Int)) := by
  induction domains with
  | nil => rfl
  | cons domain domains ih => simpa [Json.wellFormedItems, Json.wellFormed] using ih

theorem textHash_injective : Function.Injective textHash := by
  intro domains domains' h
  have hWellFormed : ∀ domains : List String,
      (Json.obj [("domains", .arr (domains.map .str))] : Json Int).wellFormed := by
    intro domains
    simpa [Json.wellFormed, Json.wellFormedMembers] using wellFormedItems_map_str domains
  have hObjects := (Json.stringify_inj (hWellFormed domains) (hWellFormed domains')).mp h
  simp only [Json.obj.injEq, List.cons.injEq, Prod.mk.injEq, Json.arr.injEq, and_true,
    true_and] at hObjects
  exact List.map_injective_iff.mpr (fun _ _ => Json.str.inj) hObjects

/-- One node adds its domains one by one, the other one in a different order and
one of them twice. -/
theorem eventQueueName_eq_iff_textHash :
    eventQueueName textHash "moirae" (.registered [["accounts"], ["billing"]]) =
        eventQueueName textHash "moirae" (.registered [["accounts", "billing", "accounts"]]) ↔
      ∀ domain ∈ ["accounts", "billing"], ∀ domain' ∈ ["accounts", "billing"],
        (["accounts", "billing"].idxOf domain < ["accounts", "billing"].idxOf domain' ↔
          ["accounts", "billing", "accounts"].idxOf domain <
            ["accounts", "billing", "accounts"].idxOf domain') :=
  eventQueueName_eq_iff (fun _ _ _ h => textHash_injective h) "moirae" (fun domain => by
    rw [Bool.eq_iff_iff, DomainStore.has_registered_iff, DomainStore.has_registered_iff]
    simp only [List.flatten_cons, List.flatten_nil, List.append_nil, List.cons_append,
      List.nil_append, List.mem_cons, List.not_mem_nil, or_false]
    tauto)

/-- The same two domains in two orders give two queues. -/
theorem eventQueueName_ne_of_swapped :
    eventQueueName textHash "moirae" (.registered [["accounts", "billing"]]) ≠
      eventQueueName textHash "moirae" (.registered [["billing", "accounts"]]) := by
  decide

end Moirae.RabbitMQPublisher
