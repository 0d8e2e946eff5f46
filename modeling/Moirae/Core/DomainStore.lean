import Moirae.Collections.ValueSet

/-! The domains that a node executes. -/
namespace Moirae

structure DomainStore where
  domains : ValueSet String

namespace DomainStore

def new : DomainStore := ⟨.empty⟩

def add (store : DomainStore) (domains : List String) : DomainStore :=
  ⟨domains.foldl ValueSet.add store.domains⟩

def clear (_ : DomainStore) : DomainStore := new

def getAll (store : DomainStore) : List String := store.domains.values

def has (store : DomainStore) (domain : String) : Bool := store.domains.has domain

/-- A store after a number of calls of `add`. -/
def registered (calls : List (List String)) : DomainStore := calls.foldl add new

/-- How the domains are grouped into calls does not matter. -/
theorem domains_registered (calls : List (List String)) :
    (registered calls).domains = calls.flatten.foldl ValueSet.add .empty := by
  suffices h : ∀ store : DomainStore,
      (calls.foldl add store).domains = calls.flatten.foldl ValueSet.add store.domains from h new
  induction calls with
  | nil => exact fun _ => rfl
  | cons domains calls ih =>
      intro store
      rw [List.foldl_cons, ih, List.flatten_cons, List.foldl_append]
      rfl

theorem has_registered_iff (calls : List (List String)) (domain : String) :
    (registered calls).has domain ↔ domain ∈ calls.flatten := by
  rw [has, domains_registered, ValueSet.has, decide_eq_true_iff, ValueSet.mem_foldl_add]
  simp

end DomainStore

end Moirae
