import Mathlib.Data.List.Perm.Basic
import Moirae.Core.Event

/-! What the domains of the demo share: the data of their events, which all go
to one event store. -/
namespace Moirae.Demo

/-- `$data` of the events of the demo and of the commands of its saga, where
what one does not have is undefined. Amounts and quantities are whole numbers,
with which a double calculates exactly as long as they are not too large: sums
that are rounded are left out. What is no number is none, too. Times are
milliseconds. -/
structure EventData where
  createdAt : Option Nat
  name : Option String
  quantity : Option Int
  price : Option Int
  message : Option String
  balance : Option Int
  funds : Option Int
  cost : Option Int
  id : Option String
  accountId : Option String
  inventoryId : Option String
  orderId : Option String
  deriving DecidableEq

def EventData.undefined : EventData :=
  ⟨none, none, none, none, none, none, none, none, none, none, none, none⟩

/-- `new Event(streamId, data)`, for the class of this name. -/
def newEvent (name streamId : String) (data : EventData) (uuid : String) (now : Nat) :
    IEvent EventData where
  correlationId := none
  data := data
  metadata := some .empty
  name := name
  streamId := streamId
  timestamp := now
  uuid := uuid

/-- `+`, as far as both sides are numbers. -/
def plus (a b : Option Int) : Option Int := a.bind fun x => b.map (x + ·)

def minus (a b : Option Int) : Option Int := a.bind fun x => b.map (x - ·)

/-- Replacing an item by one with the same view does not change the views. -/
theorem map_set_of_eq {Item View : Type} {items : List Item} {view : Item → View} {i : Nat}
    {old new : Item} (hOld : items[i]? = some old) (h : view new = view old) :
    (items.set i new).map view = items.map view := by
  obtain ⟨hi, rfl⟩ := List.getElem?_eq_some_iff.mp hOld
  rw [List.map_set, h, ← List.getElem_map view (h := by simpa using hi), List.set_getElem_self]

/-- No view is lost, and none is added. -/
theorem exists_mem_set_iff {Item View : Type} (view : Item → View) {items : List Item} {i : Nat}
    {old new : Item} (hOld : items[i]? = some old) (h : view new = view old) {value : View} :
    (∃ item ∈ items.set i new, view item = value) ↔ ∃ item ∈ items, view item = value := by
  rw [← List.mem_map, ← List.mem_map, map_set_of_eq hOld h]

/-- Replacing an item without a property by another one. -/
theorem exists_mem_set_of_not {Item : Type} {P : Item → Prop} {items : List Item} {i : Nat}
    {old new : Item} (hOld : items[i]? = some old) (hNot : ¬ P old) :
    (∃ item ∈ items.set i new, P item) ↔ P new ∨ ∃ item ∈ items, P item := by
  obtain ⟨hi, rfl⟩ := List.getElem?_eq_some_iff.mp hOld
  constructor
  · intro h
    obtain ⟨item, hItem, hP⟩ := h
    rcases List.mem_or_eq_of_mem_set hItem with hKept | rfl
    · exact Or.inr ⟨item, hKept, hP⟩
    · exact Or.inl hP
  · intro h
    rcases h with hP | ⟨item, hItem, hP⟩
    · exact ⟨new, List.mem_set hi new, hP⟩
    · obtain ⟨j, hj, rfl⟩ := List.getElem_of_mem hItem
      have hNe : i ≠ j := by
        rintro rfl
        exact hNot hP
      refine ⟨items[j], ?_, hP⟩
      rw [← List.getElem_set_ne hNe (by simpa using hj)]
      exact List.getElem_mem _

/-- Items at different places have different views. -/
theorem ne_of_nodup_map {Item View : Type} {items : List Item} {view : Item → View}
    (h : (items.map view).Nodup) {i j : Nat} {a b : Item} (ha : items[i]? = some a)
    (hb : items[j]? = some b) (hApart : i ≠ j) : view a ≠ view b := by
  intro hSame
  have hi : (items.map view)[i]? = some (view a) := by rw [List.getElem?_map, ha, Option.map_some]
  have hj : (items.map view)[j]? = some (view b) := by rw [List.getElem?_map, hb, Option.map_some]
  obtain ⟨hLength, -⟩ := List.getElem?_eq_some_iff.mp hi
  exact hApart ((List.getElem?_inj hLength h).mp (by rw [hi, hj, hSame]))

/-- Of distinct values, each comes from one item only. -/
theorem eq_of_nodup_filterMap {Item Value : Type} {f : Item → Option Value} {items : List Item}
    (h : (items.filterMap f).Nodup) {a b : Item} (ha : a ∈ items) (hb : b ∈ items)
    {value : Value} (hav : f a = some value) (hbv : f b = some value) : a = b := by
  induction items with
  | nil => exact absurd ha List.not_mem_nil
  | cons item items ih =>
      rw [List.filterMap_cons] at h
      rcases List.mem_cons.mp ha with rfl | hA
      · rcases List.mem_cons.mp hb with rfl | hB
        · rfl
        · rw [hav] at h
          exact absurd (List.mem_filterMap.mpr ⟨b, hB, hbv⟩) (List.nodup_cons.mp h).1
      · rcases List.mem_cons.mp hb with rfl | hB
        · rw [hbv] at h
          exact absurd (List.mem_filterMap.mpr ⟨a, hA, hav⟩) (List.nodup_cons.mp h).1
        · cases hItem : f item with
          | none =>
              rw [hItem] at h
              exact ih h hA hB
          | some other =>
              rw [hItem] at h
              exact ih (List.nodup_cons.mp h).2 hA hB

/-- Counting when an item is left out. -/
theorem countP_eraseIdx_add {Item : Type} {items : List Item} {p : Item → Bool} {i : Nat}
    {old : Item} (hOld : items[i]? = some old) :
    (items.eraseIdx i).countP p + (if p old then 1 else 0) = items.countP p := by
  obtain ⟨hi, rfl⟩ := List.getElem?_eq_some_iff.mp hOld
  rw [← (List.getElem_cons_eraseIdx_perm hi).countP_eq p, List.countP_cons]

/-- Counting when an item is replaced. -/
theorem countP_set_add {Item : Type} {items : List Item} {p : Item → Bool} {i : Nat}
    {old : Item} (hOld : items[i]? = some old) (new : Item) :
    (items.set i new).countP p + (if p old then 1 else 0) =
      items.countP p + (if p new then 1 else 0) := by
  obtain ⟨hi, -⟩ := List.getElem?_eq_some_iff.mp hOld
  rw [(List.set_perm_cons_eraseIdx hi new).countP_eq p, List.countP_cons,
    ← countP_eraseIdx_add hOld]
  omega

end Moirae.Demo
