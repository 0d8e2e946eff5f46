import Mathlib.Data.List.Lookmap
import Mathlib.Data.List.Nodup

/-! Maps that remember the order in which their keys were first set. Setting a
present key keeps its place, deleting it forgets the place. -/

/-- Entries in insertion order; no key occurs twice. -/
structure KeyedMap (Key Value : Type*) where
  entries : List (Key × Value)
  distinct : (entries.map Prod.fst).Nodup

namespace KeyedMap

section Lists

variable {Item Key : Type*} {key : Item → Key} {items : List Item}

theorem nodup_map_concat (h : (items.map key).Nodup) {item : Item}
    (hNew : key item ∉ items.map key) : ((items ++ [item]).map key).Nodup := by
  rw [List.map_append, List.map_singleton, ← List.concat_eq_append]
  exact List.Nodup.concat hNew h

/-- Without the item at a place, its key does not occur any more. -/
theorem ne_of_mem_eraseIdx (h : (items.map key).Nodup) {place : Nat} {item : Item}
    (hItem : items[place]? = some item) : ∀ other ∈ items.eraseIdx place, key other ≠ key item := by
  intro other hOther hSame
  obtain ⟨hPlace, rfl⟩ := List.getElem?_eq_some_iff.mp hItem
  obtain ⟨i, hi, hNe, rfl⟩ := List.mem_eraseIdx_iff_getElem.mp hOther
  have hLeft : i < (items.map key).length := by simpa using hi
  have hRight : place < (items.map key).length := by simpa using hPlace
  have hKeys : (items.map key)[i] = (items.map key)[place] := by simpa using hSame
  exact hNe (h.getElem_inj_iff.mp hKeys)

end Lists

variable {Key Value : Type*}

@[ext] theorem ext' {m n : KeyedMap Key Value} (h : m.entries = n.entries) : m = n := by
  cases m
  cases n
  cases h
  rfl

instance [DecidableEq Key] [DecidableEq Value] : DecidableEq (KeyedMap Key Value) :=
  fun m n => decidable_of_iff (m.entries = n.entries) ⟨ext', congrArg entries⟩

/-- The map without entries. -/
def empty : KeyedMap Key Value := ⟨[], List.nodup_nil⟩

def size (m : KeyedMap Key Value) : Nat := m.entries.length

variable [DecidableEq Key]

def get (m : KeyedMap Key Value) (k : Key) : Option Value := m.entries.lookup k

def has (m : KeyedMap Key Value) (k : Key) : Bool := (m.get k).isSome

/-- Replace the value of the entry with this key. -/
def replaceEntry (k : Key) (v : Value) (entry : Key × Value) : Key × Value :=
  if entry.1 = k then (k, v) else entry

theorem map_fst_replaceEntry (k : Key) (v : Value) (entries : List (Key × Value)) :
    (entries.map (replaceEntry k v)).map Prod.fst = entries.map Prod.fst := by
  rw [List.map_map]
  refine List.map_congr_left (fun entry _ => ?_)
  by_cases h : entry.1 = k
  · simp [replaceEntry, h]
  · simp [replaceEntry, h]

theorem not_mem_keys_of_get_none {m : KeyedMap Key Value} {k : Key}
    (h : m.get k = none) : k ∉ m.entries.map Prod.fst := by
  intro hMem
  obtain ⟨entry, hEntry, rfl⟩ := List.mem_map.mp hMem
  have hNone := List.lookup_eq_none_iff.mp h entry hEntry
  simp at hNone

/-- Set the value of a key: in place when the key is there, at the end when it
is not. -/
def set (m : KeyedMap Key Value) (k : Key) (v : Value) : KeyedMap Key Value :=
  if h : m.get k = none then
    ⟨m.entries ++ [(k, v)], by
      rw [List.map_append, List.nodup_append]
      refine ⟨m.distinct, List.nodup_singleton _, ?_⟩
      intro a ha b hb hab
      have hk : b = k := by simpa using hb
      exact not_mem_keys_of_get_none h (hk ▸ hab ▸ ha)⟩
  else
    ⟨m.entries.map (replaceEntry k v), by
      rw [map_fst_replaceEntry]
      exact m.distinct⟩

def delete (m : KeyedMap Key Value) (k : Key) : KeyedMap Key Value :=
  ⟨m.entries.filter (fun entry => entry.1 ≠ k),
    m.distinct.sublist (List.filter_sublist.map Prod.fst)⟩

@[simp] theorem get_empty (k : Key) : (empty : KeyedMap Key Value).get k = none := rfl

/-- Keys are distinct, so an entry is what looking its key up gives. -/
theorem mem_entries_iff_get {m : KeyedMap Key Value} {k : Key} {v : Value} :
    (k, v) ∈ m.entries ↔ m.get k = some v := by
  obtain ⟨entries, hDistinct⟩ := m
  change (k, v) ∈ entries ↔ entries.lookup k = some v
  induction entries with
  | nil => simp
  | cons entry entries ih =>
      rw [List.map_cons, List.nodup_cons] at hDistinct
      rw [List.mem_cons, List.lookup_cons]
      by_cases h : k = entry.1
      · subst h
        constructor
        · rintro (hHead | hMem)
          · rw [← hHead]
            simp
          · exact absurd (List.mem_map_of_mem (f := Prod.fst) hMem) hDistinct.1
        · intro hGet
          left
          have hv : entry.2 = v := by simpa using hGet
          rw [← hv]
      · have hNe : (k == entry.1) = false := by simpa using h
        rw [hNe, ih hDistinct.2]
        constructor
        · rintro (rfl | hGet)
          · exact absurd rfl h
          · exact hGet
        · exact Or.inr

/-- The values of a map are what its keys have. -/
theorem mem_values_iff {m : KeyedMap Key Value} {v : Value} :
    v ∈ m.entries.map Prod.snd ↔ ∃ k, m.get k = some v := by
  constructor
  · intro hMem
    obtain ⟨⟨k, own⟩, hEntry, rfl⟩ := List.mem_map.mp hMem
    exact ⟨k, mem_entries_iff_get.mp hEntry⟩
  · rintro ⟨k, hGet⟩
    exact List.mem_map.mpr ⟨(k, v), mem_entries_iff_get.mpr hGet, rfl⟩

theorem mem_keys_iff {m : KeyedMap Key Value} {k : Key} :
    k ∈ m.entries.map Prod.fst ↔ m.has k := by
  constructor
  · intro hMem
    obtain ⟨⟨own, v⟩, hEntry, rfl⟩ := List.mem_map.mp hMem
    rw [has, mem_entries_iff_get.mp hEntry]
    rfl
  · intro hHas
    obtain ⟨v, hGet⟩ := Option.isSome_iff_exists.mp hHas
    exact List.mem_map.mpr ⟨(k, v), mem_entries_iff_get.mpr hGet, rfl⟩

/-- What an entry of the map is after a set: the new one, or an old one under
another key. -/
theorem mem_set_entries (m : KeyedMap Key Value) (k k' : Key) (v v' : Value) :
    (k', v') ∈ (m.set k v).entries ↔ if k' = k then v' = v else (k', v') ∈ m.entries := by
  unfold set
  by_cases h : m.get k = none
  · rw [dif_pos h, List.mem_append, List.mem_singleton, Prod.mk.injEq]
    by_cases hk : k' = k
    · have hOld : (k', v') ∉ m.entries := by
        rw [mem_entries_iff_get, hk, h]
        simp
      simp [hk, hk ▸ hOld]
    · simp [hk]
  · rw [dif_neg h, List.mem_map]
    obtain ⟨old, hOld⟩ := Option.ne_none_iff_exists'.mp h
    have hOldMem : (k, old) ∈ m.entries := mem_entries_iff_get.mpr hOld
    by_cases hk : k' = k
    · rw [if_pos hk, hk]
      constructor
      · rintro ⟨entry, hEntry, hEq⟩
        by_cases hFst : entry.1 = k
        · have hPair : (k, v) = (k, v') := by simpa [replaceEntry, hFst] using hEq
          exact (Prod.mk.inj hPair).2.symm
        · have hPair : entry = (k, v') := by simpa [replaceEntry, hFst] using hEq
          exact absurd (congrArg Prod.fst hPair) hFst
      · rintro rfl
        exact ⟨(k, old), hOldMem, by simp [replaceEntry]⟩
    · rw [if_neg hk]
      constructor
      · rintro ⟨entry, hEntry, hEq⟩
        by_cases hFst : entry.1 = k
        · have hPair : (k, v) = (k', v') := by simpa [replaceEntry, hFst] using hEq
          exact absurd (Prod.mk.inj hPair).1.symm hk
        · have hPair : entry = (k', v') := by simpa [replaceEntry, hFst] using hEq
          exact hPair ▸ hEntry
      · intro hMem
        exact ⟨(k', v'), hMem, by simp [replaceEntry, hk]⟩

/-- Reading back: the key that was set has the new value, the others theirs. -/
theorem get_set (m : KeyedMap Key Value) (k k' : Key) (v : Value) :
    (m.set k v).get k' = if k' = k then some v else m.get k' := by
  apply Option.ext
  intro v'
  rw [← mem_entries_iff_get, mem_set_entries]
  by_cases hk : k' = k
  · simp [hk, eq_comm]
  · simp [hk, mem_entries_iff_get]

@[simp] theorem get_set_self (m : KeyedMap Key Value) (k : Key) (v : Value) :
    (m.set k v).get k = some v := by
  rw [get_set, if_pos rfl]

theorem get_set_ne (m : KeyedMap Key Value) {k k' : Key} (h : k' ≠ k) (v : Value) :
    (m.set k v).get k' = m.get k' := by
  rw [get_set, if_neg h]

/-- A new key has its entry at the end. -/
theorem entries_set_of_new {m : KeyedMap Key Value} {k : Key} (h : m.get k = none) (v : Value) :
    (m.set k v).entries = m.entries ++ [(k, v)] := by
  rw [set, dif_pos h]

/-- Setting a key to the value that it has changes nothing. -/
theorem set_eq_self {m : KeyedMap Key Value} {k : Key} {v : Value} (h : m.get k = some v) :
    m.set k v = m := by
  apply ext'
  rw [set, dif_neg (by rw [h]; exact Option.some_ne_none v)]
  have hSame : ∀ entry ∈ m.entries, replaceEntry k v entry = id entry := by
    rintro ⟨k', v'⟩ hEntry
    unfold replaceEntry
    split
    · next hKey =>
        obtain rfl : k' = k := hKey
        rw [mem_entries_iff_get, h] at hEntry
        rw [Option.some.inj hEntry]
        rfl
    · rfl
  change m.entries.map (replaceEntry k v) = m.entries
  rw [List.map_congr_left hSame, List.map_id]

/-- Assigning all entries to a map overwrites what was there under their keys. -/
theorem get_foldl_set (base : KeyedMap Key Value)
    {entries : List (Key × Value)} (hDistinct : (entries.map Prod.fst).Nodup) (key : Key) :
    (entries.foldl (fun merged entry => merged.set entry.1 entry.2) base).get key =
      (entries.lookup key).or (base.get key) := by
  induction entries generalizing base with
  | nil => rfl
  | cons entry entries ih =>
      obtain ⟨hNot, hRest⟩ := List.nodup_cons.mp hDistinct
      obtain ⟨own, value⟩ := entry
      rw [List.foldl_cons, ih _ hRest, get_set, List.lookup_cons]
      by_cases hKey : key = own
      · subst hKey
        have hNone : entries.lookup key = none := by
          refine List.lookup_eq_none_iff.mpr fun other hOther => ?_
          have hNe : other.1 ≠ key := fun hSame =>
            hNot (List.mem_map.mpr ⟨other, hOther, hSame⟩)
          simpa using hNe.symm
        simp [hNone]
      · rw [if_neg hKey, beq_eq_false_iff_ne.mpr hKey]

/-- Entries whose keys are all new are kept as they are. -/
theorem entries_foldl_set (base : KeyedMap Key Value) {entries : List (Key × Value)}
    (hDistinct : ((base.entries ++ entries).map Prod.fst).Nodup) :
    (entries.foldl (fun merged entry => merged.set entry.1 entry.2) base).entries =
      base.entries ++ entries := by
  induction entries generalizing base with
  | nil => simp
  | cons entry entries ih =>
      have hNew : base.get entry.1 = none := by
        rw [List.map_append, List.nodup_append] at hDistinct
        refine List.lookup_eq_none_iff.mpr fun old hOld => ?_
        have hNe := hDistinct.2.2 old.1 (List.mem_map_of_mem hOld) entry.1 (by simp)
        simpa using hNe.symm
      have hSet : (base.set entry.1 entry.2).entries = base.entries ++ [entry] :=
        entries_set_of_new hNew entry.2
      rw [List.foldl_cons, ih _ (by simpa [hSet] using hDistinct), hSet, List.append_assoc,
        List.singleton_append]

theorem get_delete (m : KeyedMap Key Value) (k k' : Key) :
    (m.delete k).get k' = if k' = k then none else m.get k' := by
  apply Option.ext
  intro v
  rw [← mem_entries_iff_get]
  change (k', v) ∈ m.entries.filter _ ↔ _
  rw [List.mem_filter, mem_entries_iff_get]
  by_cases h : k' = k
  · simp [h]
  · simp [h]

theorem get_delete_ne (m : KeyedMap Key Value) {k k' : Key} (h : k' ≠ k) :
    (m.delete k).get k' = m.get k' := by
  rw [get_delete, if_neg h]

/-- What is found after a deletion was there before, under another key. -/
theorem get_delete_eq_some_iff {m : KeyedMap Key Value} {k k' : Key} {v : Value} :
    (m.delete k).get k' = some v ↔ k' ≠ k ∧ m.get k' = some v := by
  rw [get_delete]
  by_cases h : k' = k
  · simp [h]
  · simp [h]

theorem delete_eq_self {m : KeyedMap Key Value} {k : Key} (h : m.get k = none) :
    m.delete k = m := by
  apply ext'
  apply List.filter_eq_self.mpr
  intro entry hEntry
  have hNe : entry.1 ≠ k := fun hSame =>
    not_mem_keys_of_get_none h (hSame ▸ List.mem_map_of_mem hEntry)
  simpa using hNe

/-- The entries with the values that are kept. -/
def filter (m : KeyedMap Key Value) (keep : Value → Bool) : KeyedMap Key Value :=
  ⟨m.entries.filter fun entry => keep entry.2,
    m.distinct.sublist (List.filter_sublist.map Prod.fst)⟩

theorem get_filter_eq_some_iff {m : KeyedMap Key Value} {keep : Value → Bool} {k : Key}
    {v : Value} : (m.filter keep).get k = some v ↔ m.get k = some v ∧ keep v = true := by
  rw [← mem_entries_iff_get, ← mem_entries_iff_get, filter, List.mem_filter]

omit [DecidableEq Key] in
theorem values_filter (m : KeyedMap Key Value) (keep : Value → Bool) :
    (m.filter keep).entries.map Prod.snd = (m.entries.map Prod.snd).filter keep := by
  rw [List.filter_map]
  rfl

theorem filter_eq_self {m : KeyedMap Key Value} {keep : Value → Bool}
    (h : ∀ k v, m.get k = some v → keep v = true) : m.filter keep = m := by
  apply ext'
  apply List.filter_eq_self.mpr
  intro entry hEntry
  exact h entry.1 entry.2 (mem_entries_iff_get.mp hEntry)

omit [DecidableEq Key] in
/-- A second filter that is stricter decides alone. -/
theorem filter_filter {keep stricter : Value → Bool} (m : KeyedMap Key Value)
    (h : ∀ v, stricter v = true → keep v = true) :
    (m.filter keep).filter stricter = m.filter stricter := by
  apply ext'
  change (m.entries.filter _).filter _ = m.entries.filter _
  rw [List.filter_filter]
  apply List.filter_congr
  intro entry _
  cases hStricter : stricter entry.2 with
  | false => rfl
  | true => simp [h entry.2 hStricter]

/-- Change all values, each under its key. -/
def mapValues {Target : Type*} (f : Value → Target) (m : KeyedMap Key Value) :
    KeyedMap Key Target :=
  ⟨m.entries.map fun entry => (entry.1, f entry.2), by
    rw [List.map_map]
    exact m.distinct⟩

theorem size_set (m : KeyedMap Key Value) (k : Key) (v : Value) :
    (m.set k v).size = if m.get k = none then m.size + 1 else m.size := by
  unfold set
  by_cases h : m.get k = none
  · simp [h, size]
  · simp [h, size]

/-- Deleting a present key takes its entry out from between the others. -/
theorem exists_split_of_get {m : KeyedMap Key Value} {k : Key} {v : Value} (h : m.get k = some v) :
    ∃ before after, m.entries = before ++ (k, v) :: after ∧
      (m.delete k).entries = before ++ after := by
  obtain ⟨before, after, hSplit, hBefore⟩ := List.lookup_eq_some_iff.mp h
  refine ⟨before, after, hSplit, ?_⟩
  have hDistinct := m.distinct
  rw [hSplit, List.map_append, List.map_cons, List.nodup_append, List.nodup_cons] at hDistinct
  have hKeep : ∀ entries : List (Key × Value), k ∉ entries.map Prod.fst →
      entries.filter (fun entry => entry.1 ≠ k) = entries := by
    intro entries hk
    refine List.filter_eq_self.mpr (fun entry hEntry => ?_)
    have hNe : entry.1 ≠ k := by
      rintro rfl
      exact hk (List.mem_map_of_mem hEntry)
    simpa using hNe
  have hFirst : k ∉ before.map Prod.fst := by
    intro hMem
    obtain ⟨entry, hEntry, hEq⟩ := List.mem_map.mp hMem
    have hNe := hBefore entry hEntry
    simp [hEq] at hNe
  change m.entries.filter _ = _
  rw [hSplit, List.filter_append, hKeep before hFirst, List.filter_cons_of_neg (by simp),
    hKeep after hDistinct.2.1.1]

/-- Deleting a present key removes exactly one entry. -/
theorem size_delete (m : KeyedMap Key Value) {k : Key} {v : Value} (h : m.get k = some v) :
    (m.delete k).size + 1 = m.size := by
  obtain ⟨before, after, hSplit, hDelete⟩ := exists_split_of_get h
  rw [size, size, hDelete, hSplit]
  simp only [List.length_append, List.length_cons]
  omega

/-- Without an entry, its value occurs once less. -/
theorem perm_values_of_get {m : KeyedMap Key Value} {k : Key} {v : Value} (h : m.get k = some v) :
    (m.entries.map Prod.snd).Perm (v :: (m.delete k).entries.map Prod.snd) := by
  obtain ⟨before, after, hSplit, hDelete⟩ := exists_split_of_get h
  rw [hDelete, hSplit, List.map_append, List.map_cons, List.map_append]
  exact List.perm_middle

end KeyedMap
