import Mathlib.Data.List.Induction
import Mathlib.Data.List.Nodup
import Mathlib.Data.List.Pairwise

/-! Sets that are read back in the order in which their values were first
added. -/

/-- Values in insertion order, each once. -/
structure ValueSet (Value : Type*) where
  values : List Value
  distinct : values.Nodup

namespace ValueSet

variable {Value : Type*}

@[ext] theorem ext' {s t : ValueSet Value} (h : s.values = t.values) : s = t := by
  cases s
  cases t
  cases h
  rfl

def empty : ValueSet Value := ⟨[], List.nodup_nil⟩

@[simp] theorem values_empty : (empty : ValueSet Value).values = [] := rfl

def filter (s : ValueSet Value) (keep : Value → Bool) : ValueSet Value :=
  ⟨s.values.filter keep, s.distinct.filter keep⟩

@[simp] theorem mem_filter {s : ValueSet Value} {keep : Value → Bool} {w : Value} :
    w ∈ (s.filter keep).values ↔ w ∈ s.values ∧ keep w := List.mem_filter

variable [DecidableEq Value]

def has (s : ValueSet Value) (v : Value) : Bool := decide (v ∈ s.values)

/-- A value that is already there keeps its place. -/
def add (s : ValueSet Value) (v : Value) : ValueSet Value :=
  if h : v ∈ s.values then s
  else ⟨s.values ++ [v], List.nodup_append.mpr
    ⟨s.distinct, List.nodup_singleton v, fun a ha b hb hab =>
      h (by rw [List.mem_singleton] at hb; exact hb ▸ hab ▸ ha)⟩⟩

theorem add_of_mem {s : ValueSet Value} {v : Value} (h : v ∈ s.values) : s.add v = s :=
  dif_pos h

theorem values_add_of_not_mem {s : ValueSet Value} {v : Value} (h : v ∉ s.values) :
    (s.add v).values = s.values ++ [v] := by
  rw [add, dif_neg h]

def delete (s : ValueSet Value) (v : Value) : ValueSet Value :=
  ⟨s.values.erase v, s.distinct.erase v⟩

@[simp] theorem mem_add {s : ValueSet Value} {v w : Value} :
    w ∈ (s.add v).values ↔ w ∈ s.values ∨ w = v := by
  unfold add
  by_cases h : v ∈ s.values
  · rw [dif_pos h]
    constructor
    · exact Or.inl
    · rintro (hw | rfl)
      · exact hw
      · exact h
  · rw [dif_neg h, List.mem_append, List.mem_singleton]

@[simp] theorem mem_delete {s : ValueSet Value} {v w : Value} :
    w ∈ (s.delete v).values ↔ w ∈ s.values ∧ w ≠ v := by
  rw [delete, s.distinct.mem_erase_iff, and_comm]

/-- Adding values one after the other: the members are the old ones and the
added ones, whatever the repetitions. -/
theorem mem_foldl_add {s : ValueSet Value} {added : List Value} {w : Value} :
    w ∈ (added.foldl add s).values ↔ w ∈ s.values ∨ w ∈ added := by
  induction added generalizing s with
  | nil => simp
  | cons v added ih =>
      rw [List.foldl_cons, ih, mem_add, List.mem_cons, or_assoc]

/-- Adding keeps the values that are there in front. -/
theorem prefix_foldl_add (s : ValueSet Value) (added : List Value) :
    s.values <+: (added.foldl add s).values := by
  induction added generalizing s with
  | nil => exact List.prefix_rfl
  | cons v added ih =>
      refine List.IsPrefix.trans ?_ (ih (s.add v))
      by_cases hv : v ∈ s.values
      · simp [add_of_mem hv]
      · simp [values_add_of_not_mem hv]

/-- New values without repetitions are all appended. -/
theorem values_foldl_add_of_new {s : ValueSet Value} {added : List Value}
    (hDistinct : added.Nodup) (hNew : ∀ v ∈ added, v ∉ s.values) :
    (added.foldl add s).values = s.values ++ added := by
  induction added generalizing s with
  | nil => exact (List.append_nil _).symm
  | cons v added ih =>
      obtain ⟨hv, hRest⟩ := List.nodup_cons.mp hDistinct
      have hAdd := values_add_of_not_mem (hNew v List.mem_cons_self)
      have hRestNew : ∀ w ∈ added, w ∉ (s.add v).values := by
        intro w hw hMem
        rcases mem_add.mp hMem with hOld | rfl
        · exact hNew w (List.mem_cons_of_mem v hw) hOld
        · exact hv hw
      rw [List.foldl_cons, ih hRest hRestNew, hAdd, List.append_assoc]
      rfl

/-- Whether each of the values was new, when they are added one after the
other. -/
def addEach : ValueSet Value → List Value → List Bool
  | _, [] => []
  | s, v :: vs => (!s.has v) :: addEach (s.add v) vs

theorem addEach_append (s : ValueSet Value) (vs ws : List Value) :
    s.addEach (vs ++ ws) = s.addEach vs ++ (vs.foldl add s).addEach ws := by
  induction vs generalizing s with
  | nil => rfl
  | cons v vs ih => rw [List.cons_append, addEach, ih, addEach, List.foldl_cons, List.cons_append]

theorem addEach_of_mem {s : ValueSet Value} {vs : List Value} (h : ∀ v ∈ vs, v ∈ s.values) :
    s.addEach vs = vs.map fun _ => false := by
  induction vs generalizing s with
  | nil => rfl
  | cons v vs ih =>
      have hRest : ∀ w ∈ vs, w ∈ (s.add v).values := fun w hw =>
        mem_add.mpr (.inl (h w (List.mem_cons_of_mem v hw)))
      simp [addEach, has, h v List.mem_cons_self, ih hRest]

theorem addEach_of_new {s : ValueSet Value} {vs : List Value} (hDistinct : vs.Nodup)
    (hNew : ∀ v ∈ vs, v ∉ s.values) : s.addEach vs = vs.map fun _ => true := by
  induction vs generalizing s with
  | nil => rfl
  | cons v vs ih =>
      obtain ⟨hv, hRest⟩ := List.nodup_cons.mp hDistinct
      have hRestNew : ∀ w ∈ vs, w ∉ (s.add v).values := by
        intro w hw hMem
        rcases mem_add.mp hMem with hOld | rfl
        · exact hNew w (List.mem_cons_of_mem v hw) hOld
        · exact hv hw
      simp [addEach, has, hNew v List.mem_cons_self, ih hRest hRestNew]

/-- The values stand in the order in which they were first added. -/
theorem pairwise_foldl_add (added : List Value) :
    ((added.foldl add empty).values).Pairwise fun v w => added.idxOf v < added.idxOf w := by
  induction added using List.reverseRecOn with
  | nil => exact .nil
  | append_singleton added x ih =>
      have hMem : ∀ v, v ∈ (added.foldl add empty).values → v ∈ added := fun v hv => by
        simpa using mem_foldl_add.mp hv
      have hKeep : ∀ v ∈ added, (added ++ [x]).idxOf v = added.idxOf v :=
        fun v hv => List.idxOf_append_of_mem hv
      have hOld : ((added.foldl add empty).values).Pairwise fun v w =>
          (added ++ [x]).idxOf v < (added ++ [x]).idxOf w := by
        refine ih.imp_of_mem fun {v w} hv hw hLt => ?_
        rwa [hKeep v (hMem v hv), hKeep w (hMem w hw)]
      rw [List.foldl_append, List.foldl_cons, List.foldl_nil]
      by_cases hx : x ∈ (added.foldl add empty).values
      · rw [add_of_mem hx]
        exact hOld
      · rw [values_add_of_not_mem hx]
        refine List.pairwise_append.mpr ⟨hOld, List.pairwise_singleton _ _, ?_⟩
        intro v hv w hw
        rw [List.mem_singleton] at hw
        have hNew : x ∉ added := fun hMem => hx (mem_foldl_add.mpr (.inr hMem))
        rw [hw, hKeep v (hMem v hv), List.idxOf_append_of_notMem hNew, List.idxOf_cons_self,
          Nat.add_zero]
        exact List.idxOf_lt_length_of_mem (hMem v hv)

/-- Two sequences of the same values give the same list exactly when any two
values are first added in the same order in both. -/
theorem values_foldl_add_eq_iff {added added' : List Value}
    (h : ∀ v, v ∈ added ↔ v ∈ added') :
    (added.foldl add empty).values = (added'.foldl add empty).values ↔
      ∀ v ∈ added, ∀ w ∈ added,
        (added.idxOf v < added.idxOf w ↔ added'.idxOf v < added'.idxOf w) := by
  have hSorted := pairwise_foldl_add added
  have hSorted' := pairwise_foldl_add added'
  constructor
  · intro hSame
    rw [← hSame] at hSorted'
    let SameOrder : Value → Value → Prop := fun v w =>
      (added.idxOf v < added.idxOf w ↔ added'.idxOf v < added'.idxOf w) ∧
        (added.idxOf w < added.idxOf v ↔ added'.idxOf w < added'.idxOf v)
    have : Std.Symm SameOrder := ⟨fun _ _ hOrder => hOrder.symm⟩
    have hBoth : ((added.foldl add empty).values).Pairwise SameOrder :=
      (hSorted.and hSorted').imp fun {v w} hLt => by
        simp only [SameOrder]
        omega
    intro v hv w hw
    have hAll := hBoth.forall_of_forall (fun _ _ => ⟨by omega, by omega⟩)
    exact (hAll (mem_foldl_add.mpr (.inr hv)) (mem_foldl_add.mpr (.inr hw))).1
  · intro hOrder
    have hPerm : ((added.foldl add empty).values).Perm (added'.foldl add empty).values := by
      refine (List.perm_ext_iff_of_nodup (ValueSet.distinct _) (ValueSet.distinct _)).mpr ?_
      intro v
      simp [mem_foldl_add, h v]
    refine @List.Perm.eq_of_pairwise _ (fun v w => added.idxOf v < added.idxOf w) _ _ ?_ hSorted ?_
      hPerm
    · intro v w _ _ hvw hwv
      omega
    · refine hSorted'.imp_of_mem fun {v w} hv hw hLt => ?_
      have hMem : ∀ u, u ∈ (added'.foldl add empty).values → u ∈ added := fun u hu =>
        (h u).mpr (by simpa using mem_foldl_add.mp hu)
      exact (hOrder v (hMem v hv) w (hMem w hw)).mpr hLt

end ValueSet
