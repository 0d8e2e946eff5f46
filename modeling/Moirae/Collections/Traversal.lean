import Mathlib.Data.List.Nodup
import Mathlib.Data.List.Perm.Basic
import Mathlib.Data.List.TakeWhile
import Moirae.Collections.ValueSet

/-! Mapping a function that may fail over a list, stopping at the first failure. -/
namespace Traversal

variable {Error Source Target : Type} {f : Source → Except Error Target}

/-- Of two computations in sequence that succeed, each does. -/
theorem exists_of_bind_eq_ok {first : Except Error Source} {y : Target}
    (h : first >>= f = .ok y) : ∃ x, first = .ok x ∧ f x = .ok y := by
  cases first with
  | error reason => cases h
  | ok x => exact ⟨x, rfl, h⟩

theorem exists_of_map_eq_ok {g : Source → Target} {first : Except Error Source} {y : Target}
    (h : first.map g = .ok y) : ∃ x, first = .ok x ∧ g x = y := by
  cases first with
  | error reason => cases h
  | ok x => exact ⟨x, rfl, Except.ok.inj h⟩

/-- A traversal succeeds with the list of the results of the single calls. -/
theorem mapM_eq_ok_iff {xs : List Source} {ys : List Target} :
    xs.mapM f = .ok ys ↔ xs.map f = ys.map .ok := by
  induction xs generalizing ys with
  | nil =>
      constructor
      · intro h
        cases h
        rfl
      · intro h
        rw [List.map_nil, eq_comm, List.map_eq_nil_iff] at h
        subst h
        rfl
  | cons x xs ih =>
      rw [List.mapM_cons, List.map_cons]
      constructor
      · intro h
        obtain ⟨y, hHead, h⟩ := exists_of_bind_eq_ok h
        obtain ⟨ys', hTail, h⟩ := exists_of_bind_eq_ok h
        cases h
        rw [hHead, ih.mp hTail, List.map_cons]
      · intro h
        cases ys with
        | nil => simp at h
        | cons y ys =>
            obtain ⟨hHead, hTail⟩ := List.cons_eq_cons.mp h
            rw [hHead, ih.mpr hTail]
            rfl

/-- A traversal with a function that gives `g` where it gives anything. -/
theorem mapM_eq_ok_iff_map {Holds : Source → Prop} {g : Source → Target} {xs : List Source}
    {ys : List Target} (h : ∀ x ∈ xs, ∀ y, f x = .ok y ↔ Holds x ∧ y = g x) :
    xs.mapM f = .ok ys ↔ (∀ x ∈ xs, Holds x) ∧ ys = xs.map g := by
  rw [mapM_eq_ok_iff]
  induction xs generalizing ys with
  | nil => cases ys <;> simp
  | cons x xs ih =>
      have hRest : ∀ other ∈ xs, ∀ y, f other = .ok y ↔ Holds other ∧ y = g other :=
        fun other hOther => h other (List.mem_cons_of_mem _ hOther)
      cases ys with
      | nil => simp
      | cons y ys =>
          rw [List.map_cons, List.map_cons, List.map_cons, List.cons.injEq, List.cons.injEq,
            ih hRest, h x List.mem_cons_self y, List.forall_mem_cons]
          exact and_and_and_comm

/-- The results of a traversal are those of its calls. -/
theorem mem_iff {xs : List Source} {ys : List Target} (h : xs.mapM f = .ok ys) {y : Target} :
    y ∈ ys ↔ ∃ x ∈ xs, f x = .ok y := by
  have hMem : y ∈ ys ↔ Except.ok y ∈ ys.map (Except.ok : Target → Except Error Target) :=
    (List.mem_map_of_injective (fun _ _ => Except.ok.inj)).symm
  rw [hMem, ← mapM_eq_ok_iff.mp h, List.mem_map]

/-- A traversal of a list without repetitions has none in its results exactly
when the function does not confuse two of the elements. -/
theorem nodup_iff {xs : List Source} {ys : List Target} (h : xs.mapM f = .ok ys)
    (hDistinct : xs.Nodup) : ys.Nodup ↔ ∀ x ∈ xs, ∀ x' ∈ xs, f x = f x' → x = x' := by
  rw [← List.nodup_map_iff (f := (Except.ok : Target → Except Error Target))
    (fun _ _ => Except.ok.inj), ← mapM_eq_ok_iff.mp h, List.nodup_map_iff_inj_on hDistinct]

/-- A traversal succeeds exactly when every call does. -/
theorem exists_ok_iff {xs : List Source} :
    (∃ ys, xs.mapM f = .ok ys) ↔ ∀ x ∈ xs, ∃ y, f x = .ok y := by
  induction xs with
  | nil => exact ⟨fun _ _ hx => absurd hx List.not_mem_nil, fun _ => ⟨[], rfl⟩⟩
  | cons x xs ih =>
      constructor
      · rintro ⟨ys, h⟩ x' hx'
        have hMap := mapM_eq_ok_iff.mp h
        have hMem : f x' ∈ ys.map (Except.ok : Target → Except Error Target) :=
          hMap ▸ List.mem_map_of_mem hx'
        obtain ⟨y, -, hy⟩ := List.mem_map.mp hMem
        exact ⟨y, hy.symm⟩
      · intro hAll
        obtain ⟨y, hy⟩ := hAll x List.mem_cons_self
        obtain ⟨ys, hys⟩ := ih.mpr (fun x' hx' => hAll x' (List.mem_cons_of_mem _ hx'))
        refine ⟨y :: ys, mapM_eq_ok_iff.mpr ?_⟩
        rw [List.map_cons, List.map_cons, hy, mapM_eq_ok_iff.mp hys]

/-- A traversal fails with the failure of one of its calls. -/
theorem exists_of_mapM_eq_error {xs : List Source} {reason : Error}
    (h : xs.mapM f = .error reason) : ∃ x ∈ xs, f x = .error reason := by
  induction xs with
  | nil => cases h
  | cons x xs ih =>
      rw [List.mapM_cons] at h
      cases hHead : f x with
      | error own =>
          have hReason : own = reason := by simpa [hHead, bind, Except.bind] using h
          exact ⟨x, List.mem_cons_self, hReason ▸ hHead⟩
      | ok y =>
          cases hTail : xs.mapM f with
          | error later =>
              have hReason : later = reason := by simpa [hHead, hTail, bind, Except.bind] using h
              obtain ⟨x', hx', hFail⟩ := ih (hReason ▸ hTail)
              exact ⟨x', List.mem_cons_of_mem x hx', hFail⟩
          | ok ys =>
              rw [hHead, hTail] at h
              cases h

/-- When all failures are the same, the order in which the calls are made only
matters to the order of the results. -/
theorem mapM_perm {failure : Error} (hFail : ∀ x reason, f x = .error reason → reason = failure)
    {xs xs' : List Source} (h : xs.Perm xs') :
    (∃ ys ys', xs.mapM f = .ok ys ∧ xs'.mapM f = .ok ys' ∧ ys.Perm ys') ∨
      xs.mapM f = .error failure ∧ xs'.mapM f = .error failure := by
  cases hLeft : xs.mapM f with
  | ok ys =>
      have hAll : ∀ x ∈ xs', ∃ y, f x = .ok y := fun x hx =>
        exists_ok_iff.mp ⟨ys, hLeft⟩ x (h.mem_iff.mpr hx)
      obtain ⟨ys', hRight⟩ := exists_ok_iff.mpr hAll
      have hMaps := h.map f
      rw [mapM_eq_ok_iff.mp hLeft, mapM_eq_ok_iff.mp hRight] at hMaps
      have hPerm := (List.map_perm_map_iff (fun _ _ => Except.ok.inj)).mp hMaps
      exact .inl ⟨ys, ys', rfl, hRight, hPerm⟩
  | error reason =>
      obtain ⟨x, hx, hReason⟩ := exists_of_mapM_eq_error hLeft
      cases hRight : xs'.mapM f with
      | ok ys' =>
          obtain ⟨y, hy⟩ := exists_ok_iff.mp ⟨ys', hRight⟩ x (h.mem_iff.mp hx)
          rw [hReason] at hy
          cases hy
      | error reason' =>
          obtain ⟨x', -, hReason'⟩ := exists_of_mapM_eq_error hRight
          rw [hFail x reason hReason, hFail x' reason' hReason']
          exact .inr ⟨rfl, rfl⟩

/-! ## Which calls are made -/

/-- The elements a traversal calls the function on, up to the first failure. -/
def reached (f : Source → Except Error Target) : List Source → List Source
  | [] => []
  | x :: xs => x :: match f x with
    | .error _ => []
    | .ok _ => reached f xs

theorem reached_cons_of_ok {x : Source} {y : Target} (h : f x = .ok y) (xs : List Source) :
    reached f (x :: xs) = x :: reached f xs := by
  rw [reached, h]

theorem reached_cons_of_error {x : Source} {reason : Error} (h : f x = .error reason)
    (xs : List Source) : reached f (x :: xs) = [x] := by
  rw [reached, h]

/-- What fails ends the traversal, whatever comes after it. -/
theorem reached_append_of_error {xs : List Source} {x : Source} {reason : Error}
    (hAll : ∀ x ∈ xs, (f x).isOk) (h : f x = .error reason) (rest : List Source) :
    reached f (xs ++ x :: rest) = xs ++ [x] ∧
      (xs ++ x :: rest).mapM f = .error reason := by
  induction xs with
  | nil =>
      constructor
      · exact reached_cons_of_error h rest
      · rw [List.nil_append, List.mapM_cons, h]
        rfl
  | cons x' xs ih =>
      obtain ⟨hHead, hTail⟩ := List.forall_mem_cons.mp hAll
      obtain ⟨hReached, hResult⟩ := ih hTail
      cases hy : f x' with
      | error reason' =>
          rw [hy] at hHead
          cases hHead
      | ok y =>
          constructor
          · rw [List.cons_append, reached_cons_of_ok hy, hReached]
            rfl
          · rw [List.cons_append, List.mapM_cons, hy, hResult]
            rfl

theorem reached_prefix_self (xs : List Source) : reached f xs <+: xs := by
  induction xs with
  | nil => exact List.prefix_rfl
  | cons x xs ih =>
      cases h : f x with
      | error reason =>
          rw [reached_cons_of_error h]
          exact List.prefix_append [x] xs
      | ok y =>
          rw [reached_cons_of_ok h]
          exact (List.prefix_cons_inj x).mpr ih

theorem takeWhile_prefix_reached (xs : List Source) :
    xs.takeWhile (fun x => (f x).isOk) <+: reached f xs := by
  induction xs with
  | nil => exact List.prefix_rfl
  | cons x xs ih =>
      rw [List.takeWhile_cons]
      cases h : f x with
      | error reason => exact List.nil_prefix
      | ok y =>
          rw [reached_cons_of_ok h]
          exact (List.prefix_cons_inj x).mpr ih

/-- A traversal that succeeds calls the function on every element. -/
theorem reached_eq_self {xs : List Source} (h : ∀ x ∈ xs, (f x).isOk) : reached f xs = xs := by
  have hTake : xs.takeWhile (fun x => (f x).isOk) = xs := List.takeWhile_eq_self_iff.mpr h
  have hPrefix := takeWhile_prefix_reached (f := f) xs
  rw [hTake] at hPrefix
  exact (reached_prefix_self xs).eq_of_length_le hPrefix.length_le

variable [DecidableEq Source]

/-- When nothing is repeated before the first failure, the elements up to it are
also the first of the different elements. -/
theorem once_each {xs : List Source} (hOnce : (xs.takeWhile fun x => (f x).isOk).Nodup) :
    reached f xs = reached f (xs.foldl ValueSet.add .empty).values ∧
      xs.mapM f = ((xs.foldl ValueSet.add .empty).values).mapM f := by
  have hAll : ∀ x ∈ xs.takeWhile (fun x => (f x).isOk), (f x).isOk :=
    fun x hx => List.mem_takeWhile_imp (p := fun x => (f x).isOk) hx
  have hValues := ValueSet.values_foldl_add_of_new (s := .empty) hOnce
    fun _ _ => List.not_mem_nil
  rw [ValueSet.values_empty, List.nil_append] at hValues
  have hSplit := List.takeWhile_append_dropWhile (p := fun x => (f x).isOk) (l := xs)
  cases hRest : xs.dropWhile fun x => (f x).isOk with
  | nil =>
      rw [hRest, List.append_nil] at hSplit
      rw [hSplit] at hValues
      rw [hValues]
      exact ⟨rfl, rfl⟩
  | cons x rest =>
      have hFailed := List.head?_dropWhile_not (fun x => (f x).isOk) xs
      simp only [hRest, List.head?_cons] at hFailed
      cases hx : f x with
      | ok y =>
          rw [hx] at hFailed
          cases hFailed
      | error reason =>
          -- the element that fails is new, so that it comes right after the others
          have hNew : x ∉
              ((xs.takeWhile fun x => (f x).isOk).foldl ValueSet.add .empty).values := by
            rw [hValues]
            intro hMem
            rw [hAll x hMem] at hFailed
            cases hFailed
          obtain ⟨more, hMore⟩ := ValueSet.prefix_foldl_add
            (((xs.takeWhile fun x => (f x).isOk).foldl ValueSet.add .empty).add x) rest
          rw [ValueSet.values_add_of_not_mem hNew, hValues, List.append_assoc,
            List.singleton_append, ← List.foldl_cons, ← List.foldl_append, ← hRest,
            hSplit] at hMore
          obtain ⟨hReached, hResult⟩ := reached_append_of_error hAll hx rest
          obtain ⟨hReached', hResult'⟩ := reached_append_of_error hAll hx more
          rw [← hMore, hReached', hResult', ← hReached, ← hResult, ← hRest, hSplit]
          exact ⟨rfl, rfl⟩

/-- The same calls are made for the different elements exactly when nothing is
repeated before the first failure. -/
theorem reached_distinct_iff (xs : List Source) :
    reached f xs = reached f (xs.foldl ValueSet.add .empty).values ↔
      (xs.takeWhile fun x => (f x).isOk).Nodup := by
  constructor
  · intro hReached
    have hOnce : (reached f xs).Nodup := by
      rw [hReached]
      exact (ValueSet.distinct _).sublist (reached_prefix_self _).sublist
    exact hOnce.sublist (takeWhile_prefix_reached xs).sublist
  · intro hOnce
    exact (once_each hOnce).1

end Traversal
