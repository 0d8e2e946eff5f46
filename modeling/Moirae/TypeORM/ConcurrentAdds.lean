import Moirae.Runs.Execution
import Moirae.TypeORM.TypeORMCache

/-! `addToSet` of the SQL cache, called any number of times at once. A call
makes up to three calls of the repositories, and between two of them any other
call may make one of its own. -/
namespace Moirae.ConcurrentAdds

open TypeORMCache (ObjectHash formatKey)

/-- Where a call of `handleAddToSet` stands: before `findOne`, before `count`,
before one of the two ways to save, or settled. -/
inductive AddProgress
  | finding
  | counting
  | savingValue
  | savingRoot
  | resolved (added : Bool)
  | rejected (thrown : Thrown)
  deriving DecidableEq, Repr

/-- `handleAddToSet` called with this key and this text. -/
structure AddCall where
  key : String
  value : String
  progress : AddProgress
  deriving DecidableEq, Repr

def AddCall.Settled (call : AddCall) : Prop :=
  match call.progress with
  | .resolved _ => True
  | .rejected _ => True
  | _ => False

structure AddWorld where
  tables : CacheTables
  calls : List AddCall

variable (sha1 : ObjectHash)

/-- The row that a call adds. -/
def AddCall.row (call : AddCall) : SetValue := ⟨formatKey sha1 call.key, call.value⟩

/-- Where a save leaves the tables and the call. -/
def saved (tables : CacheTables) : Except Thrown CacheTables → CacheTables × AddProgress
  | .ok tables => (tables, .resolved true)
  | .error thrown => (tables, .rejected thrown)

/-- The next call of a repository, and how the code goes on after it. -/
def advance (tables : CacheTables) (call : AddCall) : Option (CacheTables × AddProgress) :=
  let _key := formatKey sha1 call.key
  match call.progress with
  | .finding =>
      match tables.findValue _key call.value with
      | some _ => some (tables, .resolved false)
      | none => some (tables, .counting)
  | .counting =>
      if tables.countRoots _key > 0 then some (tables, .savingValue)
      else some (tables, .savingRoot)
  | .savingValue => some (saved tables (tables.saveValue _key call.value))
  | .savingRoot => some (saved tables (tables.saveRoot _key call.value))
  | .resolved _ => none
  | .rejected _ => none

/-- One of the calls goes on. -/
def step (w : AddWorld) (i : Nat) : Option AddWorld := do
  let call ← w.calls[i]?
  let (tables, progress) ← advance sha1 w.tables call
  return ⟨tables, w.calls.set i { call with progress }⟩

/-- All calls were made and none has reached the database yet. -/
def start {Num : Type} [JsonNumber Num] (before : CacheTables)
    (adds : List (String × Json Num)) : AddWorld :=
  ⟨before, adds.map fun add => ⟨add.1, add.2.stringify, .finding⟩⟩

/-- How a call stands after its promise has settled. -/
def AddProgress.ofOutcome : Except Thrown Bool → AddProgress
  | .ok added => .resolved added
  | .error thrown => .rejected thrown

/-- The calls came out as if they had been made one after the other in some
order, each waiting for the one before, and every set holds its old members and
all added values. -/
structure Linearized (before : CacheTables) (w : AddWorld) : Prop where
  resolves : ∀ call ∈ w.calls, ∃ added, call.progress = .resolved added
  sequential : ∃ order : List AddCall, order.Perm w.calls ∧
    order.map AddCall.progress =
      (Runs.answers (fun call : AddCall => TypeORMCache.handleAddToSet sha1 call.key call.value)
        before order).map .ofOutcome
  holds : ∀ row, row ∈ w.tables.setValues.values ↔
    row ∈ before.setValues.values ∨ row ∈ w.calls.map (AddCall.row sha1)

/-- A value is saved while it is not stored, and a root while nothing is stored
under its key: nobody else has saved since the call looked. -/
def SavesUndisturbed (w : AddWorld) (i : Nat) : Prop :=
  ∀ call ∈ w.calls[i]?,
    (call.progress = .savingValue → call.row sha1 ∉ w.tables.setValues.values) ∧
    (call.progress = .savingRoot →
      ∀ row ∈ w.tables.setValues.values, row.setKey ≠ formatKey sha1 call.key)

variable {sha1}

/-- A call that nobody disturbs does what `handleAddToSet` does. -/
theorem exec_alone (before : CacheTables) (key value : String) :
    ∃ schedule, Runs.exec (step sha1) ⟨before, [⟨key, value, .finding⟩]⟩ schedule =
      some ⟨(TypeORMCache.handleAddToSet sha1 key value before).1,
        [⟨key, value, .ofOutcome (TypeORMCache.handleAddToSet sha1 key value before).2⟩]⟩ := by
  unfold TypeORMCache.handleAddToSet
  cases hFind : before.findValue (formatKey sha1 key) value with
  | some row =>
      refine ⟨[0], ?_⟩
      simp [Runs.exec, step, advance, hFind, AddProgress.ofOutcome]
  | none =>
      refine ⟨[0, 0, 0], ?_⟩
      by_cases hRoot : 0 < before.countRoots (formatKey sha1 key)
      · cases hSave : before.saveValue (formatKey sha1 key) value <;>
          simp [Runs.exec, step, advance, hFind, hRoot, hSave, saved, AddProgress.ofOutcome]
      · cases hSave : before.saveRoot (formatKey sha1 key) value <;>
          simp [Runs.exec, step, advance, hFind, hRoot, hSave, saved, AddProgress.ofOutcome]

/-- What the next call of a repository does: it looks something up, it refuses
a row that is there, or it adds the row. A new root drops the rows that were
saved under its key since the call looked. -/
inductive Effect (sha1 : ObjectHash) (tables : CacheTables) (call : AddCall) :
    CacheTables → AddProgress → Prop
  | looked {progress : AddProgress}
      (reading : call.progress ≠ .savingValue ∧ call.progress ≠ .savingRoot)
      (goesOn : progress ≠ .resolved true ∧ ∀ thrown, progress ≠ .rejected thrown)
      (present : progress = .resolved false → call.row sha1 ∈ tables.setValues.values)
      (root : progress = .savingValue → 0 < tables.countRoots (formatKey sha1 call.key)) :
      Effect sha1 tables call tables progress
  | refused {thrown : Thrown}
      (saving : call.progress = .savingValue ∨ call.progress = .savingRoot)
      (present : call.row sha1 ∈ tables.setValues.values) :
      Effect sha1 tables call tables (.rejected thrown)
  | added {tables' : CacheTables}
      (saving : call.progress = .savingValue ∨ call.progress = .savingRoot)
      (absent : call.row sha1 ∉ tables.setValues.values)
      (roots : ∀ key, 0 < tables.countRoots key → 0 < tables'.countRoots key)
      (rows : ∀ row, row ∈ tables'.setValues.values ↔
        row ∈ tables.setValues.values ∧
            (call.progress = .savingRoot → row.setKey ≠ formatKey sha1 call.key) ∨
          row = call.row sha1) :
      Effect sha1 tables call tables' (.resolved true)

theorem effect_saveValue {tables : CacheTables} {call : AddCall}
    (hProgress : call.progress = .savingValue)
    (hRoot : 0 < tables.countRoots (formatKey sha1 call.key)) :
    Effect sha1 tables call
      (saved tables (tables.saveValue (formatKey sha1 call.key) call.value)).1
      (saved tables (tables.saveValue (formatKey sha1 call.key) call.value)).2 := by
  by_cases hHolds : tables.Holds (formatKey sha1 call.key) call.value
  · rw [CacheTables.saveValue_stored hHolds]
    exact .refused (.inl hProgress) hHolds
  · obtain ⟨tables', hSave, -, hRoots, hRows⟩ := CacheTables.saveValue_new hHolds hRoot
    rw [hSave]
    refine .added (.inl hProgress) hHolds (fun key hKey => ?_) (fun row => ?_)
    · rw [CacheTables.countRoots_pos_iff] at hKey ⊢
      exact hRoots ▸ hKey
    · refine (hRows row.setKey row.value).trans ?_
      simp [hProgress, CacheTables.Holds, AddCall.row, SetValue.ext_iff]

theorem effect_saveRoot {tables : CacheTables} {call : AddCall}
    (hProgress : call.progress = .savingRoot) :
    Effect sha1 tables call
      (saved tables (tables.saveRoot (formatKey sha1 call.key) call.value)).1
      (saved tables (tables.saveRoot (formatKey sha1 call.key) call.value)).2 := by
  by_cases hHolds : tables.Holds (formatKey sha1 call.key) call.value
  · rw [CacheTables.saveRoot_stored hHolds]
    exact .refused (.inr hProgress) hHolds
  · obtain ⟨tables', hSave, -, hRoots, hRows⟩ := CacheTables.saveRoot_new hHolds
    rw [hSave]
    refine .added (.inr hProgress) hHolds (fun key hKey => ?_) (fun row => ?_)
    · rw [CacheTables.countRoots_pos_iff] at hKey ⊢
      exact hRoots ▸ ValueSet.mem_add.mpr (.inl hKey)
    · refine (hRows row.setKey row.value).trans ?_
      simp [hProgress, CacheTables.Holds, AddCall.row, SetValue.ext_iff]

theorem advance_effect {tables tables' : CacheTables} {call : AddCall} {progress : AddProgress}
    (h : advance sha1 tables call = some (tables', progress))
    (hRoot : call.progress = .savingValue → 0 < tables.countRoots (formatKey sha1 call.key)) :
    Effect sha1 tables call tables' progress := by
  unfold advance at h
  cases hProgress : call.progress with
  | finding =>
      simp only [hProgress, CacheTables.findValue_eq] at h
      by_cases hHolds : tables.Holds (formatKey sha1 call.key) call.value
      · simp only [hHolds, if_true, Option.some.injEq, Prod.mk.injEq] at h
        obtain ⟨rfl, rfl⟩ := h
        exact .looked (by simp [hProgress]) (by simp) (fun _ => hHolds) (by simp)
      · simp only [hHolds, if_false, Option.some.injEq, Prod.mk.injEq] at h
        obtain ⟨rfl, rfl⟩ := h
        exact .looked (by simp [hProgress]) (by simp) (by simp) (by simp)
  | counting =>
      simp only [hProgress] at h
      by_cases hCount : 0 < tables.countRoots (formatKey sha1 call.key)
      · simp only [gt_iff_lt, hCount, if_true, Option.some.injEq, Prod.mk.injEq] at h
        obtain ⟨rfl, rfl⟩ := h
        exact .looked (by simp [hProgress]) (by simp) (by simp) (fun _ => hCount)
      · simp only [gt_iff_lt, hCount, if_false, Option.some.injEq, Prod.mk.injEq] at h
        obtain ⟨rfl, rfl⟩ := h
        exact .looked (by simp [hProgress]) (by simp) (by simp) (by simp)
  | savingValue =>
      simp only [hProgress, Option.some.injEq] at h
      have hEffect := effect_saveValue hProgress (hRoot hProgress)
      rwa [h] at hEffect
  | savingRoot =>
      simp only [hProgress, Option.some.injEq] at h
      have hEffect : Effect sha1 tables call _ _ := effect_saveRoot hProgress
      rwa [h] at hEffect
  | resolved added => simp [hProgress] at h
  | rejected thrown => simp [hProgress] at h

/-- A step is an advance of one call that has not settled. -/
theorem step_eq_some {w w' : AddWorld} {i : Nat} (h : step sha1 w i = some w') :
    ∃ call tables progress, w.calls[i]? = some call ∧
      advance sha1 w.tables call = some (tables, progress) ∧
      w' = ⟨tables, w.calls.set i { call with progress }⟩ := by
  simp only [step, Option.bind_eq_bind, Option.bind_eq_some_iff] at h
  obtain ⟨call, hCall, ⟨tables, progress⟩, hAdvance, hNext⟩ := h
  exact ⟨call, tables, progress, hCall, hAdvance, (Option.some.inj hNext).symm⟩

theorem not_settled_of_advance {tables : CacheTables} {call : AddCall}
    {next : CacheTables × AddProgress} (h : advance sha1 tables call = some next) :
    ¬ call.Settled := by
  intro hSettled
  cases hProgress : call.progress <;> simp_all [AddCall.Settled, advance]

section Counting

/-- One for a row that is there. -/
def stored (tables : CacheTables) (row : SetValue) : Nat :=
  if row ∈ tables.setValues.values then 1 else 0

/-- How many calls have reported that they added the row. -/
def reported (sha1 : ObjectHash) (calls : List AddCall) (row : SetValue) : Nat :=
  calls.countP fun call => call.row sha1 = row ∧ call.progress = .resolved true

theorem reported_set {calls : List AddCall} {i : Nat} {call : AddCall}
    (hCall : calls[i]? = some call) (hOpen : ¬ call.Settled) (progress : AddProgress)
    (row : SetValue) :
    reported sha1 (calls.set i { call with progress }) row =
      reported sha1 calls row +
        if call.row sha1 = row ∧ progress = .resolved true then 1 else 0 := by
  obtain ⟨hi, hGet⟩ := List.getElem?_eq_some_iff.mp hCall
  have hNot : call.progress ≠ .resolved true := by
    intro hProgress
    simp [AddCall.Settled, hProgress] at hOpen
  rw [reported, List.countP_set hi, hGet]
  simp only [hNot, and_false, decide_false, Bool.false_eq_true, if_false, Nat.sub_zero]
  exact congrArg _ (if_congr decide_eq_true_iff rfl rfl)

/-- A step does not make up for a row that was lost: a row that comes back is
reported once more. -/
theorem stored_add_reported_le {w w' : AddWorld} {call : AddCall} {progress : AddProgress}
    {tables : CacheTables} {i : Nat} (hCall : w.calls[i]? = some call) (hOpen : ¬ call.Settled)
    (hEffect : Effect sha1 w.tables call tables progress)
    (hNext : w' = ⟨tables, w.calls.set i { call with progress }⟩) (row : SetValue) :
    stored w'.tables row + reported sha1 w.calls row ≤
      stored w.tables row + reported sha1 w'.calls row := by
  subst hNext
  simp only [reported_set hCall hOpen]
  cases hEffect with
  | looked reading goesOn present root => simp
  | refused saving present => simp
  | added saving absent roots rows =>
      by_cases hRow : call.row sha1 = row
      · subst hRow
        simp only [stored, absent, rows, if_false, or_true, if_true, and_self]
        omega
      · have hLe : stored tables row ≤ stored w.tables row := by
          unfold stored
          by_cases hOld : row ∈ w.tables.setValues.values
          · rw [if_pos hOld]
            split <;> omega
          · have hNew : row ∉ tables.setValues.values := by
              rw [rows]
              rintro (⟨hMem, -⟩ | hOwn)
              · exact hOld hMem
              · exact hRow hOwn.symm
            rw [if_neg hNew]
            exact Nat.zero_le _
        simp only [hRow, false_and, if_false]
        omega

end Counting

/-- What holds in every run: no row is there without a reason, and a call that
reported `false` has seen its row. -/
structure Sound (sha1 : ObjectHash) (before : CacheTables) (w : AddWorld) : Prop where
  stored_le : ∀ row, stored w.tables row ≤ stored before row + reported sha1 w.calls row
  seen : ∀ call ∈ w.calls, call.progress = .resolved false →
    0 < stored before (call.row sha1) + reported sha1 w.calls (call.row sha1)
  root : ∀ call ∈ w.calls, call.progress = .savingValue →
    0 < w.tables.countRoots (formatKey sha1 call.key)

theorem sound_start {Num : Type} [JsonNumber Num] (before : CacheTables)
    (adds : List (String × Json Num)) : Sound sha1 before (start before adds) where
  stored_le row := Nat.le_add_right _ _
  seen call hCall hProgress := by
    obtain ⟨add, -, rfl⟩ := List.mem_map.mp hCall
    cases hProgress
  root call hCall hProgress := by
    obtain ⟨add, -, rfl⟩ := List.mem_map.mp hCall
    cases hProgress

theorem Sound.effect {before : CacheTables} {w : AddWorld} (h : Sound sha1 before w)
    {call : AddCall} {i : Nat} (hCall : w.calls[i]? = some call) {tables : CacheTables}
    {progress : AddProgress} (hAdvance : advance sha1 w.tables call = some (tables, progress)) :
    Effect sha1 w.tables call tables progress :=
  advance_effect hAdvance (h.root call (List.mem_of_getElem? hCall))

theorem Sound.step {before : CacheTables} {w w' : AddWorld} {i : Nat}
    (h : Sound sha1 before w) (hStep : step sha1 w i = some w') : Sound sha1 before w' := by
  obtain ⟨call, tables, progress, hCall, hAdvance, rfl⟩ := step_eq_some hStep
  have hOpen := not_settled_of_advance hAdvance
  have hEffect := h.effect hCall hAdvance
  have hLe := stored_add_reported_le hCall hOpen hEffect rfl
  have hReported : ∀ row, reported sha1 w.calls row ≤
      reported sha1 (w.calls.set i { call with progress }) row := by
    intro row
    rw [reported_set hCall hOpen]
    exact Nat.le_add_right _ _
  constructor
  · intro row
    have hRow := hLe row
    have hOld := h.stored_le row
    simp only at hRow ⊢
    omega
  · intro other hOther hSeen
    rcases List.mem_or_eq_of_mem_set hOther with hOld | rfl
    · have hPos := h.seen other hOld hSeen
      have hMore := hReported (other.row sha1)
      simp only
      omega
    · cases hEffect with
      | looked reading goesOn present root =>
          have hStored := h.stored_le (call.row sha1)
          rw [stored, if_pos (present hSeen)] at hStored
          have hMore := hReported (call.row sha1)
          change 0 < stored before (call.row sha1) +
            reported sha1 (w.calls.set i { call with progress }) (call.row sha1)
          omega
      | refused saving present => cases hSeen
      | added saving absent roots rows => cases hSeen
  · intro other hOther hSaving
    have hKeep : 0 < w.tables.countRoots (formatKey sha1 other.key) →
        0 < tables.countRoots (formatKey sha1 other.key) := by
      cases hEffect with
      | looked => exact id
      | refused => exact id
      | added saving absent roots rows => exact roots _
    rcases List.mem_or_eq_of_mem_set hOther with hOld | rfl
    · exact hKeep (h.root other hOld hSaving)
    · cases hEffect with
      | looked reading goesOn present root => exact root hSaving
      | refused saving present => cases hSaving
      | added saving absent roots rows => cases hSaving

/-- No call was refused, and every row is there exactly when it was there
before or one call has reported it. -/
structure Exact (sha1 : ObjectHash) (before : CacheTables) (w : AddWorld) : Prop where
  accepted : ∀ call ∈ w.calls, ∀ thrown, call.progress ≠ .rejected thrown
  stored_eq : ∀ row, stored w.tables row = stored before row + reported sha1 w.calls row

theorem exact_start {Num : Type} [JsonNumber Num] (before : CacheTables)
    (adds : List (String × Json Num)) : Exact sha1 before (start before adds) where
  accepted call hCall thrown hProgress := by
    obtain ⟨add, -, rfl⟩ := List.mem_map.mp hCall
    cases hProgress
  stored_eq row := by
    have hNone : reported sha1 (start before adds).calls row = 0 := by
      refine List.countP_eq_zero.mpr fun call hCall => ?_
      obtain ⟨add, -, rfl⟩ := List.mem_map.mp hCall
      simp
    rw [hNone]
    rfl

/-- What went wrong once stays wrong. -/
theorem Exact.of_step {before : CacheTables} {w w' : AddWorld} {i : Nat}
    (hSound : Sound sha1 before w) (hStep : step sha1 w i = some w')
    (h : Exact sha1 before w') : Exact sha1 before w := by
  obtain ⟨call, tables, progress, hCall, hAdvance, rfl⟩ := step_eq_some hStep
  have hOpen := not_settled_of_advance hAdvance
  have hLe := stored_add_reported_le hCall hOpen (hSound.effect hCall hAdvance) rfl
  constructor
  · intro other hOther thrown hProgress
    obtain ⟨j, hj⟩ := List.mem_iff_getElem?.mp hOther
    by_cases hIndex : i = j
    · subst hIndex
      rw [hCall] at hj
      obtain rfl := Option.some.inj hj
      exact hOpen (by simp [AddCall.Settled, hProgress])
    · refine h.accepted other ?_ thrown hProgress
      refine List.mem_of_getElem? (i := j) ?_
      rw [List.getElem?_set_ne hIndex, hj]
  · intro row
    have hRow := hLe row
    have hNew := h.stored_eq row
    have hOld := hSound.stored_le row
    simp only at hRow hNew
    omega

/-- After a row was added everything is accounted for exactly when none was
lost. -/
theorem Exact.stored_eq_iff {before : CacheTables} {w : AddWorld} (h : Exact sha1 before w)
    {call : AddCall} {i : Nat} (hCall : w.calls[i]? = some call) (hOpen : ¬ call.Settled)
    {tables : CacheTables} (hAbsent : call.row sha1 ∉ w.tables.setValues.values)
    (hOwn : call.row sha1 ∈ tables.setValues.values)
    (hRows : ∀ row ∈ tables.setValues.values,
      row ∈ w.tables.setValues.values ∨ row = call.row sha1) :
    (∀ row, stored tables row = stored before row +
        reported sha1 (w.calls.set i { call with progress := .resolved true }) row) ↔
      ∀ row ∈ w.tables.setValues.values, row ∈ tables.setValues.values := by
  constructor
  · intro hExact row hRow
    by_contra hLost
    have hNe : call.row sha1 ≠ row := fun hEq => hAbsent (hEq ▸ hRow)
    have hNew := hExact row
    have hOld := h.stored_eq row
    simp only [reported_set hCall hOpen, hNe, false_and, if_false, stored, if_neg hLost,
      if_pos hRow] at hNew hOld
    omega
  · intro hAll row
    have hOld := h.stored_eq row
    simp only [reported_set hCall hOpen, and_true]
    by_cases hRow : call.row sha1 = row
    · subst hRow
      rw [stored, if_neg hAbsent] at hOld
      rw [stored, if_pos hOwn, if_pos rfl]
      omega
    · have hIff : row ∈ tables.setValues.values ↔ row ∈ w.tables.setValues.values := by
        refine ⟨fun hNew => ?_, hAll row⟩
        rcases hRows row hNew with hOldRow | hEq
        · exact hOldRow
        · exact absurd hEq.symm hRow
      have hSame : stored tables row = stored w.tables row := by simp only [stored, hIff]
      rw [if_neg hRow, hSame]
      omega

/-- A step keeps everything right exactly when it saves undisturbed. -/
theorem Exact.step_iff {before : CacheTables} {w w' : AddWorld} {i : Nat}
    (hSound : Sound sha1 before w) (h : Exact sha1 before w)
    (hStep : step sha1 w i = some w') :
    Exact sha1 before w' ↔ SavesUndisturbed sha1 w i := by
  obtain ⟨call, tables, progress, hCall, hAdvance, rfl⟩ := step_eq_some hStep
  have hOpen := not_settled_of_advance hAdvance
  have hMeets : SavesUndisturbed sha1 w i ↔
      (call.progress = .savingValue → call.row sha1 ∉ w.tables.setValues.values) ∧
      (call.progress = .savingRoot →
        ∀ row ∈ w.tables.setValues.values, row.setKey ≠ formatKey sha1 call.key) := by
    simp [SavesUndisturbed, hCall]
  have hAccepted : (∀ thrown, progress ≠ .rejected thrown) →
      ∀ other ∈ w.calls.set i { call with progress }, ∀ thrown,
        other.progress ≠ .rejected thrown := by
    intro hProgress other hOther thrown
    rcases List.mem_or_eq_of_mem_set hOther with hOld | rfl
    · exact h.accepted other hOld thrown
    · exact hProgress thrown
  rw [hMeets]
  cases hSound.effect hCall hAdvance with
  | looked reading goesOn present root =>
      refine iff_of_true ⟨hAccepted goesOn.2, fun row => ?_⟩
        ⟨fun hSaving => absurd hSaving reading.1, fun hSaving => absurd hSaving reading.2⟩
      simpa [reported_set hCall hOpen, goesOn.1] using h.stored_eq row
  | @refused thrown saving present =>
      refine iff_of_false (fun hExact => ?_) (fun hMeets => ?_)
      · obtain ⟨hi, -⟩ := List.getElem?_eq_some_iff.mp hCall
        exact hExact.accepted _ (List.mem_set hi _) thrown rfl
      · rcases saving with hSaving | hSaving
        · exact hMeets.1 hSaving present
        · exact hMeets.2 hSaving _ present rfl
  | added saving absent roots rows =>
      have hKept : (call.progress = .savingRoot →
            ∀ row ∈ w.tables.setValues.values, row.setKey ≠ formatKey sha1 call.key) ↔
          ∀ row ∈ w.tables.setValues.values, row ∈ tables.setValues.values := by
        constructor
        · intro hApart row hRow
          exact (rows row).mpr (.inl ⟨hRow, fun hSaving => hApart hSaving row hRow⟩)
        · intro hAll hSaving row hRow
          rcases (rows row).mp (hAll row hRow) with ⟨-, hApart⟩ | rfl
          · exact hApart hSaving
          · exact absurd hRow absent
      have hOwn : call.row sha1 ∈ tables.setValues.values := (rows _).mpr (.inr rfl)
      have hStored := h.stored_eq_iff hCall hOpen absent hOwn
        fun row hRow => ((rows row).mp hRow).imp_left And.left
      rw [and_iff_right fun _ => absent, hKept, ← hStored]
      exact ⟨Exact.stored_eq, fun hEq => ⟨hAccepted (by simp), hEq⟩⟩

/-- Made one after the other, the calls report what adding their rows to a set
reports. -/
theorem answers_eq_addEach {tables : CacheTables} {rows : ValueSet SetValue}
    (h : ∀ row, row ∈ tables.setValues.values ↔ row ∈ rows.values) (order : List AddCall) :
    Runs.answers (fun call : AddCall => TypeORMCache.handleAddToSet sha1 call.key call.value)
        tables order =
      (rows.addEach (order.map (AddCall.row sha1))).map .ok := by
  induction order generalizing tables rows with
  | nil => rfl
  | cons call order ih =>
      obtain ⟨added, hAdd, -, hAdded⟩ :=
        TypeORMCache.handleAddToSet_spec sha1 call.key call.value tables
      have hNext : ∀ row, row ∈ added.setValues.values ↔
          row ∈ (rows.add (call.row sha1)).values := by
        intro row
        rw [ValueSet.mem_add, ← h row]
        exact (hAdded row.setKey row.value).trans
          (or_congr_right (by simp [AddCall.row, SetValue.ext_iff]))
      have hHas : decide (tables.Holds (formatKey sha1 call.key) call.value) =
          rows.has (call.row sha1) := decide_eq_decide.mpr (h _)
      rw [Runs.answers, hAdd, List.map_cons, ValueSet.addEach, List.map_cons, ih hNext, hHas]

theorem reported_cons (call : AddCall) (calls : List AddCall) (row : SetValue) :
    reported sha1 (call :: calls) row = reported sha1 calls row +
      if call.row sha1 = row ∧ call.progress = .resolved true then 1 else 0 := by
  rw [reported, List.countP_cons]
  exact congrArg _ (if_congr decide_eq_true_iff rfl rfl)

theorem reported_pos_iff {calls : List AddCall} {row : SetValue} :
    0 < reported sha1 calls row ↔
      ∃ call ∈ calls, call.row sha1 = row ∧ call.progress = .resolved true := by
  simp [reported, List.countP_pos_iff]

/-- Calls that report what adding their rows to a set reports, report each new
row once. -/
theorem reported_of_addEach {order : List AddCall} {rows : ValueSet SetValue}
    (h : order.map AddCall.progress =
      (rows.addEach (order.map (AddCall.row sha1))).map .resolved) (row : SetValue) :
    reported sha1 order row =
      if row ∈ rows.values then 0
      else if row ∈ order.map (AddCall.row sha1) then 1 else 0 := by
  induction order generalizing rows with
  | nil => simp [reported]
  | cons call order ih =>
      simp only [List.map_cons, ValueSet.addEach, List.cons.injEq] at h
      rw [reported_cons, ih h.2, h.1, List.map_cons]
      simp only [ValueSet.mem_add, List.mem_cons, ValueSet.has]
      by_cases hOwn : call.row sha1 = row
      · by_cases hOld : row ∈ rows.values
        · simp [hOwn, hOld]
        · simp [hOwn, hOld]
      · have hOther : row ≠ call.row sha1 := Ne.symm hOwn
        simp [hOwn, hOther]

theorem stored_pos_iff {tables : CacheTables} {row : SetValue} :
    0 < stored tables row ↔ row ∈ tables.setValues.values := by
  unfold stored
  by_cases h : row ∈ tables.setValues.values
  · simp [h]
  · simp [h]

theorem Linearized.exact {before : CacheTables} {w : AddWorld}
    (h : Linearized sha1 before w) : Exact sha1 before w := by
  constructor
  · intro call hCall thrown hRejected
    obtain ⟨added, hResolved⟩ := h.resolves call hCall
    rw [hResolved] at hRejected
    cases hRejected
  · intro row
    obtain ⟨order, hPerm, hOrder⟩ := h.sequential
    rw [answers_eq_addEach (fun _ => Iff.rfl), List.map_map] at hOrder
    have hReported : reported sha1 w.calls row = reported sha1 order row :=
      (hPerm.countP_eq _).symm
    have hMem : row ∈ order.map (AddCall.row sha1) ↔ row ∈ w.calls.map (AddCall.row sha1) :=
      (hPerm.map _).mem_iff
    rw [hReported, reported_of_addEach hOrder row]
    simp only [stored, h.holds row, hMem]
    by_cases hOld : row ∈ before.setValues.values
    · simp [hOld]
    · simp [hOld]

section Settled

variable {before : CacheTables} {w : AddWorld}

theorem Exact.exists_resolved (h : Exact sha1 before w)
    (hSettled : ∀ call ∈ w.calls, call.Settled) :
    ∀ call ∈ w.calls, ∃ added, call.progress = .resolved added := by
  intro call hCall
  have hCallSettled := hSettled call hCall
  cases hProgress : call.progress with
  | resolved added => exact ⟨added, rfl⟩
  | rejected thrown => exact absurd hProgress (h.accepted call hCall thrown)
  | _ => simp [AddCall.Settled, hProgress] at hCallSettled

/-- A row that was reported is new, and it was reported once. -/
theorem Exact.reported_eq_one (h : Exact sha1 before w) {row : SetValue}
    (hPos : 0 < reported sha1 w.calls row) :
    row ∉ before.setValues.values ∧ reported sha1 w.calls row = 1 := by
  have hEq := h.stored_eq row
  have hLe : stored w.tables row ≤ 1 := by
    unfold stored
    split <;> omega
  refine ⟨fun hOld => ?_, by omega⟩
  have hBefore := stored_pos_iff.mpr hOld
  omega

/-- The row of a resolved call was there before, or somebody reported it. -/
theorem Sound.stored_or_reported (h : Sound sha1 before w) {call : AddCall}
    (hCall : call ∈ w.calls) (hResolved : ∃ added, call.progress = .resolved added) :
    call.row sha1 ∈ before.setValues.values ∨ 0 < reported sha1 w.calls (call.row sha1) := by
  obtain ⟨added, hProgress⟩ := hResolved
  cases added with
  | true => exact .inr (reported_pos_iff.mpr ⟨call, hCall, rfl, hProgress⟩)
  | false =>
      have hPos := h.seen call hCall hProgress
      rw [← stored_pos_iff]
      omega

/-- The calls that added their row come first, in any order; all others find
theirs. -/
theorem Exact.exists_order (hSound : Sound sha1 before w) (h : Exact sha1 before w)
    (hResolves : ∀ call ∈ w.calls, ∃ added, call.progress = .resolved added) :
    ∃ order : List AddCall, order.Perm w.calls ∧
      order.map AddCall.progress =
        (before.setValues.addEach (order.map (AddCall.row sha1))).map .resolved := by
  let isFirst : AddCall → Bool := fun call => call.progress = .resolved true
  let firsts := w.calls.filter isFirst
  let others := w.calls.filter fun call => !isFirst call
  have hCount : ∀ row, (firsts.map (AddCall.row sha1)).count row = reported sha1 w.calls row := by
    intro row
    rw [List.count, List.countP_map, List.countP_filter, reported]
    refine List.countP_congr fun call _ => ?_
    simp [isFirst]
  have hDistinct : (firsts.map (AddCall.row sha1)).Nodup := by
    refine List.nodup_iff_count_le_one.mpr fun row => ?_
    rw [hCount]
    rcases Nat.eq_zero_or_pos (reported sha1 w.calls row) with hZero | hPos
    · omega
    · exact (h.reported_eq_one hPos).2.le
  have hNew : ∀ row ∈ firsts.map (AddCall.row sha1), row ∉ before.setValues.values := by
    intro row hRow
    refine (h.reported_eq_one ?_).1
    rw [← hCount]
    exact List.count_pos_iff.mpr hRow
  have hFound : ∀ row ∈ others.map (AddCall.row sha1),
      row ∈ ((firsts.map (AddCall.row sha1)).foldl ValueSet.add before.setValues).values := by
    intro row hRow
    obtain ⟨call, hCall, rfl⟩ := List.mem_map.mp hRow
    have hMem := (List.mem_filter.mp hCall).1
    rw [ValueSet.mem_foldl_add]
    refine (hSound.stored_or_reported hMem (hResolves call hMem)).imp_right fun hPos => ?_
    rw [← hCount] at hPos
    exact List.count_pos_iff.mp hPos
  refine ⟨firsts ++ others, List.filter_append_perm isFirst w.calls, ?_⟩
  rw [List.map_append, List.map_append, ValueSet.addEach_append,
    ValueSet.addEach_of_new hDistinct hNew, ValueSet.addEach_of_mem hFound, List.map_append,
    List.map_map, List.map_map, List.map_map, List.map_map]
  refine congrArg₂ _ (List.map_congr_left fun call hCall => ?_)
    (List.map_congr_left fun call hCall => ?_)
  · exact of_decide_eq_true (List.mem_filter.mp hCall).2
  · obtain ⟨hMem, hNot⟩ := List.mem_filter.mp hCall
    obtain ⟨added, hProgress⟩ := hResolves call hMem
    cases added with
    | true => simp [isFirst, hProgress] at hNot
    | false => exact hProgress

theorem Exact.linearized (hSound : Sound sha1 before w) (h : Exact sha1 before w)
    (hSettled : ∀ call ∈ w.calls, call.Settled) : Linearized sha1 before w := by
  have hResolves := h.exists_resolved hSettled
  refine ⟨hResolves, ?_, fun row => ?_⟩
  · obtain ⟨order, hPerm, hOrder⟩ := h.exists_order hSound hResolves
    refine ⟨order, hPerm, ?_⟩
    rw [answers_eq_addEach (fun _ => Iff.rfl), List.map_map]
    exact hOrder
  · have hEq := h.stored_eq row
    rw [← stored_pos_iff, hEq, ← @stored_pos_iff before]
    constructor
    · intro hPos
      rcases Nat.eq_zero_or_pos (reported sha1 w.calls row) with hZero | hReported
      · exact .inl (by omega)
      · obtain ⟨call, hCall, hRow, -⟩ := reported_pos_iff.mp hReported
        exact .inr (hRow ▸ List.mem_map_of_mem hCall)
    · rintro (hOld | hRow)
      · omega
      · obtain ⟨call, hCall, rfl⟩ := List.mem_map.mp hRow
        rcases hSound.stored_or_reported hCall (hResolves call hCall) with hOld | hReported
        · have hBefore := stored_pos_iff.mpr hOld
          omega
        · omega

end Settled

/-- However the calls interleave, when all of them have settled they came out
as if made one after the other exactly when every save was undisturbed. -/
theorem linearized_iff_savesUndisturbed {Num : Type} [JsonNumber Num] (before : CacheTables)
    (adds : List (String × Json Num)) (schedule : List Nat) {w : AddWorld}
    (hRun : Runs.exec (step sha1) (start before adds) schedule = some w)
    (hSettled : ∀ call ∈ w.calls, call.Settled) :
    Linearized sha1 before w ↔
      Runs.StepsMeet (step sha1) (SavesUndisturbed sha1) (start before adds) schedule := by
  have hStart : Sound sha1 before (start before adds) := sound_start before adds
  have hInv : ∀ s i t, Sound sha1 before s → step sha1 s i = some t → Sound sha1 before t :=
    fun s i t hSound hStep => hSound.step hStep
  have hSound : Sound sha1 before w := Runs.invariant_of_step _ hInv hStart hRun
  have hAlways : Runs.Always (step sha1) (Exact sha1 before) (start before adds) schedule ↔
      Runs.StepsMeet (step sha1) (SavesUndisturbed sha1) (start before adds) schedule :=
    Runs.always_iff_stepsMeet (Sound sha1 before) (fun _ => True)
      (fun s i t _ hSound hStep => hInv s i t hSound hStep)
      (fun s i t _ hSound hExact hStep => hExact.step_iff hSound hStep) hStart
      (exact_start before adds) (fun _ _ => trivial)
  rw [← hAlways]
  constructor
  · intro hLinearized
    exact Runs.always_of_last (Sound sha1 before) hInv
      (fun s i t hSound hStep hExact => hExact.of_step hSound hStep) hStart hRun
      hLinearized.exact
  · intro hExact
    exact (hExact.last hRun).linearized hSound hSettled

section TwoAdds

open TypeORMCache (textHash)

/-- Two values for one set that nobody has used before. -/
def twoAdds : AddWorld := start .empty
  ([("a", .str "x"), ("a", .str "y")] : List (String × Json Int))

def aRow (value : String) : SetValue := ⟨"\x7b\"key\":\"a\"\x7d", value⟩

/-- The calls in turn, so that the second one finds the root. -/
theorem linearized_iff_twoAdds :
    ∃ w, Runs.exec (step textHash) twoAdds [0, 0, 0, 1, 1, 1] = some w ∧
      (Linearized textHash .empty w ↔
        Runs.StepsMeet (step textHash) (SavesUndisturbed textHash) twoAdds
          [0, 0, 0, 1, 1, 1]) := by
  have hRun : (Runs.exec (step textHash) twoAdds [0, 0, 0, 1, 1, 1]).map AddWorld.calls =
      some [⟨"a", "\"x\"", .resolved true⟩, ⟨"a", "\"y\"", .resolved true⟩] := by decide
  obtain ⟨w, hw, hCalls⟩ := Option.map_eq_some_iff.mp hRun
  refine ⟨w, hw, linearized_iff_savesUndisturbed _ _ _ hw fun call hCall => ?_⟩
  rw [hCalls] at hCall
  simp only [List.mem_cons, List.not_mem_nil, or_false] at hCall
  rcases hCall with rfl | rfl <;> trivial

/-- Both calls find the set missing and save a root with their own value. Both
report that they added it, and only the second value is left. -/
theorem not_linearized_twoAdds :
    ∃ w, Runs.exec (step textHash) twoAdds [0, 1, 0, 1, 0, 1] = some w ∧
      (∀ call ∈ w.calls, call.Settled) ∧ ¬ Linearized textHash .empty w := by
  have hRun : (Runs.exec (step textHash) twoAdds [0, 1, 0, 1, 0, 1]).map
        (fun w => (w.tables.setValues.values, w.calls)) =
      some ([aRow "\"y\""],
        [⟨"a", "\"x\"", .resolved true⟩, ⟨"a", "\"y\"", .resolved true⟩]) := by decide
  obtain ⟨w, hw, hEnd⟩ := Option.map_eq_some_iff.mp hRun
  obtain ⟨hRows, hCalls⟩ := Prod.mk.inj hEnd
  refine ⟨w, hw, fun call hCall => ?_, fun hLinearized => ?_⟩
  · rw [hCalls] at hCall
    simp only [List.mem_cons, List.not_mem_nil, or_false] at hCall
    rcases hCall with rfl | rfl <;> trivial
  · have hLost : aRow "\"x\"" ∈ w.tables.setValues.values := by
      rw [hLinearized.holds, hCalls]
      exact .inr (by decide)
    rw [hRows] at hLost
    exact absurd hLost (by decide)

end TwoAdds

end Moirae.ConcurrentAdds
