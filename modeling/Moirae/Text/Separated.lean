import Mathlib.Data.List.TakeWhile

/-! Splitting a text at a separator character, and what is left of a text that
was joined with that separator. -/
namespace Separated

/-- The pieces between the separators, empty ones included. There is always a
first piece. -/
def split (sep : Char) (text : String) : List String :=
  (text.toList.splitOn sep).map String.ofList

/-- The part of a text before its first separator, or all of it. -/
def upTo (sep : Char) (text : String) : String :=
  String.ofList (text.toList.takeWhile (· ≠ sep))

/-- Joining with the separator. -/
def join (sep : Char) (first second : String) : String :=
  first ++ String.ofList [sep] ++ second

theorem toList_join (sep : Char) (first second : String) :
    (join sep first second).toList = first.toList ++ sep :: second.toList := by
  simp [join]

theorem upTo_eq_self {sep : Char} {text : String} (h : sep ∉ text.toList) :
    upTo sep text = text := by
  have hAll : text.toList.takeWhile (· ≠ sep) = text.toList := by
    refine List.takeWhile_eq_self_iff.mpr (fun c hc => ?_)
    have hNe : c ≠ sep := by
      rintro rfl
      exact h hc
    simpa using hNe
  rw [upTo, hAll, String.ofList_toList]

theorem not_mem_upTo (sep : Char) (text : String) : sep ∉ (upTo sep text).toList := by
  rw [upTo, String.toList_ofList]
  intro hMem
  have hNe := List.mem_takeWhile_imp hMem
  simp at hNe

/-- The first piece of a split is what comes before the first separator. -/
theorem head_splitOn (sep : Char) (chars : List Char) :
    ∃ rest, chars.splitOn sep = chars.takeWhile (· ≠ sep) :: rest := by
  induction chars with
  | nil => exact ⟨[], by simp⟩
  | cons c chars ih =>
      obtain ⟨rest, hRest⟩ := ih
      rw [List.splitOn_cons_eq_if_modifyHead, hRest]
      by_cases h : c = sep
      · exact ⟨chars.takeWhile (· ≠ sep) :: rest, by simp [h]⟩
      · exact ⟨rest, by simp [h]⟩

/-- No piece of a split has the separator in it. -/
theorem not_mem_of_mem_splitOn {sep : Char} (chars : List Char) :
    ∀ piece ∈ chars.splitOn sep, sep ∉ piece := by
  induction chars with
  | nil => simp
  | cons c chars ih =>
      obtain ⟨rest, hRest⟩ := head_splitOn sep chars
      rw [hRest, List.forall_mem_cons] at ih
      obtain ⟨hFirst, hOthers⟩ := ih
      rw [List.splitOn_cons_eq_if_modifyHead, hRest]
      by_cases h : c = sep
      · simp only [h, beq_self_eq_true, if_true, List.forall_mem_cons]
        exact ⟨List.not_mem_nil, hFirst, hOthers⟩
      · rw [if_neg (by simpa using h), List.modifyHead_cons, List.forall_mem_cons]
        exact ⟨List.not_mem_cons_of_ne_of_not_mem (Ne.symm h) hFirst, hOthers⟩

theorem not_mem_of_mem_split {sep : Char} {text piece : String} (h : piece ∈ split sep text) :
    sep ∉ piece.toList := by
  obtain ⟨chars, hChars, rfl⟩ := List.mem_map.mp h
  rw [String.toList_ofList]
  exact not_mem_of_mem_splitOn _ chars hChars

/-- A text is split into what comes before its first separator and further
pieces. -/
theorem exists_split (sep : Char) (text : String) :
    ∃ rest, split sep text = upTo sep text :: rest := by
  obtain ⟨rest, hRest⟩ := head_splitOn sep text.toList
  exact ⟨rest.map String.ofList, by rw [split, hRest, List.map_cons, upTo]⟩

/-- Splitting a joined text whose first part has no separator gives that part
back. The second piece stops at the next separator. -/
theorem split_join {sep : Char} {first : String} (h : sep ∉ first.toList) (second : String) :
    ∃ rest, split sep (join sep first second) = first :: upTo sep second :: rest := by
  obtain ⟨rest, hRest⟩ := head_splitOn sep second.toList
  refine ⟨rest.map String.ofList, ?_⟩
  rw [split, toList_join, List.splitOn_append_cons_self_of_not_mem h, hRest, List.map_cons,
    List.map_cons, String.ofList_toList, upTo]

theorem upTo_join {sep : Char} {first : String} (h : sep ∉ first.toList) (second : String) :
    upTo sep (join sep first second) = first := by
  obtain ⟨rest, hSplit⟩ := split_join h second
  obtain ⟨rest', hSplit'⟩ := exists_split sep (join sep first second)
  exact (List.cons_eq_cons.mp (hSplit'.symm.trans hSplit)).1

/-- With a first part free of the separator, joining loses nothing. -/
theorem join_injective {sep : Char} {first first' second second' : String}
    (h : sep ∉ first.toList) (h' : sep ∉ first'.toList)
    (hJoin : join sep first second = join sep first' second') :
    first = first' ∧ second = second' := by
  have hList := congrArg String.toList hJoin
  rw [toList_join, toList_join] at hList
  have hTake := congrArg (List.takeWhile (· ≠ sep)) hList
  have hPart : ∀ part rest : List Char, sep ∉ part →
      (part ++ sep :: rest).takeWhile (· ≠ sep) = part := by
    intro part rest hPart
    rw [List.takeWhile_append_of_pos (fun c hc => by
      have hNe : c ≠ sep := by
        rintro rfl
        exact hPart hc
      simpa using hNe)]
    simp
  rw [hPart _ _ h, hPart _ _ h'] at hTake
  rw [hTake] at hList
  have hRest := List.append_cancel_left hList
  exact ⟨String.toList_injective hTake, String.toList_injective (List.cons_eq_cons.mp hRest).2⟩

end Separated
