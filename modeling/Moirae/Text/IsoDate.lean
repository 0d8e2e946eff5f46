import Mathlib.Algebra.Group.Nat.Defs
import Mathlib.Data.List.Basic

/-! Dates by their components in UTC, and the text that `toISOString` makes of
them. -/

/-- How many days the month has in the Gregorian calendar. -/
def daysInMonth (year : Int) (month : Nat) : Nat :=
  if month = 2 then
    if year % 4 = 0 ∧ (year % 100 ≠ 0 ∨ year % 400 = 0) then 29 else 28
  else if month ∈ [4, 6, 9, 11] then 30
  else 31

/-- A date with a time value. -/
structure DateTime where
  year : Int
  month : Nat
  day : Nat
  hour : Nat
  minute : Nat
  second : Nat
  millisecond : Nat
  year_range : -271821 ≤ year ∧ year ≤ 275760
  month_range : 1 ≤ month ∧ month ≤ 12
  day_range : 1 ≤ day ∧ day ≤ daysInMonth year month
  hour_lt : hour < 24
  minute_lt : minute < 60
  second_lt : second < 60
  millisecond_lt : millisecond < 1000
  deriving DecidableEq

namespace DateTime

/-- The last digits of a number, with leading zeros up to the width. -/
def digits : Nat → Nat → List Char
  | 0, _ => []
  | width + 1, n => digits width (n / 10) ++ [Nat.digitChar (n % 10)]

/-- Four digits, or a sign and six. -/
def writeYear (year : Int) : List Char :=
  if 0 ≤ year ∧ year < 10000 then digits 4 year.toNat
  else if 0 ≤ year then '+' :: digits 6 year.toNat
  else '-' :: digits 6 year.natAbs

def toISOString (d : DateTime) : String :=
  String.ofList (writeYear d.year ++ '-' :: digits 2 d.month ++ '-' :: digits 2 d.day ++
    'T' :: digits 2 d.hour ++ ':' :: digits 2 d.minute ++ ':' :: digits 2 d.second ++
    '.' :: digits 3 d.millisecond ++ ['Z'])

/-- The number that the first digits stand for, and what follows them. -/
def readDigits (width : Nat) (chars : List Char) : Nat × List Char :=
  (Nat.ofDigitChars 10 (chars.take width) 0, chars.drop width)

def readYear : List Char → Int × List Char
  | '+' :: chars => ((readDigits 6 chars).1, (readDigits 6 chars).2)
  | '-' :: chars => (-(readDigits 6 chars).1, (readDigits 6 chars).2)
  | chars => ((readDigits 4 chars).1, (readDigits 4 chars).2)

/-- The components at their places in a text, whatever else it holds. -/
def components (chars : List Char) : Int × Nat × Nat × Nat × Nat × Nat × Nat :=
  let (year, chars) := readYear chars
  let (month, chars) := readDigits 2 (chars.drop 1)
  let (day, chars) := readDigits 2 (chars.drop 1)
  let (hour, chars) := readDigits 2 (chars.drop 1)
  let (minute, chars) := readDigits 2 (chars.drop 1)
  let (second, chars) := readDigits 2 (chars.drop 1)
  let (millisecond, _) := readDigits 3 (chars.drop 1)
  (year, month, day, hour, minute, second, millisecond)

/-- The date that a text is the ISO text of. -/
def ofISOString (text : String) : Option DateTime :=
  let (year, month, day, hour, minute, second, millisecond) := components text.toList
  if h : (-271821 ≤ year ∧ year ≤ 275760) ∧ (1 ≤ month ∧ month ≤ 12) ∧
      (1 ≤ day ∧ day ≤ daysInMonth year month) ∧ hour < 24 ∧ minute < 60 ∧ second < 60 ∧
      millisecond < 1000 then
    let d : DateTime := ⟨year, month, day, hour, minute, second, millisecond, h.1, h.2.1,
      h.2.2.1, h.2.2.2.1, h.2.2.2.2.1, h.2.2.2.2.2.1, h.2.2.2.2.2.2⟩
    if d.toISOString = text then some d else none
  else none

@[simp] theorem length_digits (width n : Nat) : (digits width n).length = width := by
  induction width generalizing n with
  | zero => rfl
  | succ width ih => simp [digits, ih]

theorem ofDigitChars_digits {width n : Nat} (h : n < 10 ^ width) :
    Nat.ofDigitChars 10 (digits width n) 0 = n := by
  induction width generalizing n with
  | zero =>
      have hn : n = 0 := by simpa using h
      rw [hn, digits, Nat.ofDigitChars_nil]
  | succ width ih =>
      have hTens : n / 10 < 10 ^ width := by
        rw [Nat.pow_succ] at h
        omega
      rw [digits, Nat.ofDigitChars_append, ih hTens,
        Nat.ofDigitChars_cons_digitChar_of_lt_ten (Nat.mod_lt n (by decide)),
        Nat.ofDigitChars_nil]
      omega

theorem isDigit_of_mem_digits {width n : Nat} {c : Char} (h : c ∈ digits width n) :
    c.isDigit := by
  induction width generalizing n with
  | zero => exact absurd h List.not_mem_nil
  | succ width ih =>
      rcases List.mem_append.mp h with hTens | hUnit
      · exact ih hTens
      · rw [List.mem_singleton.mp hUnit]
        exact Nat.isDigit_digitChar.trans (decide_eq_true (Nat.mod_lt n (by decide)))

/-- Digits that fit the width are read back, whatever follows them. -/
theorem readDigits_digits {width n : Nat} (h : n < 10 ^ width) (rest : List Char) :
    readDigits width (digits width n ++ rest) = (n, rest) := by
  have hTake : (digits width n ++ rest).take width = digits width n :=
    List.take_left' (length_digits width n)
  have hDrop : (digits width n ++ rest).drop width = rest :=
    List.drop_left' (length_digits width n)
  rw [readDigits, hTake, hDrop, ofDigitChars_digits h]

theorem readYear_writeYear {year : Int} (h : -271821 ≤ year ∧ year ≤ 275760)
    (rest : List Char) : readYear (writeYear year ++ rest) = (year, rest) := by
  unfold writeYear
  by_cases hFour : 0 ≤ year ∧ year < 10000
  · have hFits : year.toNat < 10 ^ 4 := by omega
    have hRead := readDigits_digits hFits rest
    have hDigit : ∀ c chars, digits 4 year.toNat ++ rest = c :: chars → c.isDigit := by
      intro c chars hChars
      have hHead := congrArg List.head? hChars
      have hMem : c ∈ digits 4 year.toNat := by
        simp only [digits, List.nil_append, List.cons_append, List.head?_cons,
          Option.some.injEq] at hHead ⊢
        simp [hHead]
      exact isDigit_of_mem_digits hMem
    rw [if_pos hFour, readYear]
    · rw [hRead]
      simp only [Prod.mk.injEq, and_true]
      omega
    · intro chars hChars
      exact absurd (hDigit _ _ hChars) (by decide)
    · intro chars hChars
      exact absurd (hDigit _ _ hChars) (by decide)
  · rw [if_neg hFour]
    by_cases hSign : 0 ≤ year
    · have hFits : year.toNat < 10 ^ 6 := by omega
      have hRead := readDigits_digits hFits rest
      rw [if_pos hSign, List.cons_append, readYear, hRead]
      simp only [Prod.mk.injEq, and_true]
      omega
    · have hFits : year.natAbs < 10 ^ 6 := by omega
      have hRead := readDigits_digits hFits rest
      rw [if_neg hSign, List.cons_append, readYear, hRead]
      simp only [Prod.mk.injEq, and_true]
      omega

theorem components_toISOString (d : DateTime) :
    components d.toISOString.toList =
      (d.year, d.month, d.day, d.hour, d.minute, d.second, d.millisecond) := by
  have hMonth := d.month_range
  have hDay : d.day < 10 ^ 2 := by
    have hRange := d.day_range
    have hDays : daysInMonth d.year d.month ≤ 31 := by
      unfold daysInMonth
      split_ifs <;> omega
    omega
  have hHour := d.hour_lt
  have hMinute := d.minute_lt
  have hSecond := d.second_lt
  have hMilli := d.millisecond_lt
  have hYear := readYear_writeYear d.year_range
  rw [toISOString, String.toList_ofList]
  simp only [List.append_assoc, List.cons_append]
  simp only [components, hYear, List.drop_succ_cons, List.drop_zero,
    readDigits_digits (show d.month < 10 ^ 2 by omega), readDigits_digits hDay,
    readDigits_digits (show d.hour < 10 ^ 2 by omega),
    readDigits_digits (show d.minute < 10 ^ 2 by omega),
    readDigits_digits (show d.second < 10 ^ 2 by omega),
    readDigits_digits (show d.millisecond < 10 ^ 3 by omega)]

/-- Reading the ISO text of a date gives the date. -/
theorem ofISOString_toISOString (d : DateTime) : ofISOString d.toISOString = some d := by
  have hValid : (-271821 ≤ d.year ∧ d.year ≤ 275760) ∧ (1 ≤ d.month ∧ d.month ≤ 12) ∧
      (1 ≤ d.day ∧ d.day ≤ daysInMonth d.year d.month) ∧ d.hour < 24 ∧ d.minute < 60 ∧
      d.second < 60 ∧ d.millisecond < 1000 :=
    ⟨d.year_range, d.month_range, d.day_range, d.hour_lt, d.minute_lt, d.second_lt,
      d.millisecond_lt⟩
  simp only [ofISOString, components_toISOString, dif_pos hValid]
  exact if_pos trivial

end DateTime

example : (DateTime.mk 2023 2 28 9 5 7 40 (by decide) (by decide) (by decide) (by decide)
    (by decide) (by decide) (by decide)).toISOString = "2023-02-28T09:05:07.040Z" := by decide
