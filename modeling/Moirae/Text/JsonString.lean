import Mathlib.Data.List.Basic
import Mathlib.Tactic.IntervalCases

/-! The string literals of JSON: how a text is written between quotes and how
such a literal is read back. -/
namespace JsonString

/-- The hexadecimal digits, lower case as they are written. -/
def hexDigits : List Char :=
  ['0', '1', '2', '3', '4', '5', '6', '7', '8', '9', 'a', 'b', 'c', 'd', 'e', 'f']

def hexDigit (n : Nat) : Char := hexDigits.getD n '0'

def hexValue (c : Char) : Option Nat :=
  if '0' ≤ c ∧ c ≤ '9' then some (c.toNat - '0'.toNat)
  else if 'a' ≤ c ∧ c ≤ 'f' then some (c.toNat - 'a'.toNat + 10)
  else if 'A' ≤ c ∧ c ≤ 'F' then some (c.toNat - 'A'.toNat + 10)
  else none

/-- Quotes, backslashes and control characters are escaped, the control
characters by their short form where they have one. -/
def escapeChar (c : Char) : List Char :=
  if c = '"' then ['\\', '"']
  else if c = '\\' then ['\\', '\\']
  else if c = '\x08' then ['\\', 'b']
  else if c = '\x0c' then ['\\', 'f']
  else if c = '\n' then ['\\', 'n']
  else if c = '\r' then ['\\', 'r']
  else if c = '\t' then ['\\', 't']
  else if c.toNat < 32 then
    ['\\', 'u', '0', '0', hexDigit (c.toNat / 16), hexDigit (c.toNat % 16)]
  else [c]

/-- The literal for a text. -/
def stringify (text : String) : String :=
  String.ofList ('"' :: (text.toList.flatMap escapeChar ++ ['"']))

/-- The character a one-letter escape stands for. -/
def shortEscape (c : Char) : Option Char :=
  if c = '"' then some '"'
  else if c = '\\' then some '\\'
  else if c = '/' then some '/'
  else if c = 'b' then some '\x08'
  else if c = 'f' then some '\x0c'
  else if c = 'n' then some '\n'
  else if c = 'r' then some '\r'
  else if c = 't' then some '\t'
  else none

/-- The character with this code, when there is one: half of a surrogate pair
is no character of a text. -/
def charOfCode (n : Nat) : Option Char :=
  if n.isValidChar then some (Char.ofNat n) else none

def hexCode (a b c d : Char) : Option Nat := do
  let w ← hexValue a
  let x ← hexValue b
  let y ← hexValue c
  let z ← hexValue d
  return ((w * 16 + x) * 16 + y) * 16 + z

/-- Read the characters of a literal up to its closing quote, which must be
its last character. -/
def unescape : List Char → Option (List Char)
  | [] => none
  | ['"'] => some []
  | '"' :: _ :: _ => none
  | '\\' :: 'u' :: a :: b :: c :: d :: rest => do
      let code ← hexCode a b c d
      let char ← charOfCode code
      let chars ← unescape rest
      return char :: chars
  | '\\' :: e :: rest => do
      let char ← shortEscape e
      let chars ← unescape rest
      return char :: chars
  | c :: rest =>
      if c.toNat < 32 then none
      else do
        let chars ← unescape rest
        return c :: chars

/-- Read a literal back; `none` where reading raises. -/
def parse (literal : String) : Option String :=
  match literal.toList with
  | '"' :: rest => (unescape rest).map String.ofList
  | _ => none

/-- The two hexadecimal digits of a control character give its code back. -/
theorem unescape_control {c : Char} (h : c.toNat < 32) (rest : List Char) :
    unescape (['\\', 'u', '0', '0', hexDigit (c.toNat / 16), hexDigit (c.toNat % 16)] ++ rest) =
      (unescape rest).map (c :: ·) := by
  obtain ⟨n, hn⟩ : ∃ n, c.toNat = n := ⟨_, rfl⟩
  have hc : c = Char.ofNat n := by rw [← hn, Char.ofNat_toNat]
  rw [hn] at h ⊢
  have hCode : (do
      let code ← hexCode '0' '0' (hexDigit (n / 16)) (hexDigit (n % 16))
      charOfCode code) = some (Char.ofNat n) := by
    interval_cases n <;> decide
  rw [hc]
  cases hHex : hexCode '0' '0' (hexDigit (n / 16)) (hexDigit (n % 16)) with
  | none => simp [hHex] at hCode
  | some code =>
      have hChar : charOfCode code = some (Char.ofNat n) := by simpa [hHex] using hCode
      simp only [List.cons_append, List.nil_append, unescape, hHex, hChar, Option.bind_eq_bind,
        Option.bind_some]
      cases unescape rest <;> rfl

theorem unescape_plain {c : Char} (hQuote : c ≠ '"') (hSlash : c ≠ '\\')
    (hControl : ¬c.toNat < 32) (rest : List Char) :
    unescape (c :: rest) = (unescape rest).map (c :: ·) := by
  rw [unescape]
  · rw [if_neg hControl]
    cases unescape rest <;> rfl
  · exact fun h _ => hQuote h
  · exact fun _ _ h _ => hQuote h
  · exact fun _ _ _ _ _ h _ => hSlash h
  · exact fun _ _ h _ => hSlash h

/-- One escaped character is read back as that character. -/
theorem unescape_escapeChar (c : Char) (rest : List Char) :
    unescape (escapeChar c ++ rest) = (unescape rest).map (c :: ·) := by
  have hShort : ∀ e : Char, e ≠ 'u' → shortEscape e = some c →
      unescape ('\\' :: e :: rest) = (unescape rest).map (c :: ·) := by
    intro e hu he
    rw [unescape]
    · rw [he]
      cases unescape rest <;> rfl
    · exact fun _ _ _ _ _ h _ => hu h
  unfold escapeChar
  split_ifs with h₁ h₂ h₃ h₄ h₅ h₆ h₇ h₈
  · exact hShort '"' (by decide) (by rw [h₁]; rfl)
  · exact hShort '\\' (by decide) (by rw [h₂]; rfl)
  · exact hShort 'b' (by decide) (by rw [h₃]; rfl)
  · exact hShort 'f' (by decide) (by rw [h₄]; rfl)
  · exact hShort 'n' (by decide) (by rw [h₅]; rfl)
  · exact hShort 'r' (by decide) (by rw [h₆]; rfl)
  · exact hShort 't' (by decide) (by rw [h₇]; rfl)
  · exact unescape_control h₈ rest
  · exact unescape_plain h₁ h₂ h₈ rest

theorem unescape_flatMap_escapeChar (chars : List Char) :
    unescape (chars.flatMap escapeChar ++ ['"']) = some chars := by
  induction chars with
  | nil => rfl
  | cons c chars ih =>
      rw [List.flatMap_cons, List.append_assoc, unescape_escapeChar, ih, Option.map_some]

/-- Reading the literal of a text gives the text. -/
theorem parse_stringify (text : String) : parse (stringify text) = some text := by
  rw [parse, stringify, String.toList_ofList]
  simp only [unescape_flatMap_escapeChar, Option.map_some, String.ofList_toList]

theorem stringify_injective : Function.Injective stringify := by
  intro a b h
  have hParse := congrArg parse h
  rw [parse_stringify, parse_stringify] at hParse
  exact Option.some.inj hParse

example : stringify "a\"\\\n\x01" = "\"a\\\"\\\\\\n\\u0001\"" := by decide

example : parse "\"a\\u0041\\/\"" = some "aA/" := by decide

end JsonString
