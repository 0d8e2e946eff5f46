import Mathlib.Data.List.GetD
import Moirae.Collections.KeyedMap
import Moirae.Text.JsonString

/-! JSON values and their texts. A text is a sequence of tokens: writing puts
them one after the other without blanks, reading splits the text into tokens
first. -/

/-- Characters that numbers and the words `null`, `true` and `false` are made
of. -/
def Json.isWordChar (c : Char) : Bool :=
  c.isAlphanum || c = '+' || c = '-' || c = '.'

/-- Numbers as JSON writes and reads them. What was written is read back. -/
class JsonNumber (Num : Type) where
  write : Num → List Char
  read : List Char → Option Num
  isZero : Num → Bool
  write_ne_nil : ∀ n, write n ≠ []
  write_wordChars : ∀ n, ∀ c ∈ write n, Json.isWordChar c = true
  write_ne_word : ∀ n, write n ∉ ["null".toList, "true".toList, "false".toList]
  read_write : ∀ n, read (write n) = some n

inductive Json (Num : Type) where
  | null
  | bool (b : Bool)
  | num (n : Num)
  | str (text : String)
  | arr (items : List (Json Num))
  | obj (members : List (String × Json Num))
  deriving Repr

namespace Json

variable {Num : Type}

inductive Mark
  | openBrace
  | closeBrace
  | openBracket
  | closeBracket
  | comma
  | colon
  deriving DecidableEq, Repr

namespace Mark

def char : Mark → Char
  | .openBrace => '\x7b'
  | .closeBrace => '\x7d'
  | .openBracket => '['
  | .closeBracket => ']'
  | .comma => ','
  | .colon => ':'

def ofChar (c : Char) : Option Mark :=
  [openBrace, closeBrace, openBracket, closeBracket, comma, colon].find? (·.char = c)

@[simp] theorem ofChar_char (mark : Mark) : ofChar mark.char = some mark := by
  cases mark <;> decide

end Mark

inductive Token (Num : Type)
  | mark (mark : Mark)
  | null
  | bool (b : Bool)
  | num (n : Num)
  | literal (text : String)
  deriving Repr

mutual

/-- The tokens of a value in the order in which `JSON.stringify` writes them. -/
def tokens : Json Num → List (Token Num)
  | .null => [.null]
  | .bool b => [.bool b]
  | .num n => [.num n]
  | .str text => [.literal text]
  | .arr [] => [.mark .openBracket, .mark .closeBracket]
  | .arr (item :: items) => .mark .openBracket :: (tokens item ++ itemTokens items)
  | .obj [] => [.mark .openBrace, .mark .closeBrace]
  | .obj ((key, value) :: members) =>
      .mark .openBrace :: .literal key :: .mark .colon :: (tokens value ++ memberTokens members)

/-- The items after the first one, up to the closing bracket. -/
def itemTokens : List (Json Num) → List (Token Num)
  | [] => [.mark .closeBracket]
  | item :: items => .mark .comma :: (tokens item ++ itemTokens items)

def memberTokens : List (String × Json Num) → List (Token Num)
  | [] => [.mark .closeBrace]
  | (key, value) :: members =>
      .mark .comma :: .literal key :: .mark .colon :: (tokens value ++ memberTokens members)

end

/-- What an object holds after the members were assigned in their order: a
repeated key has its last value. -/
def assigned (members : List (String × Json Num)) : List (String × Json Num) :=
  (members.foldl (fun object member => object.set member.1 member.2) KeyedMap.empty).entries

mutual

/-- Read one value; every nested value takes one unit of fuel. -/
def readValue : Nat → List (Token Num) → Option (Json Num × List (Token Num))
  | 0, _ => none
  | _ + 1, .null :: rest => some (.null, rest)
  | _ + 1, .bool b :: rest => some (.bool b, rest)
  | _ + 1, .num n :: rest => some (.num n, rest)
  | _ + 1, .literal text :: rest => some (.str text, rest)
  | _ + 1, .mark .openBracket :: .mark .closeBracket :: rest => some (.arr [], rest)
  | fuel + 1, .mark .openBracket :: rest => do
      let (item, rest) ← readValue fuel rest
      let (items, rest) ← readItems fuel rest
      return (.arr (item :: items), rest)
  | _ + 1, .mark .openBrace :: .mark .closeBrace :: rest => some (.obj [], rest)
  | fuel + 1, .mark .openBrace :: .literal key :: .mark .colon :: rest => do
      let (value, rest) ← readValue fuel rest
      let (members, rest) ← readMembers fuel rest
      return (.obj (assigned ((key, value) :: members)), rest)
  | _ + 1, _ => none

def readItems : Nat → List (Token Num) → Option (List (Json Num) × List (Token Num))
  | 0, _ => none
  | _ + 1, .mark .closeBracket :: rest => some ([], rest)
  | fuel + 1, .mark .comma :: rest => do
      let (item, rest) ← readValue fuel rest
      let (items, rest) ← readItems fuel rest
      return (item :: items, rest)
  | _ + 1, _ => none

def readMembers :
    Nat → List (Token Num) → Option (List (String × Json Num) × List (Token Num))
  | 0, _ => none
  | _ + 1, .mark .closeBrace :: rest => some ([], rest)
  | fuel + 1, .mark .comma :: .literal key :: .mark .colon :: rest => do
      let (value, rest) ← readValue fuel rest
      let (members, rest) ← readMembers fuel rest
      return ((key, value) :: members, rest)
  | _ + 1, _ => none

end

mutual

/-- No object holds a key twice. -/
def wellFormed : Json Num → Bool
  | .arr items => wellFormedItems items
  | .obj members => decide (members.map Prod.fst).Nodup && wellFormedMembers members
  | _ => true

def wellFormedItems : List (Json Num) → Bool
  | [] => true
  | item :: items => wellFormed item && wellFormedItems items

def wellFormedMembers : List (String × Json Num) → Bool
  | [] => true
  | (_, value) :: members => wellFormed value && wellFormedMembers members

end

theorem wellFormedMembers_iff {members : List (String × Json Num)} :
    wellFormedMembers members ↔ ∀ member ∈ members, member.2.wellFormed := by
  induction members with
  | nil => simp [wellFormedMembers]
  | cons member members ih => simp [wellFormedMembers, ih]

theorem wellFormed_of_lookup {members : List (String × Json Num)}
    (h : (Json.obj members).wellFormed) {key : String} {value : Json Num}
    (hLookup : members.lookup key = some value) : value.wellFormed := by
  rw [wellFormed, Bool.and_eq_true] at h
  obtain ⟨before, after, rfl, -⟩ := List.lookup_eq_some_iff.mp hLookup
  exact wellFormedMembers_iff.mp h.2 (key, value) (by simp)

theorem assigned_of_nodup {members : List (String × Json Num)}
    (h : (members.map Prod.fst).Nodup) : assigned members = members := by
  have hDistinct : (((KeyedMap.empty : KeyedMap String (Json Num)).entries ++ members).map
      Prod.fst).Nodup := by
    simpa [KeyedMap.empty] using h
  have hEntries := KeyedMap.entries_foldl_set _ hDistinct
  simpa [assigned, KeyedMap.empty] using hEntries

theorem tokens_ne_closeBracket (value : Json Num) (rest after : List (Token Num)) :
    tokens value ++ rest ≠ .mark .closeBracket :: after := by
  rcases value with _ | _ | _ | _ | (_ | _) | (_ | _) <;> simp [tokens]

mutual

/-- The tokens of a value are read as that value, whatever follows them. -/
theorem readValue_tokens (value : Json Num) (h : value.wellFormed) (fuel : Nat)
    (rest : List (Token Num)) (hFuel : (tokens value).length ≤ fuel) :
    readValue fuel (tokens value ++ rest) = some (value, rest) := by
  obtain ⟨fuel, rfl⟩ : ∃ n, fuel = n + 1 := by
    refine Nat.exists_eq_add_one.mpr (lt_of_lt_of_le ?_ hFuel)
    rcases value with _ | _ | _ | _ | (_ | _) | (_ | _) <;> simp [tokens]
  match value with
  | .null => simp [tokens, readValue]
  | .bool b => simp [tokens, readValue]
  | .num n => simp [tokens, readValue]
  | .str text => simp [tokens, readValue]
  | .arr [] => simp [tokens, readValue]
  | .arr (item :: items) =>
      have hParts : item.wellFormed ∧ wellFormedItems items := by
        simpa [wellFormed, wellFormedItems] using h
      simp only [tokens, List.length_cons, List.length_append] at hFuel
      have hItem := readValue_tokens item hParts.1 fuel (itemTokens items ++ rest) (by omega)
      have hItems := readItems_itemTokens items hParts.2 fuel rest (by omega)
      rw [tokens, List.cons_append, List.append_assoc, readValue]
      · simp [hItem, hItems]
      · exact fun after hHead => tokens_ne_closeBracket item _ after hHead
  | .obj [] => simp [tokens, readValue]
  | .obj ((key, value) :: members) =>
      have hParts : (((key, value) :: members).map Prod.fst).Nodup ∧ value.wellFormed ∧
          wellFormedMembers members := by
        simpa [wellFormed, wellFormedMembers] using h
      simp only [tokens, List.length_cons, List.length_append] at hFuel
      have hValue := readValue_tokens value hParts.2.1 fuel (memberTokens members ++ rest)
        (by omega)
      have hMembers := readMembers_memberTokens members hParts.2.2 fuel rest (by omega)
      simp [tokens, readValue, hValue, hMembers, assigned_of_nodup hParts.1]

theorem readItems_itemTokens (items : List (Json Num)) (h : wellFormedItems items) (fuel : Nat)
    (rest : List (Token Num)) (hFuel : (itemTokens items).length ≤ fuel) :
    readItems fuel (itemTokens items ++ rest) = some (items, rest) := by
  obtain ⟨fuel, rfl⟩ : ∃ n, fuel = n + 1 := by
    refine Nat.exists_eq_add_one.mpr (lt_of_lt_of_le ?_ hFuel)
    cases items <;> simp [itemTokens]
  match items with
  | [] => simp [itemTokens, readItems]
  | item :: items =>
      have hParts : item.wellFormed ∧ wellFormedItems items := by
        simpa [wellFormedItems] using h
      simp only [itemTokens, List.length_cons, List.length_append] at hFuel
      have hItem := readValue_tokens item hParts.1 fuel (itemTokens items ++ rest) (by omega)
      have hItems := readItems_itemTokens items hParts.2 fuel rest (by omega)
      simp [itemTokens, readItems, hItem, hItems]

theorem readMembers_memberTokens (members : List (String × Json Num))
    (h : wellFormedMembers members) (fuel : Nat) (rest : List (Token Num))
    (hFuel : (memberTokens members).length ≤ fuel) :
    readMembers fuel (memberTokens members ++ rest) = some (members, rest) := by
  obtain ⟨fuel, rfl⟩ : ∃ n, fuel = n + 1 := by
    refine Nat.exists_eq_add_one.mpr (lt_of_lt_of_le ?_ hFuel)
    cases members <;> simp [memberTokens]
  match members with
  | [] => simp [memberTokens, readMembers]
  | (key, value) :: members =>
      have hParts : value.wellFormed ∧ wellFormedMembers members := by
        simpa [wellFormedMembers] using h
      simp only [memberTokens, List.length_cons, List.length_append] at hFuel
      have hValue := readValue_tokens value hParts.1 fuel (memberTokens members ++ rest)
        (by omega)
      have hMembers := readMembers_memberTokens members hParts.2 fuel rest (by omega)
      simp [memberTokens, readMembers, hValue, hMembers]

end

def Token.isWord : Token Num → Bool
  | .mark _ => false
  | .literal _ => false
  | _ => true

/-- No two words stand next to each other. -/
def Apart : List (Token Num) → Prop
  | [] => True
  | token :: tokens =>
      (token.isWord → ∀ next ∈ tokens.head?, next.isWord = false) ∧ Apart tokens

mutual

theorem apart_tokens (value : Json Num) {rest : List (Token Num)}
    (hHead : ∀ next ∈ rest.head?, next.isWord = false) (hRest : Apart rest) :
    Apart (tokens value ++ rest) := by
  match value with
  | .null => exact ⟨fun _ => hHead, hRest⟩
  | .bool _ => exact ⟨fun _ => hHead, hRest⟩
  | .num _ => exact ⟨fun _ => hHead, hRest⟩
  | .str _ => exact ⟨fun _ => hHead, hRest⟩
  | .arr [] => simp [tokens, Apart, Token.isWord, hRest]
  | .arr (item :: items) =>
      obtain ⟨hNext, hItems⟩ := apart_itemTokens items hRest
      simpa [tokens, Apart, Token.isWord] using apart_tokens item hNext hItems
  | .obj [] => simp [tokens, Apart, Token.isWord, hRest]
  | .obj ((key, value) :: members) =>
      obtain ⟨hNext, hMembers⟩ := apart_memberTokens members hRest
      simpa [tokens, Apart, Token.isWord] using apart_tokens value hNext hMembers

theorem apart_itemTokens (items : List (Json Num)) {rest : List (Token Num)}
    (hRest : Apart rest) :
    (∀ next ∈ (itemTokens items ++ rest).head?, next.isWord = false) ∧
      Apart (itemTokens items ++ rest) := by
  match items with
  | [] => simp [itemTokens, Apart, Token.isWord, hRest]
  | item :: items =>
      obtain ⟨hNext, hItems⟩ := apart_itemTokens items hRest
      simpa [itemTokens, Apart, Token.isWord] using apart_tokens item hNext hItems

theorem apart_memberTokens (members : List (String × Json Num)) {rest : List (Token Num)}
    (hRest : Apart rest) :
    (∀ next ∈ (memberTokens members ++ rest).head?, next.isWord = false) ∧
      Apart (memberTokens members ++ rest) := by
  match members with
  | [] => simp [memberTokens, Apart, Token.isWord, hRest]
  | (key, value) :: members =>
      obtain ⟨hNext, hMembers⟩ := apart_memberTokens members hRest
      simpa [memberTokens, Apart, Token.isWord] using apart_tokens value hNext hMembers

end

variable [JsonNumber Num]

def Token.chars : Token Num → List Char
  | .mark m => [m.char]
  | .null => "null".toList
  | .bool true => "true".toList
  | .bool false => "false".toList
  | .num n => JsonNumber.write n
  | .literal text => (JsonString.stringify text).toList

/-- `JSON.stringify`. -/
def stringify (value : Json Num) : String :=
  String.ofList ((tokens value).flatMap Token.chars)

def isBlank (c : Char) : Bool :=
  c = ' ' || c = '\n' || c = '\r' || c = '\t'

/-- Split behind the quote that closes a literal. -/
def splitLiteral : List Char → Option (List Char × List Char)
  | [] => none
  | ['\\'] => none
  | '\\' :: c :: rest => (splitLiteral rest).map fun split => ('\\' :: c :: split.1, split.2)
  | c :: rest =>
      if c = '"' then some (['"'], rest)
      else (splitLiteral rest).map fun split => (c :: split.1, split.2)

def word (chars : List Char) : Option (Token Num) :=
  if chars = "null".toList then some .null
  else if chars = "true".toList then some (.bool true)
  else if chars = "false".toList then some (.bool false)
  else (JsonNumber.read chars).map .num

def nextToken : List Char → Option (Token Num × List Char)
  | [] => none
  | c :: rest =>
      match Mark.ofChar c with
      | some mark => some (.mark mark, rest)
      | none =>
          if c = '"' then do
            let (literal, rest) ← splitLiteral rest
            let chars ← JsonString.unescape literal
            return (.literal (String.ofList chars), rest)
          else do
            let token ← word ((c :: rest).takeWhile isWordChar)
            return (token, (c :: rest).dropWhile isWordChar)

/-- Every token takes one unit of fuel. -/
def lex : Nat → List Char → Option (List (Token Num))
  | 0, _ => none
  | fuel + 1, chars =>
      match chars.dropWhile isBlank with
      | [] => some []
      | chars => do
          let (token, rest) ← nextToken chars
          let tokens ← lex fuel rest
          return token :: tokens

/-- `JSON.parse`; `none` where it raises a `SyntaxError`. -/
def parse (text : String) : Option (Json Num) := do
  let tokens ← lex (text.length + 1) text.toList
  match ← readValue tokens.length tokens with
  | (value, []) => return value
  | _ => none


/-- The first character of a token tells whether it is a word. -/
theorem Token.chars_head (token : Token Num) :
    ∃ c chars, token.chars = c :: chars ∧ isBlank c = false ∧ isWordChar c = token.isWord := by
  match token with
  | .mark sign => exact ⟨sign.char, [], rfl, by cases sign <;> rfl, by cases sign <;> rfl⟩
  | .null => exact ⟨'n', ['u', 'l', 'l'], rfl, rfl, rfl⟩
  | .bool true => exact ⟨'t', ['r', 'u', 'e'], rfl, rfl, rfl⟩
  | .bool false => exact ⟨'f', ['a', 'l', 's', 'e'], rfl, rfl, rfl⟩
  | .num n =>
      obtain ⟨c, chars, hChars⟩ := List.exists_cons_of_ne_nil (JsonNumber.write_ne_nil n)
      have hWord : isWordChar c := JsonNumber.write_wordChars n c (by simp [hChars])
      refine ⟨c, chars, hChars, ?_, hWord⟩
      have hNe : ∀ blank, isWordChar blank = false → c ≠ blank := by
        rintro blank hBlank rfl
        rw [hBlank] at hWord
        exact Bool.false_ne_true hWord
      simp [isBlank, hNe ' ' rfl, hNe '\n' rfl, hNe '\r' rfl, hNe '\t' rfl]
  | .literal text =>
      refine ⟨'"', text.toList.flatMap JsonString.escapeChar ++ ['"'], ?_, rfl, rfl⟩
      rw [Token.chars, JsonString.stringify, String.toList_ofList]

theorem splitLiteral_plain {c : Char} (hSlash : c ≠ '\\') (hQuote : c ≠ '"')
    (rest : List Char) :
    splitLiteral (c :: rest) = (splitLiteral rest).map fun split => (c :: split.1, split.2) := by
  rw [splitLiteral]
  · rw [if_neg hQuote]
  · exact fun h _ => hSlash h
  · exact fun _ _ h _ => hSlash h

theorem splitLiteral_escapeChar (c : Char) (rest : List Char) :
    splitLiteral (JsonString.escapeChar c ++ rest) =
      (splitLiteral rest).map fun split => (JsonString.escapeChar c ++ split.1, split.2) := by
  have hDigit : ∀ n, JsonString.hexDigit n ≠ '\\' ∧ JsonString.hexDigit n ≠ '"' := by
    intro n
    rcases lt_or_ge n JsonString.hexDigits.length with h | h
    · rw [JsonString.hexDigit, List.getD_eq_getElem _ _ h]
      have hAll : ∀ digit ∈ JsonString.hexDigits, digit ≠ '\\' ∧ digit ≠ '"' := by
        simp [JsonString.hexDigits]
      exact hAll _ (List.getElem_mem h)
    · rw [JsonString.hexDigit, List.getD_eq_default _ _ h]
      decide
  unfold JsonString.escapeChar
  split_ifs with h₁ h₂ h₃ h₄ h₅ h₆ h₇ h₈
  all_goals try rfl
  · simp only [List.cons_append, List.nil_append, splitLiteral]
    rw [splitLiteral_plain (by decide) (by decide), splitLiteral_plain (by decide) (by decide),
      splitLiteral_plain (hDigit _).1 (hDigit _).2, splitLiteral_plain (hDigit _).1 (hDigit _).2]
    simp [Option.map_map, Function.comp_def]
  · exact splitLiteral_plain h₂ h₁ rest

/-- A literal ends at its closing quote: the quotes inside are escaped. -/
theorem splitLiteral_literal (chars rest : List Char) :
    splitLiteral (chars.flatMap JsonString.escapeChar ++ '"' :: rest) =
      some (chars.flatMap JsonString.escapeChar ++ ['"'], rest) := by
  induction chars with
  | nil => simp [splitLiteral]
  | cons c chars ih =>
      rw [List.flatMap_cons, List.append_assoc, splitLiteral_escapeChar, ih, Option.map_some,
        List.append_assoc]

theorem Token.word_chars {token : Token Num} (h : token.isWord) :
    word token.chars = some token := by
  match token with
  | .null => rw [Token.chars, word, if_pos rfl]
  | .bool true => rw [Token.chars, word, if_neg (by decide), if_pos rfl]
  | .bool false => rw [Token.chars, word, if_neg (by decide), if_neg (by decide), if_pos rfl]
  | .num n =>
      have hNot := JsonNumber.write_ne_word n
      simp only [List.mem_cons, List.not_mem_nil, or_false, not_or] at hNot
      rw [Token.chars, word, if_neg hNot.1, if_neg hNot.2.1, if_neg hNot.2.2,
        JsonNumber.read_write, Option.map_some]

theorem Token.isWordChar_of_mem {token : Token Num} (h : token.isWord) :
    ∀ c ∈ token.chars, isWordChar c = true := by
  match token with
  | .null => exact List.all_eq_true.mp rfl
  | .bool true => exact List.all_eq_true.mp rfl
  | .bool false => exact List.all_eq_true.mp rfl
  | .num n => exact JsonNumber.write_wordChars n

theorem Mark.ofChar_of_isWordChar {c : Char} (h : isWordChar c) : Mark.ofChar c = none := by
  refine List.find?_eq_none.mpr fun sign _ hChar => ?_
  have hSame : sign.char = c := by simpa using hChar
  rw [← hSame] at h
  cases sign <;> exact absurd h (by decide)

theorem nextToken_word {token : Token Num} (h : token.isWord) {rest : List Char}
    (hRest : ∀ c ∈ rest.head?, isWordChar c = false) :
    nextToken (token.chars ++ rest) = some (token, rest) := by
  have hWord := Token.isWordChar_of_mem h
  have hStop : rest.takeWhile isWordChar = [] ∧ rest.dropWhile isWordChar = rest := by
    cases rest with
    | nil => simp
    | cons d rest => simp [hRest d (by simp)]
  have hTake : (token.chars ++ rest).takeWhile isWordChar = token.chars := by
    rw [List.takeWhile_append_of_pos hWord, hStop.1, List.append_nil]
  have hDrop : (token.chars ++ rest).dropWhile isWordChar = rest := by
    rw [List.dropWhile_append_of_pos hWord, hStop.2]
  have hRead := Token.word_chars h
  obtain ⟨c, tail, hChars, -, hFirst⟩ := token.chars_head
  rw [h] at hFirst
  have hQuote : c ≠ '"' := by
    rintro rfl
    exact absurd hFirst (by decide)
  rw [hChars] at hRead
  rw [hChars, List.cons_append] at hTake hDrop ⊢
  simp [nextToken, Mark.ofChar_of_isWordChar hFirst, hQuote, hTake, hDrop, hRead]

/-- A token is read off the front of a text, provided a word is not continued
by what follows. -/
theorem nextToken_chars (token : Token Num) (rest : List Char)
    (h : token.isWord → ∀ c ∈ rest.head?, isWordChar c = false) :
    nextToken (token.chars ++ rest) = some (token, rest) := by
  match token with
  | .mark sign => simp [Token.chars, nextToken]
  | .null => exact nextToken_word rfl (h rfl)
  | .bool b => exact nextToken_word rfl (h rfl)
  | .num n => exact nextToken_word rfl (h rfl)
  | .literal text =>
      have hQuote : Mark.ofChar '"' = none := by decide
      rw [Token.chars, JsonString.stringify, String.toList_ofList, List.cons_append,
        List.append_assoc, List.singleton_append]
      simp [nextToken, hQuote, splitLiteral_literal, JsonString.unescape_flatMap_escapeChar]

/-- The text of tokens that stand apart is split into these tokens. -/
theorem lex_flatMap_chars {tokens : List (Token Num)} (h : Apart tokens) {fuel : Nat}
    (hFuel : tokens.length < fuel) : lex fuel (tokens.flatMap Token.chars) = some tokens := by
  induction tokens generalizing fuel with
  | nil =>
      obtain ⟨fuel, rfl⟩ := Nat.exists_eq_add_one.mpr hFuel
      simp [lex]
  | cons token tokens ih =>
      obtain ⟨fuel, rfl⟩ := Nat.exists_eq_add_one.mpr (Nat.zero_lt_of_lt hFuel)
      obtain ⟨c, chars, hChars, hBlank, -⟩ := token.chars_head
      have hNext : nextToken (token.chars ++ tokens.flatMap Token.chars) =
          some (token, tokens.flatMap Token.chars) := by
        refine nextToken_chars token _ fun hWord d hd => ?_
        cases tokens with
        | nil => simp at hd
        | cons next tokens =>
            obtain ⟨e, rest, hRest, -, hKind⟩ := next.chars_head
            have hSame : d = e := by simpa [hRest, eq_comm] using hd
            rw [hSame, hKind]
            exact h.1 hWord next (by simp)
      have hTail : lex fuel (tokens.flatMap Token.chars) = some tokens :=
        ih h.2 (by simpa using hFuel)
      rw [List.flatMap_cons, lex]
      rw [hChars, List.cons_append] at hNext ⊢
      rw [List.dropWhile_cons_of_neg (by simp [hBlank])]
      simp [hNext, hTail]

theorem length_le_flatMap_chars (tokens : List (Token Num)) :
    tokens.length ≤ (tokens.flatMap Token.chars).length := by
  induction tokens with
  | nil => simp
  | cons token tokens ih =>
      obtain ⟨c, chars, hChars, -⟩ := token.chars_head
      rw [List.flatMap_cons, List.length_append, hChars, List.length_cons, List.length_cons]
      omega

/-- Reading the text of a value gives the value. -/
theorem parse_stringify {value : Json Num} (h : value.wellFormed) :
    parse value.stringify = some value := by
  have hApart : Apart (tokens value) := by
    have hApart : Apart (tokens value ++ []) := apart_tokens value (by simp) trivial
    simpa using hApart
  have hLex : lex (value.stringify.length + 1) value.stringify.toList = some (tokens value) := by
    have hLength := length_le_flatMap_chars (tokens value)
    rw [stringify, String.length_ofList, String.toList_ofList]
    exact lex_flatMap_chars hApart (by omega)
  have hRead := readValue_tokens value h (tokens value).length [] le_rfl
  rw [List.append_nil] at hRead
  rw [parse, hLex]
  simp [hRead]

theorem stringify_inj {a b : Json Num} (ha : a.wellFormed) (hb : b.wellFormed) :
    a.stringify = b.stringify ↔ a = b := by
  constructor
  · intro hText
    have hParse := congrArg (parse : String → Option (Json Num)) hText
    rw [parse_stringify ha, parse_stringify hb] at hParse
    exact Option.some.inj hParse
  · rintro rfl
    rfl

end Json

/-! Whole numbers, as one kind of numbers. -/
namespace JsonNumber

/-- The number a text is the decimal notation of, without leading zeros. -/
def readNat (chars : List Char) : Option Nat :=
  let n := Nat.ofDigitChars 10 chars 0
  if Nat.toDigits 10 n = chars then some n else none

def writeInt : Int → List Char
  | .ofNat n => Nat.toDigits 10 n
  | .negSucc n => '-' :: Nat.toDigits 10 (n + 1)

def readInt : List Char → Option Int
  | '-' :: chars => (readNat chars).map fun n => -(n : Int)
  | chars => (readNat chars).map Int.ofNat

theorem readNat_toDigits (n : Nat) : readNat (Nat.toDigits 10 n) = some n := by
  simp [readNat, Nat.ofDigitChars_ten_toDigits]

theorem isDigit_of_mem_toDigits {n : Nat} {c : Char} (h : c ∈ Nat.toDigits 10 n) : c.isDigit :=
  Nat.isDigit_of_mem_toDigits (by decide) (by decide) h

/-- A whole number starts with a digit or with a minus sign. -/
theorem writeInt_head (n : Int) :
    ∃ c chars, writeInt n = c :: chars ∧ (c.isDigit ∨ c = '-') := by
  cases n with
  | ofNat n =>
      obtain ⟨c, chars, hChars⟩ :=
        List.exists_cons_of_ne_nil (Nat.toDigits_ne_nil (n := n) (b := 10))
      exact ⟨c, chars, hChars, .inl (isDigit_of_mem_toDigits (n := n) (by simp [hChars]))⟩
  | negSucc n => exact ⟨'-', _, rfl, .inr rfl⟩

theorem readInt_writeInt (n : Int) : readInt (writeInt n) = some n := by
  cases n with
  | ofNat n =>
      have hDigits := readNat_toDigits n
      rw [writeInt, readInt]
      · rw [hDigits]
        rfl
      · intro chars hChars
        have hDigit : '-'.isDigit := isDigit_of_mem_toDigits (n := n) (by simp [hChars])
        exact absurd hDigit (by decide)
  | negSucc n =>
      rw [writeInt, readInt, readNat_toDigits]
      rfl

instance : JsonNumber Int where
  write := writeInt
  read := readInt
  isZero n := n = 0
  write_ne_nil n h := by
    obtain ⟨c, chars, hChars, -⟩ := writeInt_head n
    simp [hChars] at h
  write_wordChars n c hc := by
    have hDigit : ∀ m, c ∈ Nat.toDigits 10 m → Json.isWordChar c := fun m hm => by
      simp [Json.isWordChar, Char.isAlphanum, isDigit_of_mem_toDigits hm]
    cases n with
    | ofNat n => exact hDigit n hc
    | negSucc n =>
        rcases List.mem_cons.mp hc with rfl | hc
        · rfl
        · exact hDigit (n + 1) hc
  write_ne_word n h := by
    obtain ⟨c, chars, hChars, hHead⟩ := writeInt_head n
    rw [hChars] at h
    have hWords : ∀ text ∈ ["null".toList, "true".toList, "false".toList],
        ∀ first ∈ text.head?, first.isDigit = false ∧ first ≠ '-' := by simp
    obtain ⟨hDigit, hMinus⟩ := hWords _ h c (by simp)
    rcases hHead with hHead | hHead
    · exact Bool.false_ne_true (hDigit.symm.trans hHead)
    · exact hMinus hHead
  read_write := readInt_writeInt

end JsonNumber

example : (Json.obj [("a", .arr [.num (-1 : Int), .null]), ("b", .str "x\"")]).stringify =
    "\x7b\"a\":[-1,null],\"b\":\"x\\\"\"\x7d" := by decide
