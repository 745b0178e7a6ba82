import OcLang.Json

namespace OcLang.Json

/-! # Written documents

The grammar of strict JSON, for documents of strings, natural numbers, arrays and
objects. It leaves a writer some freedom: blanks around every token, and several
spellings of a character in a string. -/

/-! ## Strings -/

def IsHexDigit (c : Char) (value : Nat) : Prop :=
  "0123456789abcdef".toList[value]? = some c ∨ "0123456789ABCDEF".toList[value]? = some c

inductive SpellsUnit : List Char → Nat → Prop
  | digits {a b c d : Char} {first second third fourth : Nat} (isFirst : IsHexDigit a first)
      (isSecond : IsHexDigit b second) (isThird : IsHexDigit c third)
      (isFourth : IsHexDigit d fourth) :
      SpellsUnit [a, b, c, d] (((first * 16 + second) * 16 + third) * 16 + fourth)

def shortEscapes : List (Char × Char) :=
  [('"', '"'), ('\\', '\\'), ('/', '/'), ('b', '\x08'), ('f', '\x0c'), ('n', '\n'), ('r', '\r'),
    ('t', '\t')]

def highHalf (c : Char) : Nat :=
  0xD800 + (c.toNat - 0x10000) / 0x400

def lowHalf (c : Char) : Nat :=
  0xDC00 + (c.toNat - 0x10000) % 0x400

/-- What may stand between the quotes of a string, and the text that it spells. Quotes,
backslashes and control characters have to be escaped, everything else may be. -/
inductive SpellsText : List Char → List Char → Prop
  | nil : SpellsText [] []
  | plain {c : Char} {written text : List Char} (notQuote : c ≠ '"') (notBackslash : c ≠ '\\')
      (notControl : 0x20 ≤ c.toNat) (rest : SpellsText written text) :
      SpellsText (c :: written) (c :: text)
  | short {letter c : Char} {written text : List Char} (escape : (letter, c) ∈ shortEscapes)
      (rest : SpellsText written text) :
      SpellsText ('\\' :: letter :: written) (c :: text)
  | unit {digits : List Char} {c : Char} {written text : List Char}
      (spelled : SpellsUnit digits c.toNat) (rest : SpellsText written text) :
      SpellsText ('\\' :: 'u' :: (digits ++ written)) (c :: text)
  | pair {high low : List Char} {c : Char} {written text : List Char} (far : 0x10000 ≤ c.toNat)
      (first : SpellsUnit high (highHalf c)) (second : SpellsUnit low (lowHalf c))
      (rest : SpellsText written text) :
      SpellsText ('\\' :: 'u' :: (high ++ '\\' :: 'u' :: (low ++ written))) (c :: text)

def isPlain (c : Char) : Bool :=
  c != '"' && c != '\\' && 0x20 ≤ c.toNat

/-- What needs no escape may be written as it is. -/
theorem SpellsText.self {text : List Char} (plain : text.all isPlain = true) :
    SpellsText text text := by
  induction text with
  | nil => exact .nil
  | cons c rest induction =>
      rw [List.all_cons, Bool.and_eq_true] at plain
      have here : (c ≠ '"' ∧ c ≠ '\\') ∧ 0x20 ≤ c.toNat := by simpa [isPlain] using plain.1
      exact .plain here.1.1 here.1.2 here.2 (induction plain.2)

/-! ## Documents -/

def IsBlank (text : List Char) : Prop :=
  ∀ c ∈ text, c = ' ' ∨ c = '\t' ∨ c = '\n' ∨ c = '\r'

inductive Part where
  | document (value : Json)
  | padded (value : Json)
  | items (values : List Json)
  | member (member : Option String × Json)
  | members (members : List (Option String × Json))

/-- The text spells the part. A key is written like any other string. -/
inductive Spells : List Char → Part → Prop
  | string {written : List Char} {text : String} (spelled : SpellsText written text.toList) :
      Spells ('"' :: (written ++ ['"'])) (.document (.string (some text)))
  | number (value : Nat) : Spells value.repr.toList (.document (.number value.repr))
  | emptyArray {blank : List Char} (isBlank : IsBlank blank) :
      Spells ('[' :: (blank ++ [']'])) (.document (.array []))
  | array {written : List Char} {values : List Json} (spelled : Spells written (.items values)) :
      Spells ('[' :: (written ++ [']'])) (.document (.array values))
  | emptyObject {blank : List Char} (isBlank : IsBlank blank) :
      Spells ('\x7b' :: (blank ++ ['\x7d'])) (.document (.object []))
  | object {written : List Char} {members : List (Option String × Json)}
      (spelled : Spells written (.members members)) :
      Spells ('\x7b' :: (written ++ ['\x7d'])) (.document (.object members))
  | padded {before written after : List Char} {value : Json} (blankBefore : IsBlank before)
      (spelled : Spells written (.document value)) (blankAfter : IsBlank after) :
      Spells (before ++ (written ++ after)) (.padded value)
  | lastItem {written : List Char} {value : Json} (spelled : Spells written (.padded value)) :
      Spells written (.items [value])
  | item {written others : List Char} {value : Json} {values : List Json}
      (spelled : Spells written (.padded value)) (rest : Spells others (.items values)) :
      Spells (written ++ ',' :: others) (.items (value :: values))
  | member {key written : List Char} {name : String} {value : Json}
      (named : Spells key (.padded (.string (some name))))
      (spelled : Spells written (.padded value)) :
      Spells (key ++ ':' :: written) (.member (some name, value))
  | lastMember {written : List Char} {member : Option String × Json}
      (spelled : Spells written (.member member)) :
      Spells written (.members [member])
  | nextMember {written others : List Char} {member : Option String × Json}
      {members : List (Option String × Json)} (spelled : Spells written (.member member))
      (rest : Spells others (.members members)) :
      Spells (written ++ ',' :: others) (.members (member :: members))

end OcLang.Json
