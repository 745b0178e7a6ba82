namespace OcLang.Json

/-! ## From characters to tokens

The lexer is a machine that takes one character at a time. Between tokens it
skips blanks; inside a token its mode remembers how far the token has come. -/

inductive Token where
  | openArray | closeArray
  | openObject | closeObject
  | comma | colon
  | null
  | boolean (value : Bool)
  | number (spelling : String)
  | string (text : Option String)
deriving DecidableEq, Repr

namespace Lexer

/-! ### Escapes

The characters of a string are collected as code units: a plain character is
its own number, an escape of four hexadecimal digits is the number they spell.
Two escapes that are the halves of a surrogate pair stand for one character. -/

def isHighSurrogate (unit : Nat) : Bool :=
  0xD800 ≤ unit && unit < 0xDC00

def isLowSurrogate (unit : Nat) : Bool :=
  0xDC00 ≤ unit && unit < 0xE000

def joinSurrogates (high low : Nat) : Nat :=
  0x10000 + (high - 0xD800) * 0x400 + (low - 0xDC00)

def decodeUnits : List Nat → Option (List Char)
  | [] => some []
  | high :: low :: rest =>
      if isHighSurrogate high then
        if isLowSurrogate low then
          (decodeUnits rest).map (Char.ofNat (joinSurrogates high low) :: ·)
        else none
      else if isLowSurrogate high then none
      else (decodeUnits (low :: rest)).map (Char.ofNat high :: ·)
  | [unit] =>
      if isHighSurrogate unit || isLowSurrogate unit then none else some [Char.ofNat unit]

def textOfUnits (units : List Nat) : Option String :=
  (decodeUnits units).map String.ofList

def hexValue? (c : Char) : Option Nat :=
  if '0' ≤ c && c ≤ '9' then some (c.toNat - '0'.toNat)
  else if 'a' ≤ c && c ≤ 'f' then some (c.toNat - 'a'.toNat + 10)
  else if 'A' ≤ c && c ≤ 'F' then some (c.toNat - 'A'.toNat + 10)
  else none

def shortEscape? : Char → Option Char
  | '"' => some '"'
  | '\\' => some '\\'
  | '/' => some '/'
  | 'b' => some '\x08'
  | 'f' => some '\x0c'
  | 'n' => some '\n'
  | 'r' => some '\r'
  | 't' => some '\t'
  | _ => none

/-! ### Numbers -/

inductive NumberPart where
  | minus
  | zero
  | integer
  | point
  | fraction
  | exponentMark
  | exponentSign
  | exponent
deriving DecidableEq, Repr

namespace NumberPart

def isDigit (c : Char) : Bool :=
  '0' ≤ c && c ≤ '9'

def next? (part : NumberPart) (c : Char) : Option NumberPart :=
  match part with
  | .minus => if c = '0' then some .zero else if isDigit c then some .integer else none
  | .zero =>
      if c = '.' then some .point
      else if c = 'e' || c = 'E' then some .exponentMark
      else none
  | .integer =>
      if isDigit c then some .integer
      else if c = '.' then some .point
      else if c = 'e' || c = 'E' then some .exponentMark
      else none
  | .point => if isDigit c then some .fraction else none
  | .fraction =>
      if isDigit c then some .fraction
      else if c = 'e' || c = 'E' then some .exponentMark
      else none
  | .exponentMark =>
      if isDigit c then some .exponent
      else if c = '+' || c = '-' then some .exponentSign
      else none
  | .exponentSign => if isDigit c then some .exponent else none
  | .exponent => if isDigit c then some .exponent else none

def isComplete : NumberPart → Bool
  | .zero | .integer | .fraction | .exponent => true
  | _ => false

def first? (c : Char) : Option NumberPart :=
  if c = '-' then some .minus
  else if c = '0' then some .zero
  else if isDigit c then some .integer
  else none

end NumberPart

/-! ### The machine -/

inductive Mode where
  | between
  | string (units : List Nat)
  | escape (units : List Nat)
  | hexEscape (units : List Nat) (digits : Nat) (value : Nat)
  | number (part : NumberPart) (characters : List Char)
  | word (token : Token) (rest : List Char)

structure State where
  tokens : List Token := []
  mode : Mode := .between

def isBlank (c : Char) : Bool :=
  c = ' ' || c = '\t' || c = '\n' || c = '\r'

def State.emit (state : State) (token : Token) : State :=
  { tokens := token :: state.tokens, mode := .between }

def stepBetween (state : State) (c : Char) : Option State :=
  if isBlank c then some { state with mode := .between }
  else match c with
    | '[' => some (state.emit .openArray)
    | ']' => some (state.emit .closeArray)
    | '\x7b' => some (state.emit .openObject)
    | '\x7d' => some (state.emit .closeObject)
    | ',' => some (state.emit .comma)
    | ':' => some (state.emit .colon)
    | '"' => some { state with mode := .string [] }
    | 'n' => some { state with mode := .word .null ['u', 'l', 'l'] }
    | 't' => some { state with mode := .word (.boolean true) ['r', 'u', 'e'] }
    | 'f' => some { state with mode := .word (.boolean false) ['a', 'l', 's', 'e'] }
    | _ => (NumberPart.first? c).map fun part => { state with mode := .number part [c] }

def step (state : State) (c : Char) : Option State :=
  match state.mode with
  | .between => stepBetween state c
  | .string units =>
      if c = '"' then some (state.emit (.string (textOfUnits units.reverse)))
      else if c = '\\' then some { state with mode := .escape units }
      else if c.toNat < 0x20 then none
      else some { state with mode := .string (c.toNat :: units) }
  | .escape units =>
      if c = 'u' then some { state with mode := .hexEscape units 0 0 }
      else (shortEscape? c).map fun plain => { state with mode := .string (plain.toNat :: units) }
  | .hexEscape units digits value =>
      (hexValue? c).map fun digit =>
        let value := value * 16 + digit
        if digits = 3 then { state with mode := .string (value :: units) }
        else { state with mode := .hexEscape units (digits + 1) value }
  | .number part characters =>
      match part.next? c with
      | some part => some { state with mode := .number part (c :: characters) }
      | none =>
          if part.isComplete then
            stepBetween (state.emit (.number (String.ofList characters.reverse))) c
          else none
  | .word token rest =>
      match rest with
      | [last] => if c = last then some (state.emit token) else none
      | expected :: rest =>
          if c = expected then some { state with mode := .word token rest } else none
      | [] => none

def finish (state : State) : Option (List Token) :=
  match state.mode with
  | .between => some state.tokens.reverse
  | .number part characters =>
      if part.isComplete then
        some (Token.number (String.ofList characters.reverse) :: state.tokens).reverse
      else none
  | _ => none

end Lexer

def tokens (text : List Char) : Option (List Token) := do
  Lexer.finish (← text.foldlM Lexer.step {})

example : tokens "[-0.5e+7, \"\\ud83d\\ude00\"]".toList =
    some [.openArray, .number "-0.5e+7", .comma, .string (some "😀"), .closeArray] := by
  decide

example : tokens "01".toList = some [.number "0", .number "1"] ∧ tokens "1.".toList = none := by
  decide

end OcLang.Json
