import OcLang.Toml.Scalar

namespace OcLang.Toml

/-! ## Strings

Basic strings have escapes, literal strings have none; both also exist in a
form of several lines, between three quotes. Control characters other than the
tab are never allowed. -/

def isPlain (c : Char) : Bool :=
  c == '\t' || (0x20 ≤ c.toNat && c.toNat != 0x7f)

def character? (code : Nat) : Option Char :=
  if code.isValidChar then some (Char.ofNat code) else none

def hexCharacter? (digits : List Char) : Option Char :=
  if digits.all isHexDigit then character? (valueOfDigits 16 digits) else none

def shortEscape? : Char → Option Char
  | 'b' => some '\x08'
  | 't' => some '\t'
  | 'n' => some '\n'
  | 'f' => some '\x0c'
  | 'r' => some '\r'
  | '"' => some '"'
  | '\\' => some '\\'
  | _ => none

private def prepend (c? : Option Char) (rest : Option (List Char × List Char)) :
    Option (List Char × List Char) := do
  let c ← c?
  let (contents, rest) ← rest
  return (c :: contents, rest)

def basicContents : List Char → Option (List Char × List Char)
  | [] => none
  | '"' :: rest => some ([], rest)
  | '\\' :: 'u' :: a :: b :: c :: d :: rest =>
      prepend (hexCharacter? [a, b, c, d]) (basicContents rest)
  | '\\' :: 'U' :: a :: b :: c :: d :: e :: f :: g :: h :: rest =>
      prepend (hexCharacter? [a, b, c, d, e, f, g, h]) (basicContents rest)
  | '\\' :: c :: rest => prepend (shortEscape? c) (basicContents rest)
  | c :: rest => if isPlain c && c != '\\' then prepend (some c) (basicContents rest) else none

def literalContents : List Char → Option (List Char × List Char)
  | [] => none
  | '\'' :: rest => some ([], rest)
  | c :: rest => if isPlain c then prepend (some c) (literalContents rest) else none

def isContinuation (text : List Char) : Bool :=
  match text.dropWhile isBlank with
  | '\n' :: _ | '\r' :: '\n' :: _ => true
  | _ => false

/-- The contents of a basic string of several lines. While `skipping`, blanks
and line ends after a continued line are left out. Up to two quotes before the
closing ones belong to the contents. -/
def basicLines (skipping : Bool) : List Char → Option (List Char × List Char)
  | [] => none
  | '"' :: '"' :: '"' :: '"' :: '"' :: rest => some (['"', '"'], rest)
  | '"' :: '"' :: '"' :: '"' :: rest => some (['"'], rest)
  | '"' :: '"' :: '"' :: rest => some ([], rest)
  | '\\' :: 'u' :: a :: b :: c :: d :: rest =>
      prepend (hexCharacter? [a, b, c, d]) (basicLines false rest)
  | '\\' :: 'U' :: a :: b :: c :: d :: e :: f :: g :: h :: rest =>
      prepend (hexCharacter? [a, b, c, d, e, f, g, h]) (basicLines false rest)
  | '\\' :: c :: rest =>
      if isContinuation (c :: rest) then basicLines true (c :: rest)
      else prepend (shortEscape? c) (basicLines false rest)
  | '\r' :: '\n' :: rest =>
      if skipping then basicLines true rest else prepend (some '\n') (basicLines false rest)
  | c :: rest =>
      if skipping && (isBlank c || c == '\n') then basicLines true rest
      else if c == '\n' || (isPlain c && c != '\\') then prepend (some c) (basicLines false rest)
      else none

def literalLines : List Char → Option (List Char × List Char)
  | [] => none
  | '\'' :: '\'' :: '\'' :: '\'' :: '\'' :: rest => some (['\'', '\''], rest)
  | '\'' :: '\'' :: '\'' :: '\'' :: rest => some (['\''], rest)
  | '\'' :: '\'' :: '\'' :: rest => some ([], rest)
  | '\r' :: '\n' :: rest => prepend (some '\n') (literalLines rest)
  | c :: rest => if c == '\n' || isPlain c then prepend (some c) (literalLines rest) else none

/-- A line end right after three opening quotes does not count. -/
def afterOpening : List Char → List Char
  | '\n' :: rest => rest
  | '\r' :: '\n' :: rest => rest
  | characters => characters

def lineString : Reader String
  | '"' :: rest => (basicContents rest).map fun (contents, rest) => (String.ofList contents, rest)
  | '\'' :: rest =>
      (literalContents rest).map fun (contents, rest) => (String.ofList contents, rest)
  | _ => none

def stringValue : Reader String
  | '"' :: '"' :: '"' :: rest =>
      (basicLines false (afterOpening rest)).map fun (contents, rest) =>
        (String.ofList contents, rest)
  | '\'' :: '\'' :: '\'' :: rest =>
      (literalLines (afterOpening rest)).map fun (contents, rest) => (String.ofList contents, rest)
  | characters => lineString characters

example : stringValue "\"\"\"\na\\\n   b\"\"\"\" x".toList = some ("ab\"", " x".toList) := by
  decide

end OcLang.Toml
