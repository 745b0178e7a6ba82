namespace OcLang.Toml

/-! ## Reading text from the left

A reader takes characters from the front of a text or fails. -/

abbrev Reader := StateT (List Char) Option

namespace Reader

def peek : Reader (Option Char) :=
  fun text => some (text.head?, text)

def next : Reader Char
  | c :: rest => some (c, rest)
  | [] => none

def satisfy (accepts : Char → Bool) : Reader Char := do
  let c ← next
  if accepts c then return c else failure

def expect (c : Char) : Reader Unit := do
  let _ ← satisfy (· == c)

def expectAll : List Char → Reader Unit
  | [] => pure ()
  | c :: rest => do
      expect c
      expectAll rest

def takeWhile (accepts : Char → Bool) : Reader (List Char) :=
  fun text => some (text.span accepts)

def lineEnd : Reader Unit := do
  let _ ← optional (expect '\r')
  expect '\n'

end Reader

open Reader

def isBlank (c : Char) : Bool :=
  c == ' ' || c == '\t'

def isDigit (c : Char) : Bool :=
  '0' ≤ c && c ≤ '9'

def isHexDigit (c : Char) : Bool :=
  isDigit c || ('a' ≤ c && c ≤ 'f') || ('A' ≤ c && c ≤ 'F')

def digitValue (c : Char) : Nat :=
  if isDigit c then c.toNat - 48
  else if 'a' ≤ c && c ≤ 'f' then c.toNat - 87
  else c.toNat - 55

def valueOfDigits (base : Nat) (digits : List Char) : Nat :=
  digits.foldl (fun value digit => value * base + digitValue digit) 0

/-! ## Numbers -/

def moreDigits (accepts : Char → Bool) : List Char → List Char × List Char
  | '_' :: digit :: rest =>
      if accepts digit then
        let (digits, rest) := moreDigits accepts rest
        (digit :: digits, rest)
      else ([], '_' :: digit :: rest)
  | digit :: rest =>
      if accepts digit then
        let (digits, rest) := moreDigits accepts rest
        (digit :: digits, rest)
      else ([], digit :: rest)
  | [] => ([], [])

def someDigits (accepts : Char → Bool) : Reader (List Char) := do
  let first ← satisfy accepts
  let rest ← fun text => some (moreDigits accepts text)
  return first :: rest

def wholeDigits : Reader (List Char) := do
  let first ← satisfy isDigit
  if first == '0' then return ['0']
  else
    let rest ← fun text => some (moreDigits isDigit text)
    return first :: rest

def sign : Reader (Option Char) :=
  optional (satisfy fun c => c == '+' || c == '-')

def integerLimit : Nat := 9223372036854775808

def radixInteger (letter : Char) (base : Nat) (accepts : Char → Bool) : Reader Unit := do
  expect '0'
  expect letter
  let digits ← someDigits accepts
  if valueOfDigits base digits < integerLimit then return () else failure

def decimalInteger : Reader Unit := do
  let negative := (← sign) == some '-'
  let value := valueOfDigits 10 (← wholeDigits)
  if value < integerLimit || (negative && value == integerLimit) then return () else failure

def integer : Reader Unit :=
  radixInteger 'x' 16 isHexDigit <|>
    radixInteger 'o' 8 (fun c => '0' ≤ c && c ≤ '7') <|>
    radixInteger 'b' 2 (fun c => c == '0' || c == '1') <|>
    decimalInteger

def overflowThreshold : Nat := (Nat.pow 2 54 - 1) * Nat.pow 2 970

/-- `digits` times ten to the power `exponent` is too large for a double. The
count of digits decides, except near the threshold. -/
def overflows (digits : List Char) (exponent : Int) : Bool :=
  let digits := digits.dropWhile (· == '0')
  let magnitude := exponent + digits.length
  if digits.isEmpty || magnitude < 300 then false
  else if magnitude > 320 then true
  else
    let value := valueOfDigits 10 digits
    if exponent < 0 then value ≥ overflowThreshold * Nat.pow 10 exponent.natAbs
    else value * Nat.pow 10 exponent.natAbs ≥ overflowThreshold

def exponentPart : Reader Int := do
  let _ ← satisfy fun c => c == 'e' || c == 'E'
  let negative := (← sign) == some '-'
  let value := valueOfDigits 10 (← someDigits isDigit)
  return if negative then -value else value

def fractionPart : Reader (List Char) := do
  expect '.'
  someDigits isDigit

def specialFloat : Reader Unit := do
  let _ ← sign
  expectAll ['i', 'n', 'f'] <|> expectAll ['n', 'a', 'n']

def decimalFloat : Reader Unit := do
  let negative := (← sign) == some '-'
  let whole ← wholeDigits
  let fraction ← optional fractionPart
  let exponent ← optional exponentPart
  if fraction.isNone && exponent.isNone then failure
  else
    let fraction := fraction.getD []
    if !negative && overflows (whole ++ fraction) (exponent.getD 0 - fraction.length) then failure
    else return ()

/-! ## Dates and times -/

def fixedDigits (count : Nat) : Reader Nat := fun text =>
  let digits := text.take count
  if digits.length = count && digits.all isDigit then
    some (valueOfDigits 10 digits, text.drop count)
  else none

def between (least greatest : Nat) (reader : Reader Nat) : Reader Nat := do
  let value ← reader
  if least ≤ value && value ≤ greatest then return value else failure

def isLeapYear (year : Nat) : Bool :=
  year % 4 == 0 && (year % 100 != 0 || year % 400 == 0)

def daysIn (year month : Nat) : Nat :=
  if month == 2 then (if isLeapYear year then 29 else 28)
  else if month == 4 || month == 6 || month == 9 || month == 11 then 30
  else 31

def date : Reader Unit := do
  let year ← fixedDigits 4
  expect '-'
  let month ← between 1 12 (fixedDigits 2)
  expect '-'
  let _ ← between 1 (daysIn year month) (fixedDigits 2)

def time : Reader Unit := do
  let _ ← between 0 23 (fixedDigits 2)
  expect ':'
  let _ ← between 0 59 (fixedDigits 2)
  expect ':'
  let _ ← between 0 60 (fixedDigits 2)
  let _ ← optional do
    expect '.'
    let _ ← satisfy isDigit
    takeWhile isDigit

def offset : Reader Unit := do
  let c ← satisfy fun c => c == 'Z' || c == 'z' || c == '+' || c == '-'
  if c == '+' || c == '-' then
    let _ ← between 0 23 (fixedDigits 2)
    expect ':'
    let _ ← between 0 59 (fixedDigits 2)

def dateAndTime : Reader Unit := do
  date
  let _ ← optional do
    let _ ← satisfy fun c => c == 'T' || c == 't' || c == ' '
    time
    optional offset

/-- A number, date or time; the longest of the forms that begin alike. -/
def scalarValue : Reader Unit :=
  dateAndTime <|> time <|> decimalFloat <|> specialFloat <|> integer

example : scalarValue "2024-02-29 x".toList = some ((), " x".toList) := by
  decide

example : scalarValue "1_000.5e3,".toList = some ((), [',']) := by
  decide

end OcLang.Toml
