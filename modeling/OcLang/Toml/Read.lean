import OcLang.Toml
import OcLang.Toml.Text

namespace OcLang.Toml

open Reader

/-! ## Keys -/

def isBareKey (c : Char) : Bool :=
  isDigit c || ('a' ≤ c && c ≤ 'z') || ('A' ≤ c && c ≤ 'Z') || c == '_' || c == '-'

def blanks : Reader Unit := do
  let _ ← takeWhile isBlank

def simpleKey : Reader String := do
  blanks
  let key ← lineString <|> do
    let name ← takeWhile isBareKey
    if name.isEmpty then failure else return String.ofList name
  blanks
  return key

def depthLimit : Nat := 79

def dottedKeys : (most : Nat) → Reader (List String)
  | 0 => pure []
  | most + 1 => do
      if (← peek) == some '.' then
        expect '.'
        let key ← simpleKey
        let rest ← dottedKeys most
        return key :: rest
      else return []

def key : Reader (List String × String) := do
  let first ← simpleKey
  let rest ← dottedKeys (depthLimit - 1)
  match (first :: rest).getLast? with
  | some last => return ((first :: rest).dropLast, last)
  | none => failure

/-! ## Blanks, comments and line ends -/

def comment : Reader Unit := do
  expect '#'
  let _ ← takeWhile isPlain

def restOfLine : Reader Unit := do
  blanks
  let _ ← optional comment
  if (← peek).isNone then return () else lineEnd

def space : (steps : Nat) → Reader Unit
  | 0 => pure ()
  | steps + 1 => do
      blanks
      match ← peek with
      | some '#' => do
          comment
          lineEnd
          space steps
      | some '\n' | some '\r' => do
          lineEnd
          space steps
      | _ => pure ()

/-! ## Values

`room` is how many arrays and tables may still be opened. Every step takes at
least one character, so a text has no more steps than twice its length. -/

def keyword (word : String) (value : Toml) : Reader Toml := do
  expectAll word.toList
  return value

mutual
def value : (steps room : Nat) → Reader Toml
  | 0, _ => failure
  | steps + 1, room => do
      match ← peek with
      | some '"' | some '\'' => return .text (← stringValue)
      | some '[' =>
          match room with
          | 0 => failure
          | room + 1 => do
              expect '['
              return .array (← items steps room)
      | some '\x7b' =>
          match room with
          | 0 => failure
          | room + 1 => do
              expect '\x7b'
              return .table .inline (← pairs steps room [])
      | some 't' => keyword "true" (.boolean true)
      | some 'f' => keyword "false" (.boolean false)
      | _ => do
          scalarValue
          return .scalar

def items : (steps room : Nat) → Reader (List Toml)
  | 0, _ => failure
  | steps + 1, room => do
      space steps
      if (← peek) == some ']' then
        expect ']'
        return []
      else
        let first ← value steps room
        space steps
        if (← peek) == some ',' then
          expect ','
          let rest ← items steps room
          return first :: rest
        else
          expect ']'
          return [first]

def pairs : (steps room : Nat) → Entries → Reader Entries
  | 0, _, _ => failure
  | steps + 1, room, entries => do
      blanks
      if (← peek) == some '\x7d' && entries.isEmpty then
        expect '\x7d'
        return []
      else
        let (path, last) ← key
        expect '='
        blanks
        let first ← value steps room
        blanks
        match addPair path last first entries with
        | none => failure
        | some entries =>
            if (← peek) == some ',' then
              expect ','
              pairs steps room entries
            else
              expect '\x7d'
              return entries
end

/-! ## Documents -/

structure Draft where
  entries : Entries := []
  current : List String := []

def addTo (draft : Draft) (path : List String) (last : String) (added : Toml) : Option Draft := do
  let entries ←
    update false (fun _ entries => addPair path last added entries) draft.current .header
      draft.entries
  return { draft with entries }

def header (opening closing : String) (begin : List String → String → Entries → Option Entries)
    (draft : Draft) : Reader Draft := do
  expectAll opening.toList
  let (path, last) ← key
  expectAll closing.toList
  restOfLine
  match begin path last draft.entries with
  | none => failure
  | some entries => return { entries, current := path ++ [last] }

def pair (steps : Nat) (draft : Draft) : Reader Draft := do
  let (path, last) ← key
  expect '='
  blanks
  let added ← value steps depthLimit
  restOfLine
  match addTo draft path last added with
  | none => failure
  | some draft => return draft

def startsWith (opening : List Char) : Reader Bool :=
  fun text => some (opening.isPrefixOf text, text)

def statement (steps : Nat) (draft : Draft) : Reader Draft := do
  match ← peek with
  | some '#' | some '\n' | some '\r' => do
      restOfLine
      return draft
  | some '[' =>
      if ← startsWith ['[', '['] then header "[[" "]]" openElement draft
      else header "[" "]" openTable draft
  | _ => pair steps draft

def document : (steps : Nat) → Draft → Reader Draft
  | 0, _ => failure
  | steps + 1, draft => do
      blanks
      if (← peek).isNone then return draft
      else
        let draft ← statement (2 * steps) draft
        document steps draft

/-- Read a whole document. A byte order mark before it does not count. -/
def read? (text : String) : Option Entries :=
  let characters := match text.toList with
    | '\ufeff' :: rest => rest
    | characters => characters
  ((document (characters.length + 2) {}).run characters).map fun (draft, _) => draft.entries

end OcLang.Toml
