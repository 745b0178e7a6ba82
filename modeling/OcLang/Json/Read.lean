import OcLang.Json
import OcLang.Json.Token

namespace OcLang.Json

/-! ## From tokens to a document

The reader keeps a stack of the arrays and objects that are still open and an
expectation of what the next token may be. It takes every token once, so
documents of any depth are read without recursion. -/

/-- An open array or object with what it holds so far, in reverse. An open
object also remembers the key whose value is being read. -/
inductive Frame where
  | array (items : List Json)
  | object (members : List (Option String × Json)) (key : Option String)

inductive Expectation where
  | value
  | firstItem
  | key
  | firstKey
  | colon
  | separator
  | nothing (document : Json)

structure Reading where
  frames : List Frame := []
  expecting : Expectation := .value

namespace Reading

def finish (frames : List Frame) (value : Json) : Reading :=
  match frames with
  | [] => { frames := [], expecting := .nothing value }
  | .array items :: frames =>
      { frames := .array (value :: items) :: frames, expecting := .separator }
  | .object members key :: frames =>
      { frames := .object ((key, value) :: members) key :: frames, expecting := .separator }

def begin (frames : List Frame) : Token → Option Reading
  | .openArray => some { frames := .array [] :: frames, expecting := .firstItem }
  | .openObject => some { frames := .object [] none :: frames, expecting := .firstKey }
  | .null => some (finish frames .null)
  | .boolean value => some (finish frames (.boolean value))
  | .number spelling => some (finish frames (.number spelling))
  | .string text => some (finish frames (.string text))
  | .closeArray | .closeObject | .comma | .colon => none

def takeKey : List Frame → Token → Option Reading
  | .object members _ :: frames, .string key =>
      some { frames := .object members key :: frames, expecting := .colon }
  | _, _ => none

def step (reading : Reading) (token : Token) : Option Reading :=
  match reading.expecting, reading.frames, token with
  | .value, frames, token => begin frames token
  | .firstItem, .array items :: frames, .closeArray => some (finish frames (.array items.reverse))
  | .firstItem, frames, token => begin frames token
  | .key, frames, token => takeKey frames token
  | .firstKey, .object members _ :: frames, .closeObject =>
      some (finish frames (.object members.reverse))
  | .firstKey, frames, token => takeKey frames token
  | .colon, frames, .colon => some { frames, expecting := .value }
  | .separator, .array items :: frames, .closeArray =>
      some (finish frames (.array items.reverse))
  | .separator, .object members _ :: frames, .closeObject =>
      some (finish frames (.object members.reverse))
  | .separator, .array items :: frames, .comma =>
      some { frames := .array items :: frames, expecting := .value }
  | .separator, .object members key :: frames, .comma =>
      some { frames := .object members key :: frames, expecting := .key }
  | _, _, _ => none

end Reading

def ofTokens? (tokens : List Token) : Option Json := do
  match (← tokens.foldlM Reading.step {}).expecting with
  | .nothing document => some document
  | _ => none

def read? (text : String) : Option Json := do
  ofTokens? (← tokens text.toList)

end OcLang.Json
