import OcLang.Json.Read
import OcLang.Tree.Shape

namespace OcLang

/-! ## Loading a tree

A node is an object with a `kind` and, when they are not the defaults, `loc`,
`text` and `children`; other members are ignored. It may also be an array of
these four in this order, where missing last elements take their defaults.
Objects and arrays of nodes may be open to a limited depth only; what is
ignored may be of any depth. -/

inductive LoadError where
  | notTree
  | shape (error : ShapeError)
deriving DecidableEq, Repr

/-- The text of a load error. What made the text unreadable is not told. -/
def LoadError.message : LoadError → String
  | .notTree => "invalid tree JSON: ..."
  | .shape error => error.message

namespace Json

def depthLimit : Nat := 127

def text? : Json → Option String
  | .string text => text
  | _ => none

def word? : Json → Option UInt32
  | .number spelling =>
      if spelling.toList.all Lexer.NumberPart.isDigit then
        let value := spelling.toList.foldl (fun value digit => value * 10 + (digit.toNat - 48)) 0
        if value < 4294967296 then some (UInt32.ofNat value) else none
      else none
  | _ => none

/-- A kind is named by a string, or by the only key of an object that holds
null. The object counts as an open one. -/
def kind? (room : Nat) : Json → Option Kind
  | .string (some name) => Kind.ofName? name
  | .object [(some name, .null)] => if room = 0 then none else Kind.ofName? name
  | _ => none

def location? (room : Nat) : Json → Option Location
  | .array [file, line, column] =>
      if room = 0 then none
      else do return ⟨← file.word?, ← line.word?, ← column.word?⟩
  | _ => none

structure NodeParts where
  kind : Option Kind := none
  location : Option Location := none
  text : Option String := none
  children : Option (List Tree) := none

namespace NodeParts

def tree? (parts : NodeParts) : Option Tree := do
  return {
    kind := ← parts.kind
    location := parts.location.getD {}
    text := parts.text.getD ""
    children := parts.children.getD [] }

/-- Read one member. A member may be given once; other keys are ignored. -/
def addMember (room : Nat) (children? : Json → Option (List Tree)) (parts : NodeParts) :
    Option String × Json → Option NodeParts
  | (none, _) => none
  | (some key, value) =>
      if key = "kind" then
        if parts.kind.isSome then none
        else (value.kind? room).map fun kind => { parts with kind }
      else if key = "loc" then
        if parts.location.isSome then none
        else (value.location? room).map fun location => { parts with location }
      else if key = "text" then
        if parts.text.isSome then none
        else value.text?.map fun text => { parts with text }
      else if key = "children" then
        if parts.children.isSome then none
        else (children? value).map fun children => { parts with children }
      else some parts

end NodeParts

mutual

/-- Read a node where `room` arrays and objects may still be opened: the node
itself takes one, its list of children another. -/
def tree? : (room : Nat) → Json → Option Tree
  | 0, _ => none
  | room + 1, document =>
      match document with
      | .object members => do
          (← members.foldlM (NodeParts.addMember room (trees? room)) {}).tree?
      | .array items =>
          let keys := [some "kind", some "loc", some "text", some "children"]
          if items.length ≤ keys.length then do
            (← (keys.zip items).foldlM (NodeParts.addMember room (trees? room)) {}).tree?
          else none
      | _ => none

def trees? : (room : Nat) → Json → Option (List Tree)
  | 0, _ => none
  | room + 1, document =>
      match document with
      | .array items => items.mapM (tree? room)
      | _ => none

end

end Json

namespace Tree

def ofJson (document : Json) : Except LoadError Tree :=
  match document.tree? Json.depthLimit with
  | none => .error .notTree
  | some tree =>
      match tree.shapeError? with
      | some error => .error (.shape error)
      | none => .ok tree

def load (text : String) : Except LoadError Tree :=
  match Json.read? text with
  | none => .error .notTree
  | some document => ofJson document

end Tree

end OcLang
