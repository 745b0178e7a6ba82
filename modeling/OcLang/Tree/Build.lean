import OcLang.Tree

namespace OcLang

/-! ## Building trees by hand

Every construct of the language has a function here that gives it the children
its shape asks for. Positions are lines and columns in one file. -/

structure Position where
  line : UInt32
  column : UInt32
deriving DecidableEq, Repr

/-- The kind of a type node for a word; a word that is no keyword names a struct. -/
def TypeName.ofWord : String → TypeName
  | "void" => .void
  | "int" => .int
  | "char" => .char
  | "bool" => .bool
  | "string" => .string
  | _ => .named

structure TreeBuilder where
  file : UInt32 := 0

namespace TreeBuilder

def node (builder : TreeBuilder) (kind : Kind) (place : Position) (text : String)
    (children : List Tree) : Tree :=
  { kind, location := ⟨builder.file, place.line, place.column⟩, text, children }

def leaf (builder : TreeBuilder) (kind : Kind) (place : Position) (text : String) : Tree :=
  builder.node kind place text []

def root (builder : TreeBuilder) (name : String) (items : List Tree) : Tree :=
  builder.node .root ⟨0, 0⟩ name items

def identifier (builder : TreeBuilder) (place : Position) (name : String) : Tree :=
  builder.leaf .identifier place name

def int (builder : TreeBuilder) (place : Position) (value : Int) : Tree :=
  builder.leaf (.literal .int) place (toString value)

def char (builder : TreeBuilder) (place : Position) (lexeme : String) : Tree :=
  builder.leaf (.literal .char) place lexeme

def string (builder : TreeBuilder) (place : Position) (contents : String) : Tree :=
  builder.leaf (.literal .string) place ("\"" ++ contents ++ "\"")

def null (builder : TreeBuilder) (place : Position) : Tree :=
  builder.leaf (.literal .null) place "null"

def type (builder : TreeBuilder) (word : String) (place : Position) : Tree :=
  builder.leaf (.type (.ofWord word)) place word

/-- A declarator of a scalar or, with a mark, of an array; `naming` is the kind
of the declared name. -/
def declarator (builder : TreeBuilder) (naming : Kind) (isArray : Bool) (word : String)
    (place nameAt : Position) (name : String) : Tree :=
  let mark := if isArray then [builder.leaf .arrayMark place "[]"] else []
  builder.node (.type (.ofWord word)) place word (mark ++ [builder.leaf naming nameAt name])

def struct (builder : TreeBuilder) (place nameAt : Position) (name : String)
    (fields : List Tree) : Tree :=
  builder.node .struct place "struct" (builder.leaf (.type .named) nameAt name :: fields)

def declaration (builder : TreeBuilder) (place : Position) (declarator : Tree)
    (value : Option Tree) : Tree :=
  builder.node .variable place "=" (declarator :: value.toList)

def function (builder : TreeBuilder) (place : Position) (declarator : Tree)
    (parameters : List Tree) (body : Tree) : Tree :=
  builder.node .function place "function"
    [declarator, builder.node .parameters place "(" parameters, body]

def prototype (builder : TreeBuilder) (place : Position) (declarator : Tree)
    (parameters : List Tree) : Tree :=
  builder.node .prototype place "prototype"
    [declarator, builder.node .parameters place "(" parameters]

def block (builder : TreeBuilder) (place : Position) (statements : List Tree) : Tree :=
  builder.node .block place "\x7b" statements

def whileLoop (builder : TreeBuilder) (place : Position) (condition body : Tree) : Tree :=
  builder.node .whileLoop place "while" [condition, body]

def ifThen (builder : TreeBuilder) (place : Position) (condition consequence : Tree) : Tree :=
  builder.node .ifThen place "if" [condition, consequence]

def ifElse (builder : TreeBuilder) (place : Position)
    (condition consequence alternative : Tree) : Tree :=
  builder.node .ifElse place "if" [condition, consequence, alternative]

def returning (builder : TreeBuilder) (place : Position) : Option Tree → Tree
  | some value => builder.node .returnValue place "return" [value]
  | none => builder.leaf .returnVoid place "return"

def assign (builder : TreeBuilder) (place : Position) (target value : Tree) : Tree :=
  builder.node .assign place "=" [target, value]

def operation (builder : TreeBuilder) (kind : Kind) (place : Position)
    (operands : List Tree) : Tree :=
  builder.node kind place (kind.operator?.getD "") operands

def call (builder : TreeBuilder) (place calleeAt : Position) (callee : String)
    (arguments : List Tree) : Tree :=
  builder.node .call place "(" (builder.identifier calleeAt callee :: arguments)

def select (builder : TreeBuilder) (place : Position) (object : Tree) (fieldAt : Position)
    (field : String) : Tree :=
  builder.node .select place "." [object, builder.leaf .field fieldAt field]

def index (builder : TreeBuilder) (place : Position) (array index : Tree) : Tree :=
  builder.node .index place "[" [array, index]

def newStruct (builder : TreeBuilder) (place nameAt : Position) (name : String) : Tree :=
  builder.node (.allocate .struct) place "new" [builder.leaf (.type .named) nameAt name]

def newArray (builder : TreeBuilder) (place : Position) (word : String) (typeAt : Position)
    (size : Tree) : Tree :=
  builder.node (.allocate .array) place "new" [builder.type word typeAt, size]

def newString (builder : TreeBuilder) (place : Position) (size : Tree) : Tree :=
  builder.node (.allocate .string) place "new" [size]

end TreeBuilder

end OcLang
