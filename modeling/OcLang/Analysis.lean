import OcLang.Analysis.Numbering
import OcLang.Analysis.Statements

namespace OcLang

/-! ## The analysis of a tree

Scopes are numbered first; then names are resolved and types are propagated.
What was learned is kept beside the annotated tree. -/

structure Analysis where
  symbols : Array Symbol
  globals : Table
  structs : Table
  log : List LogEntry
  diagnostics : Diagnostics
  fault : Option ScopeFault
deriving Repr

namespace Analysis

def ofState (state : AnalysisState) : Analysis :=
  { symbols := state.symbols
    globals := state.scopes.globals
    structs := state.structs
    log := state.log
    diagnostics := state.diagnostics
    fault := state.fault }

def symbol (analysis : Analysis) (id : Nat) : Symbol :=
  analysis.symbols[id]?.getD default

/-! ## The symbol dump

One line per declaration, indented by the number of open scopes. The fields of
a struct follow it, the last declared first. -/

private def withAttributes (start : String) (attributes : String) : String :=
  if attributes == "" then start else start ++ " " ++ attributes

def symbolLine (analysis : Analysis) (name : String) (id : Nat) : String :=
  let symbol := analysis.symbol id
  withAttributes
    (name ++ " (" ++ symbol.location.display ++ ") \x7b" ++ symbol.block.repr ++ "\x7d")
    (symbol.attributes.render symbol.type.structName)

def fieldLine (analysis : Analysis) (owner name : String) (id : Nat) : String :=
  let symbol := analysis.symbol id
  withAttributes
    ("  " ++ name ++ " (" ++ symbol.location.display ++ ") field \x7b" ++ owner ++ "\x7d")
    (Attributes.render { type := symbol.type.flags } symbol.type.structName)

def entryLines (analysis : Analysis) : LogEntry → List String
  | .symbol name id depth =>
      [String.join (List.replicate depth "  ") ++ analysis.symbolLine name id]
  | .struct name id =>
      let fields := ((analysis.symbol id).fields?.getD {}).entries.reverse
      analysis.symbolLine name id ::
        fields.map fun (field, fieldId) => analysis.fieldLine name field fieldId
  | .separator => [""]

def dumpSymbols (analysis : Analysis) : String :=
  String.join ((analysis.log.flatMap analysis.entryLines).map (· ++ "\n"))

end Analysis

def analyze (tree : Tree) : Tree × Analysis :=
  let (annotated, state) := (Statement.check none (Numbering.number tree)).run {}
  (annotated, Analysis.ofState state)

end OcLang
