import OcLang.Tree.Load
import OcLang.Tree.Dump
import OcLang.Oil.Generate

namespace OcLang

/-! ## What a compilation gives -/

inductive OutputKind where
  | ast
  | sym
  | oil
deriving DecidableEq, Repr

namespace OutputKind

def all : List OutputKind := [.ast, .sym, .oil]

def name : OutputKind → String
  | .ast => "ast"
  | .sym => "sym"
  | .oil => "oil"

def ofName? (text : String) : Option OutputKind :=
  all.find? fun kind => kind.name == text

def unknownMessage (text : String) : String :=
  "unknown output kind '" ++ text ++ "' (expected ast, sym or oil)"

end OutputKind

structure Outputs where
  ast : String
  symbols : String
  oil : Option String
  diagnostics : Diagnostics
  fault : Option ScopeFault := none

namespace Outputs

def succeeded (outputs : Outputs) : Bool :=
  outputs.oil.isSome

def get? (outputs : Outputs) : OutputKind → Option String
  | .ast => some outputs.ast
  | .sym => some outputs.symbols
  | .oil => outputs.oil

end Outputs

/-- Analyse a tree and generate code for it unless there are errors, which
warnings may be counted as. -/
def compile (warningsAsErrors : Bool) (root : Tree) : Outputs :=
  let (annotated, analysis) := analyze root
  let diagnostics :=
    if warningsAsErrors then analysis.diagnostics.promoteWarnings else analysis.diagnostics
  { ast := annotated.dump
    symbols := analysis.dumpSymbols
    oil := if diagnostics.hasErrors then none else some (Oil.generate analysis annotated).render
    diagnostics
    fault := analysis.fault }

end OcLang
