import OcLang.NamePool
import OcLang.Outputs

namespace OcLang

/-! ## Sessions

A session compiles one tree after another with the same settings. The trees
share one copy of each text; nothing else is kept from one tree to the next. -/

structure Session where
  names : NamePool := {}
  warningsAsErrors : Bool := false
deriving Repr, Inhabited

namespace Session

def compile (tree : Tree) : StateM Session Outputs := fun session =>
  let (tree, names) := tree.shareTexts.run session.names
  (OcLang.compile session.warningsAsErrors tree, { session with names })

def compileAll : List Tree → StateM Session (List Outputs)
  | [] => pure []
  | tree :: rest => do
      let first ← compile tree
      let rest ← compileAll rest
      return first :: rest

end Session

end OcLang
