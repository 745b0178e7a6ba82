import OcLang.Analysis
import OcLang.Proofs.Tree.Forms

namespace OcLang

/-! # The forms of trees in the analysis

Both walks over statements, the one that numbers scopes and the one that checks
names and types, go into statements of a few forms only. The walk over
expressions goes into those that have operands. -/

theorem Expression.check_leaf {node : Tree} (leaf : node.hasOperands = false) :
    check node = closed node := by
  unfold Tree.hasOperands at leaf
  split at leaf <;> simp_all [check]

section

variable {kind : Kind} (control : kind.isControl = true) (location : Location) (text : String)
  (note : Note) (test : Tree) (bodies : List Tree)

include control

theorem Numbering.statement_control (scope : Option Nat) :
    statement scope ⟨kind, location, text, note, test :: bodies⟩ = (do
      let bodies ← statements scope bodies
      return ⟨kind, location, text, placeNote scope note, place scope test :: bodies⟩) := by
  cases kind <;> simp [Kind.isControl] at control <;> simp only [statement]

theorem Statement.check_control (result : Option ValueType) :
    check result ⟨kind, location, text, note, test :: bodies⟩ = (do
      let test ← condition test
      let bodies ← checkAll result bodies
      return ⟨kind, location, text, note, test :: bodies⟩) := by
  cases kind <;> simp [Kind.isControl] at control <;> simp only [check]

end

section

variable {tree : Tree} (simple : tree.isCompound = false)

include simple

theorem Numbering.statement_simple (scope : Option Nat) :
    statement scope tree = pure (place scope tree) := by
  unfold Tree.isCompound at simple
  split at simple <;> simp_all [statement]

theorem Statement.check_simple (result : Option ValueType) :
    check result tree = Statement.simple result tree := by
  unfold Tree.isCompound at simple
  split at simple <;> simp_all [check]

end

end OcLang
