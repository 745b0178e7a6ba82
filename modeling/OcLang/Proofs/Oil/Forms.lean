import OcLang.Oil.Lower
import OcLang.Proofs.Tree.Forms

namespace OcLang.Oil

/-! # The forms of trees in code

Trees that are not of one of the forms with operands or statements are lowered by
themselves. -/

section

variable {analysis : Analysis}

/-- Of the expressions without operands only a new struct computes a value. -/
theorem lower_leaf {node : Tree} (leaf : node.hasOperands = false)
    (other : ¬∃ location text note type, node =
      ⟨.allocate .struct, location, text, note, [type]⟩) :
    lower analysis node = pure (lowerLeaf analysis node) := by
  rcases node with ⟨kind, location, text, note, children⟩
  cases kind with
  | unary | call | binary | select | index | assign =>
      rcases children with _ | ⟨first, _ | ⟨second, _ | ⟨third, rest⟩⟩⟩ <;>
        first | rfl | contradiction
  | allocate what =>
      rcases children with _ | ⟨first, _ | ⟨second, _ | ⟨third, rest⟩⟩⟩ <;> cases what <;>
        first | rfl | contradiction | exact absurd ⟨_, _, _, _, rfl⟩ other
  | _ => rfl

theorem lowerStatement_simple {tree : Tree} (simple : tree.isCompound = false)
    (placement : Placement) :
    lowerStatement analysis placement tree = lowerSimple analysis placement tree := by
  unfold Tree.isCompound at simple
  split at simple <;> simp_all [lowerStatement]

end

end OcLang.Oil
