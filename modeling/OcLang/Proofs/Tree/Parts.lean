import OcLang.Proofs.Tree.Shape

namespace OcLang

/-! # The nodes of an expression

An expression of a well-shaped tree holds values, the names that its operations
mention, and types of allocations. Everything else is part of a statement. -/

namespace Kind

def isTypePart : Kind → Bool
  | .type _ | .arrayMark | .declaredName | .field => true
  | _ => false

def isStatementPart : Kind → Bool
  | .root | .struct | .function | .prototype | .parameters | .variable | .block | .whileLoop
  | .ifThen | .ifElse | .returnValue | .returnVoid => true
  | _ => false

theorem isStatementPart_of_isTypePart {kind : Kind} (part : kind.isTypePart = true) :
    kind.isStatementPart = false := by
  cases kind <;> simp_all [isTypePart, isStatementPart]

end Kind

namespace Tree

/-! ## Types and names -/

section

variable {tree : Tree}

theorem IsShaped.children_eq_nil (shaped : tree.IsShaped)
    (leaf : tree.kind.isNaming = true ∨ tree.kind = .arrayMark ∨ tree.kind = .identifier) :
    tree.children = [] := by
  rcases tree with ⟨kind, location, text, note, children⟩
  have fine := shaped.fault
  cases children with
  | nil => rfl
  | cons first rest => cases kind <;> simp_all [shapeFault?, Kind.isNaming]

theorem IsShaped.preorder_eq (shaped : tree.IsShaped)
    (leaf : tree.kind.isNaming = true ∨ tree.kind = .arrayMark ∨ tree.kind = .identifier) :
    tree.preorder = [tree] := by
  have none := shaped.children_eq_nil leaf
  rcases tree with ⟨kind, location, text, note, children⟩
  simp only at none
  simp [preorder_mk, none]

theorem IsShaped.typeParts (shaped : tree.IsShaped) (type : tree.kind.isType = true) :
    ∀ node ∈ tree.preorder, node.kind.isTypePart = true := by
  rcases tree with ⟨kind, location, text, note, children⟩
  cases kind <;> simp [Kind.isType] at type
  have fine := shaped.fault
  have leaves : ∀ child ∈ children, child.kind.isNaming = true ∨ child.kind = .arrayMark := by
    simp only [shapeFault?, require] at fine
    split at fine
    · rename_i body
      rcases children with _ | ⟨first, _ | ⟨second, _ | ⟨third, rest⟩⟩⟩ <;>
        simp [isDeclaratorBody] at body ⊢
      · exact body.symm
      · exact ⟨.inr body.1, .inl body.2⟩
    · contradiction
  rw [forall_mem_preorder]
  refine ⟨rfl, fun child member => ?_⟩
  have leaf := leaves child member
  rw [(shaped.child member).preorder_eq (leaf.imp id .inl)]
  intro node same
  rw [List.mem_singleton.mp same]
  rcases leaf with naming | mark
  · cases kind : child.kind <;> simp_all [Kind.isNaming, Kind.isTypePart]
  · simp [mark, Kind.isTypePart]

/-- An operator in front of an operand has no other. -/
theorem IsShaped.unary {operator : UnaryOperator} {location : Location} {text : String}
    {note : Note} {operand : Tree} {rest : List Tree}
    (shaped : IsShaped ⟨.unary operator, location, text, note, operand :: rest⟩) : rest = [] := by
  have fault := shaped.fault
  cases rest with
  | nil => rfl
  | cons second more => simp [shapeFault?] at fault

end

/-! ## Operands -/

theorem operandInduction {motive : Tree → Prop}
    (node : ∀ tree : Tree, (∀ operand ∈ tree.operands, motive operand) → motive tree)
    (tree : Tree) : motive tree := by
  induction tree using Tree.induction with
  | node tree induction =>
      apply node
      intro operand member
      exact induction operand (mem_children_of_mem_operands member)

theorem operands_leaf {tree : Tree} (leaf : tree.hasOperands = false) : tree.operands = [] := by
  unfold hasOperands at leaf
  split at leaf <;> simp_all [operands]

structure IsExpression (tree : Tree) : Prop where
  shaped : tree.IsShaped
  pure : ∀ node ∈ tree.preorder, node.kind.isStatementPart = false

namespace IsExpression

variable {tree : Tree} (expression : tree.IsExpression)

include expression

theorem kind : tree.kind.isStatementPart = false :=
  expression.pure tree (mem_preorder_self tree)

theorem operand {operand : Tree} (member : operand ∈ tree.operands) : operand.IsExpression where
  shaped := expression.shaped.child (mem_children_of_mem_operands member)
  pure node inside :=
    expression.pure node (mem_preorder_of_child (mem_children_of_mem_operands member) inside)

end IsExpression

section

variable {β : Type} {here : Tree → List β}
  (plain : ∀ node : Tree, node.kind.isTypePart = true ∨ node.kind = .identifier → here node = [])

include plain

/-- Nothing is found in a type, and nothing in the name that an operation mentions. -/
theorem flatMap_part {tree : Tree} (shaped : tree.IsShaped)
    (part : tree.kind.isType = true ∨ tree.kind = .field ∨ tree.kind = .identifier) :
    tree.preorder.flatMap here = [] := by
  apply List.flatMap_eq_nil_iff.mpr
  intro node inside
  rcases part with type | field | identifier
  · exact plain node (.inl (shaped.typeParts type node inside))
  · rw [shaped.preorder_eq (.inl (by simp [field, Kind.isNaming]))] at inside
    rw [List.mem_singleton.mp inside]
    exact plain tree (.inl (by simp [field, Kind.isTypePart]))
  · rw [shaped.preorder_eq (.inr (.inr identifier))] at inside
    rw [List.mem_singleton.mp inside]
    exact plain tree (.inr identifier)

private theorem flatMap_leaf {tree : Tree} (shaped : tree.IsShaped)
    (expression : tree.kind.isStatementPart = false) (leaf : tree.hasOperands = false) :
    tree.preorder.flatMap here = here tree := by
  rcases tree with ⟨kind, location, text, note, children⟩
  rw [preorder_mk, List.flatMap_cons]
  suffices none : (children.flatMap preorder).flatMap here = [] by simp [none]
  by_cases type : kind.isType = true
  · have whole := flatMap_part plain shaped (.inl type)
    rw [preorder_mk, List.flatMap_cons] at whole
    exact (List.append_eq_nil_iff.mp whole).2
  · have fine := shaped.fault
    by_cases allocates : ∃ object, kind = .allocate .struct ∧ children = [object]
    · rcases allocates with ⟨object, rfl, rfl⟩
      have named : object.kind = .type .named := by simpa [shapeFault?, require] using fine
      have part := flatMap_part plain (shaped.child List.mem_cons_self)
        (.inl (by simp [named, Kind.isType]))
      simpa using part
    · suffices empty : children = [] by simp [empty]
      rcases children with _ | ⟨first, _ | ⟨second, _ | ⟨third, rest⟩⟩⟩ <;> cases kind with
      | allocate what => cases what <;> simp_all [shapeFault?, hasOperands]
      | _ => simp_all [shapeFault?, hasOperands, Kind.isStatementPart, Kind.isType]

theorem flatMap_preorder {tree : Tree} (shaped : tree.IsShaped)
    (expression : tree.kind.isStatementPart = false) :
    tree.preorder.flatMap here =
      here tree ++ tree.operands.flatMap fun operand => operand.preorder.flatMap here := by
  have child {child : Tree} (member : child ∈ tree.children) := shaped.child member
  have fault := shaped.fault
  cases form : tree.hasOperands with
  | false => simpa [operands_leaf form] using flatMap_leaf plain shaped expression form
  | true =>
      unfold hasOperands at form
      split at form
      -- The parts that are no operands are a callee, a field and the type of an array.
      · rename_i location text note callee arguments
        have identifier : callee.kind = .identifier := by
          simpa [shapeFault?, require] using fault
        have part := flatMap_part plain (child List.mem_cons_self) (.inr (.inr identifier))
        simp [preorder_mk, operands, List.flatMap_assoc, part]
      · rename_i location text note object field
        have named : field.kind = .field := by simpa [shapeFault?, require] using fault
        have shapedField : field.IsShaped := child (by simp)
        have part := flatMap_part plain shapedField (.inr (.inl named))
        simp [preorder_mk, operands, List.flatMap_append, part]
      · simp [preorder_mk, operands, List.flatMap_append]
      · rename_i location text note type size
        have element : type.kind.isType = true := by simpa [shapeFault?, require] using fault
        have part := flatMap_part plain (child List.mem_cons_self) (.inl element)
        simp [preorder_mk, operands, List.flatMap_append, part]
      · simp [preorder_mk, operands]
      · simp [preorder_mk, operands, List.flatMap_append]
      · simp [preorder_mk, operands, List.flatMap_append]
      · rename_i operator location text note operand rest
        simp [preorder_mk, operands, shaped.unary]
      · contradiction

end

theorem IsExpression.of_operands {tree : Tree} (shaped : tree.IsShaped)
    (expression : tree.kind.isStatementPart = false)
    (each : ∀ operand ∈ tree.operands, operand.IsExpression) : tree.IsExpression where
  shaped := shaped
  pure := by
    let here : Tree → List Tree := fun node => if node.kind.isStatementPart then [node] else []
    have found : tree.preorder.flatMap here =
        here tree ++ tree.operands.flatMap fun operand => operand.preorder.flatMap here := by
      apply flatMap_preorder _ shaped expression
      intro node part
      rcases part with type | identifier
      · simp [here, Kind.isStatementPart_of_isTypePart type]
      · simp [here, identifier, Kind.isStatementPart]
    have none : (tree.operands.flatMap fun operand => operand.preorder.flatMap here) = [] := by
      simp only [List.flatMap_eq_nil_iff]
      intro operand member node inside
      simp [here, (each operand member).pure node inside]
    rw [none] at found
    simpa [here, expression, List.flatMap_eq_nil_iff] using found

/-! ## Kinds alone

Some things about a tree depend on the kinds of its nodes only. -/

mutual
def skeleton : Tree → Tree
  | ⟨kind, _, _, _, children⟩ => ⟨kind, {}, "", {}, skeletonAll children⟩

def skeletonAll : List Tree → List Tree
  | [] => []
  | tree :: rest => tree.skeleton :: skeletonAll rest
end

section

variable {kind : Kind} {location : Location} {text : String} {note : Note} {children : List Tree}

@[simp] theorem skeleton_mk :
    skeleton ⟨kind, location, text, note, children⟩ =
      ⟨kind, {}, "", {}, children.map skeleton⟩ := by
  have all : ∀ trees : List Tree, skeletonAll trees = trees.map skeleton := by
    intro trees
    induction trees with
    | nil => rfl
    | cons tree rest induction => simp [skeletonAll, induction]
  rw [skeleton, all]

@[simp] theorem kind_skeleton (tree : Tree) : tree.skeleton.kind = tree.kind := by
  cases tree
  simp

@[simp] theorem children_skeleton (tree : Tree) :
    tree.skeleton.children = tree.children.map skeleton := by
  cases tree
  simp

@[simp] theorem operands_skeleton (tree : Tree) :
    tree.skeleton.operands = tree.operands.map skeleton := by
  rcases tree with ⟨kind, location, text, note, children⟩
  rcases children with _ | ⟨first, _ | ⟨second, _ | ⟨third, rest⟩⟩⟩ <;> cases kind with
  | allocate what => cases what <;> simp [operands]
  | _ => simp [operands]

theorem preorder_skeleton (tree : Tree) : tree.skeleton.preorder = tree.preorder.map skeleton :=
  preorder_of_children children_skeleton tree

@[simp] theorem declares_skeleton (nameKind : Kind) (tree : Tree) :
    tree.skeleton.declares nameKind = tree.declares nameKind := by
  simp only [declares, declaredName?, kind_skeleton, children_skeleton, List.getLast?_map]
  cases tree.children.getLast? with
  | none => rfl
  | some last => cases naming : last.kind.isNaming <;> simp [Option.filter, naming]

theorem shapeFault?_skeleton (tree : Tree) : tree.skeleton.shapeFault? = tree.shapeFault? := by
  rcases tree with ⟨kind, location, text, note, children⟩
  have sameKinds : (children.map skeleton).map (·.kind) = children.map (·.kind) := by simp
  rcases children with _ | ⟨first, _ | ⟨second, _ | ⟨third, _ | ⟨fourth, rest⟩⟩⟩⟩ <;>
    cases kind with
    | allocate what => cases what <;> simp [shapeFault?]
    | _ => simp_all [shapeFault?, headingFault?, Function.comp_def]

theorem isShaped_skeleton {tree : Tree} : tree.skeleton.IsShaped ↔ tree.IsShaped := by
  simp only [isShaped_iff, preorder_skeleton, List.forall_mem_map, shapeFault?_skeleton]

theorem isExpression_skeleton {tree : Tree} : tree.skeleton.IsExpression ↔ tree.IsExpression := by
  constructor
  · intro expression
    refine ⟨isShaped_skeleton.mp expression.shaped, fun node inside => ?_⟩
    have pure := expression.pure node.skeleton (by
      rw [preorder_skeleton]
      exact List.mem_map_of_mem inside)
    simpa using pure
  · intro expression
    refine ⟨isShaped_skeleton.mpr expression.shaped, fun node inside => ?_⟩
    rw [preorder_skeleton] at inside
    rcases List.mem_map.mp inside with ⟨other, member, rfl⟩
    simpa using expression.pure other member

end

end Tree

end OcLang
