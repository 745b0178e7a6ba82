import OcLang.Proofs.Tree.Skeleton

namespace OcLang

def Kind.isControl : Kind → Bool
  | .whileLoop | .ifThen | .ifElse => true
  | _ => false

/-- Parts of declarations, and what is left of statements without children: nothing
in them uses or declares a name. -/
def Kind.isSilent : Kind → Bool
  | .returnVoid | .function | .prototype | .whileLoop | .ifThen | .ifElse | .field | .type _
  | .arrayMark | .declaredName | .parameters => true
  | _ => false

def Kind.isConstant : Kind → Bool
  | .literal _ | .allocate _ => true
  | _ => false

def Kind.isExpression : Kind → Bool
  | .assign | .binary _ | .unary _ | .call | .allocate _ | .index | .select | .identifier
  | .literal _ => true
  | _ => false

/-! ## The forms of expressions

An expression with operands has one of a few forms; every other tree stands for
itself. Several walks tell these forms apart in the same way, so that one
induction serves them all. -/

namespace Tree

def hasOperands : Tree → Bool
  | ⟨.call, _, _, _, _ :: _⟩ => true
  | ⟨.select, _, _, _, [_, _]⟩ => true
  | ⟨.index, _, _, _, [_, _]⟩ => true
  | ⟨.allocate .array, _, _, _, [_, _]⟩ => true
  | ⟨.allocate .string, _, _, _, [_]⟩ => true
  | ⟨.assign, _, _, _, [_, _]⟩ => true
  | ⟨.binary _, _, _, _, [_, _]⟩ => true
  | ⟨.unary _, _, _, _, _ :: _⟩ => true
  | _ => false

@[simp] theorem hasOperands_bare (tree : Tree) : tree.bare.hasOperands = tree.hasOperands := by
  obtain ⟨kind, location, text, note, children⟩ := tree
  rcases children with _ | ⟨first, _ | ⟨second, _ | ⟨third, rest⟩⟩⟩ <;> cases kind with
  | allocate what => cases what <;> rfl
  | _ => rfl

def operands : Tree → List Tree
  | ⟨.call, _, _, _, _ :: arguments⟩ => arguments
  | ⟨.select, _, _, _, [object, _]⟩ => [object]
  | ⟨.index, _, _, _, [array, position]⟩ => [array, position]
  | ⟨.allocate .array, _, _, _, [_, size]⟩ => [size]
  | ⟨.allocate .string, _, _, _, [size]⟩ => [size]
  | ⟨.assign, _, _, _, [target, value]⟩ => [target, value]
  | ⟨.binary _, _, _, _, [left, right]⟩ => [left, right]
  | ⟨.unary _, _, _, _, operand :: _⟩ => [operand]
  | _ => []

theorem mem_children_of_mem_operands {tree operand : Tree} (member : operand ∈ tree.operands) :
    operand ∈ tree.children := by
  unfold operands at member
  split at member <;> simp_all

theorem expressionInduction {motive : Tree → Prop}
    (call : ∀ location text note callee arguments,
      (∀ argument ∈ arguments, motive argument) →
      motive ⟨.call, location, text, note, callee :: arguments⟩)
    (select : ∀ location text note object field, motive object →
      motive ⟨.select, location, text, note, [object, field]⟩)
    (index : ∀ location text note array position, motive array → motive position →
      motive ⟨.index, location, text, note, [array, position]⟩)
    (newArray : ∀ location text note type size, motive size →
      motive ⟨.allocate .array, location, text, note, [type, size]⟩)
    (newString : ∀ location text note size, motive size →
      motive ⟨.allocate .string, location, text, note, [size]⟩)
    (assign : ∀ location text note target value, motive target → motive value →
      motive ⟨.assign, location, text, note, [target, value]⟩)
    (binary : ∀ operator location text note left right, motive left → motive right →
      motive ⟨.binary operator, location, text, note, [left, right]⟩)
    (unary : ∀ operator location text note operand rest, motive operand →
      motive ⟨.unary operator, location, text, note, operand :: rest⟩)
    (leaf : ∀ node, node.hasOperands = false → motive node) (tree : Tree) : motive tree := by
  induction tree using Tree.induction with
  | node tree children =>
      cases form : tree.hasOperands with
      | false => exact leaf tree form
      | true =>
          unfold hasOperands at form
          split at form <;> simp at children form
          · exact call _ _ _ _ _ children.2
          · exact select _ _ _ _ _ children.1
          · exact index _ _ _ _ _ children.1 children.2
          · exact newArray _ _ _ _ _ children.2
          · exact newString _ _ _ _ children
          · exact assign _ _ _ _ _ children.1 children.2
          · exact binary _ _ _ _ _ _ children.1 children.2
          · exact unary _ _ _ _ _ _ children.1

/-! ## The forms of statements

Statements that hold other statements have one of a few forms. The rule for
loops and branches is the same for all of them: a condition, then bodies. -/

def isCompound : Tree → Bool
  | ⟨.root, _, _, _, _⟩ => true
  | ⟨.block, _, _, _, _⟩ => true
  | ⟨.function, _, _, _, _ :: _ :: _⟩ => true
  | ⟨.prototype, _, _, _, _ :: _ :: _⟩ => true
  | ⟨.whileLoop, _, _, _, _ :: _⟩ => true
  | ⟨.ifThen, _, _, _, _ :: _⟩ => true
  | ⟨.ifElse, _, _, _, _ :: _⟩ => true
  | _ => false

@[simp] theorem isCompound_bare (tree : Tree) : tree.bare.isCompound = tree.isCompound := by
  obtain ⟨kind, location, text, note, children⟩ := tree
  rcases children with _ | ⟨first, _ | ⟨second, rest⟩⟩ <;> cases kind <;> rfl

/-- A function body is not a statement itself; what it holds is. -/
theorem statementInduction {motive : Tree → Prop}
    (root : ∀ location text note children, (∀ child ∈ children, motive child) →
      motive ⟨.root, location, text, note, children⟩)
    (block : ∀ location text note children, (∀ child ∈ children, motive child) →
      motive ⟨.block, location, text, note, children⟩)
    (function : ∀ location text note declarator parameters rest,
      (∀ body ∈ rest, ∀ child ∈ body.children, motive child) →
      motive ⟨.function, location, text, note, declarator :: parameters :: rest⟩)
    (prototype : ∀ location text note declarator parameters rest,
      motive ⟨.prototype, location, text, note, declarator :: parameters :: rest⟩)
    (control : ∀ kind location text note test bodies, kind.isControl = true →
      (∀ body ∈ bodies, motive body) →
      motive ⟨kind, location, text, note, test :: bodies⟩)
    (simple : ∀ tree, tree.isCompound = false → motive tree) (tree : Tree) : motive tree := by
  -- The statements of a function body are its grandchildren.
  suffices both : motive tree ∧ ∀ child ∈ tree.children, motive child from both.1
  induction tree using Tree.induction with
  | node tree induction =>
      refine ⟨?_, fun child member => (induction child member).1⟩
      cases form : tree.isCompound with
      | false => exact simple tree form
      | true =>
          unfold isCompound at form
          split at form <;> simp at induction form
          · exact root _ _ _ _ fun child member => (induction child member).1
          · exact block _ _ _ _ fun child member => (induction child member).1
          · exact function _ _ _ _ _ _ fun body member => (induction.2.2 body member).2
          · exact prototype _ _ _ _ _ _
          all_goals exact control _ _ _ _ _ _ rfl fun body member => (induction.2 body member).1

end Tree

end OcLang
