import OcLang.Proofs.Tree.Forms

namespace OcLang.Tree

/-! # What a walk over a tree meets

The analysis does not look at every node. It walks from statements to the statements
and the expressions in them, and from expressions to their operands. -/

mutual
def walked : Tree → List Tree
  | tree@⟨.root, _, _, _, children⟩ => tree :: walkedAll children
  | tree@⟨.block, _, _, _, children⟩ => tree :: walkedAll children
  | tree@⟨.function, _, _, _, _ :: _ :: rest⟩ => tree :: walkedBody rest
  | tree@⟨.whileLoop, _, _, _, test :: bodies⟩ => tree :: (test.walked ++ walkedAll bodies)
  | tree@⟨.ifThen, _, _, _, test :: bodies⟩ => tree :: (test.walked ++ walkedAll bodies)
  | tree@⟨.ifElse, _, _, _, test :: bodies⟩ => tree :: (test.walked ++ walkedAll bodies)
  | tree@⟨.variable, _, _, _, _ :: value :: _⟩ => tree :: value.walked
  | tree@⟨.returnValue, _, _, _, value :: _⟩ => tree :: value.walked
  | tree@⟨.call, _, _, _, _ :: arguments⟩ => tree :: walkedAll arguments
  | tree@⟨.select, _, _, _, [object, _]⟩ => tree :: object.walked
  | tree@⟨.index, _, _, _, [array, position]⟩ => tree :: (array.walked ++ position.walked)
  | tree@⟨.allocate .array, _, _, _, [_, size]⟩ => tree :: size.walked
  | tree@⟨.allocate .string, _, _, _, [size]⟩ => tree :: size.walked
  | tree@⟨.assign, _, _, _, [target, value]⟩ => tree :: (target.walked ++ value.walked)
  | tree@⟨.binary _, _, _, _, [left, right]⟩ => tree :: (left.walked ++ right.walked)
  | tree@⟨.unary _, _, _, _, operand :: _⟩ => tree :: operand.walked
  | tree => [tree]

def walkedAll : List Tree → List Tree
  | [] => []
  | tree :: rest => tree.walked ++ walkedAll rest

def walkedBody : List Tree → List Tree
  | [] => []
  | ⟨_, _, _, _, children⟩ :: _ => walkedAll children
end

def inner : Tree → List Tree
  | ⟨.root, _, _, _, children⟩ => children
  | ⟨.block, _, _, _, children⟩ => children
  | ⟨.function, _, _, _, _ :: _ :: body :: _⟩ => body.children
  | ⟨.whileLoop, _, _, _, test :: bodies⟩ => test :: bodies
  | ⟨.ifThen, _, _, _, test :: bodies⟩ => test :: bodies
  | ⟨.ifElse, _, _, _, test :: bodies⟩ => test :: bodies
  | ⟨.variable, _, _, _, _ :: value :: _⟩ => [value]
  | ⟨.returnValue, _, _, _, value :: _⟩ => [value]
  | tree => tree.operands

mutual
def returned : Tree → List Tree
  | ⟨.root, _, _, _, children⟩ => returnedAmong children
  | ⟨.block, _, _, _, children⟩ => returnedAmong children
  | ⟨.whileLoop, _, _, _, _ :: bodies⟩ => returnedAmong bodies
  | ⟨.ifThen, _, _, _, _ :: bodies⟩ => returnedAmong bodies
  | ⟨.ifElse, _, _, _, _ :: bodies⟩ => returnedAmong bodies
  | ⟨.returnValue, _, _, _, value :: _⟩ => [value]
  | _ => []

def returnedAmong : List Tree → List Tree
  | [] => []
  | tree :: rest => tree.returned ++ returnedAmong rest
end

theorem walkedAll_eq_flatMap (trees : List Tree) : walkedAll trees = trees.flatMap walked := by
  induction trees with
  | nil => rfl
  | cons tree rest induction => simp [walkedAll, induction]

theorem walked_eq (tree : Tree) : tree.walked = tree :: tree.inner.flatMap walked := by
  rcases tree with ⟨kind, location, text, note, children⟩
  cases kind with
  | function =>
      rcases children with _ | ⟨first, _ | ⟨second, _ | ⟨⟨_, _, _, _, below⟩, rest⟩⟩⟩ <;>
        simp [walked, inner, operands, walkedBody, walkedAll_eq_flatMap]
  | allocate what =>
      rcases children with _ | ⟨first, _ | ⟨second, _ | ⟨third, rest⟩⟩⟩ <;> cases what <;>
        simp [walked, inner, operands]
  | _ =>
      rcases children with _ | ⟨first, _ | ⟨second, _ | ⟨third, rest⟩⟩⟩ <;>
        simp [walked, inner, operands, walkedAll_eq_flatMap, walkedAll]

theorem mem_walked_self (tree : Tree) : tree ∈ tree.walked := by
  rw [walked_eq]
  exact List.mem_cons_self

theorem mem_walked_of_inner {tree child node : Tree} (member : child ∈ tree.inner)
    (below : node ∈ child.walked) : node ∈ tree.walked := by
  rw [walked_eq]
  exact List.mem_cons_of_mem _ (List.mem_flatMap.mpr ⟨child, member, below⟩)

theorem operands_subset_inner {tree : Tree} : tree.operands ⊆ tree.inner := by
  intro operand member
  unfold operands at member
  split at member <;> simp_all [inner, operands]

theorem inner_root {root : Tree} (isRoot : root.kind = .root) : root.inner = root.children := by
  rcases root with ⟨kind, location, text, note, children⟩
  simp only at isRoot
  subst isRoot
  rfl

theorem children_sublist_walked {root : Tree} (isRoot : root.kind = .root) :
    root.children.Sublist root.walked := by
  have each (trees : List Tree) : trees.Sublist (trees.flatMap walked) := by
    induction trees with
    | nil => exact List.Sublist.refl _
    | cons first rest induction =>
        rw [List.flatMap_cons, walked_eq, List.cons_append]
        exact (induction.trans (List.sublist_append_right _ _)).cons_cons _
  rw [walked_eq, inner_root isRoot]
  exact (each root.children).cons _

/-- Nothing is returned but by statements. -/
theorem returned_eq_nil {tree : Tree} (simple : tree.isCompound = false)
    (other : tree.kind ≠ .returnValue) : tree.returned = [] := by
  unfold returned
  split <;> simp_all [isCompound]

theorem walked_eq_singleton {tree : Tree} (simple : tree.isCompound = false)
    (silent : tree.kind.isSilent = true) : tree.walked = [tree] := by
  have nothing : tree.inner = [] := by
    rcases tree with ⟨kind, location, text, note, children⟩
    cases kind <;> simp [Kind.isSilent] at silent <;>
      rcases children with _ | ⟨first, _ | ⟨second, rest⟩⟩ <;> first | rfl | contradiction
  rw [walked_eq, nothing, List.flatMap_nil]

section

variable {kind : Kind} {location : Location} {text : String} {note : Note}

theorem walked_control (control : kind.isControl = true) (test : Tree) (bodies : List Tree) :
    walked ⟨kind, location, text, note, test :: bodies⟩ =
      ⟨kind, location, text, note, test :: bodies⟩ :: (test.walked ++ walkedAll bodies) := by
  cases kind <;> simp [Kind.isControl] at control <;> simp [walked]

theorem inner_control (control : kind.isControl = true) (test : Tree) (bodies : List Tree) :
    inner ⟨kind, location, text, note, test :: bodies⟩ = test :: bodies := by
  cases kind <;> simp [Kind.isControl] at control <;> rfl

theorem returned_control (control : kind.isControl = true) (test : Tree) (bodies : List Tree) :
    returned ⟨kind, location, text, note, test :: bodies⟩ = returnedAmong bodies := by
  cases kind <;> simp [Kind.isControl] at control <;> simp [returned]

end

end OcLang.Tree
