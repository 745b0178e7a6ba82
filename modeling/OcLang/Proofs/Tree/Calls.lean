import OcLang.Proofs.Oil.Spelling
import OcLang.Proofs.Tree.Parts

namespace OcLang.Tree

/-! # Calls in expressions

A call takes effect where its operand is written. In an expression most calls
are held in temporaries; those that are not stand loose in its operand. -/

def calledHere : Tree → List String
  | ⟨.call, _, _, _, callee :: _⟩ => [callee.text]
  | _ => []

def calledNames (tree : Tree) : List String :=
  tree.preorder.flatMap calledHere

mutual
def looseNames : Tree → List String
  | ⟨.call, _, _, _, callee :: arguments⟩ => callee.text :: looseNamesAll arguments
  | ⟨.select, _, _, _, [object, _]⟩ => looseNames object
  | ⟨.index, _, _, _, [array, position]⟩ => looseNames array ++ looseNames position
  | ⟨.unary .ord, _, _, _, [operand]⟩ => looseNames operand
  | ⟨.unary .chr, _, _, _, [operand]⟩ => looseNames operand
  | ⟨.assign, _, _, _, [target, _]⟩ => looseNames target
  | _ => []

def looseNamesAll : List Tree → List String
  | [] => []
  | tree :: rest => looseNames tree ++ looseNamesAll rest
end

def repeatedHere : Tree → List String
  | ⟨.assign, _, _, _, [target, _]⟩ => target.looseNames
  | _ => []

def repeatedNames (tree : Tree) : List String :=
  tree.preorder.flatMap repeatedHere

/-- An expression without a use for its value: its operand is not written, so that
every call must be held in a temporary or stand in the target of an assignment that
is not written again. -/
def settlesCalls : Tree → Bool
  | ⟨.call, _, _, _, _ :: _⟩ => false
  | ⟨.select, _, _, _, [object, _]⟩ => settlesCalls object
  | ⟨.index, _, _, _, [array, position]⟩ => settlesCalls array && settlesCalls position
  | ⟨.unary .ord, _, _, _, [operand]⟩ => settlesCalls operand
  | ⟨.unary .chr, _, _, _, [operand]⟩ => settlesCalls operand
  | ⟨.assign, _, _, _, [target, value]⟩ =>
      target.repeatedNames.isEmpty && value.repeatedNames.isEmpty
  | node => node.repeatedNames.isEmpty

def looseOperands : Tree → List Tree
  | ⟨.call, _, _, _, _ :: arguments⟩ => arguments
  | ⟨.select, _, _, _, [object, _]⟩ => [object]
  | ⟨.index, _, _, _, [array, position]⟩ => [array, position]
  | ⟨.unary .ord, _, _, _, [operand]⟩ => [operand]
  | ⟨.unary .chr, _, _, _, [operand]⟩ => [operand]
  | ⟨.assign, _, _, _, [target, _]⟩ => [target]
  | _ => []

theorem looseNames_eq (tree : Tree) :
    tree.looseNames = calledHere tree ++ tree.looseOperands.flatMap looseNames := by
  have all : ∀ trees : List Tree, looseNamesAll trees = trees.flatMap looseNames := by
    intro trees
    induction trees with
    | nil => rfl
    | cons tree rest induction => simp [looseNamesAll, induction]
  unfold looseNames
  split <;> simp_all [calledHere, looseOperands]

theorem mem_operands_of_loose {tree operand : Tree} (loose : operand ∈ tree.looseOperands) :
    operand ∈ tree.operands := by
  unfold looseOperands at loose
  split at loose <;> simp_all [operands]

section

variable {tree : Tree}

theorem calledNames_mk (kind : Kind) (location : Location) (text : String) (note : Note)
    (children : List Tree) :
    calledNames ⟨kind, location, text, note, children⟩ =
      calledHere ⟨kind, location, text, note, children⟩ ++ children.flatMap calledNames := by
  rw [calledNames, preorder_mk, List.flatMap_cons, List.flatMap_assoc]
  rfl

theorem IsExpression.calledNames_eq (expression : tree.IsExpression) :
    tree.calledNames = calledHere tree ++ tree.operands.flatMap calledNames := by
  apply flatMap_preorder _ expression.shaped expression.kind
  intro node part
  rcases node with ⟨kind, location, text, note, children⟩
  cases kind <;> simp_all [calledHere, Kind.isTypePart]

theorem IsExpression.repeatedNames_eq (expression : tree.IsExpression) :
    tree.repeatedNames = repeatedHere tree ++ tree.operands.flatMap repeatedNames := by
  apply flatMap_preorder _ expression.shaped expression.kind
  intro node part
  rcases node with ⟨kind, location, text, note, children⟩
  cases kind <;> simp_all [repeatedHere, Kind.isTypePart]

/-- The calls that are loose or written again are calls of the expression. -/
theorem IsExpression.loose_subset (expression : tree.IsExpression) :
    tree.looseNames ⊆ tree.calledNames := by
  induction tree using Tree.operandInduction with
  | node tree induction =>
      rw [looseNames_eq, expression.calledNames_eq]
      intro name member
      rcases List.mem_append.mp member with here | below
      · exact List.mem_append_left _ here
      · rcases List.mem_flatMap.mp below with ⟨operand, loose, inside⟩
        have known := mem_operands_of_loose loose
        apply List.mem_append_right
        exact List.mem_flatMap.mpr
          ⟨operand, known, induction operand known (expression.operand known) inside⟩

theorem IsExpression.repeated_subset (expression : tree.IsExpression) :
    tree.repeatedNames ⊆ tree.calledNames := by
  induction tree using Tree.operandInduction with
  | node tree induction =>
      have whole := expression.loose_subset
      rw [expression.repeatedNames_eq]
      intro name member
      rcases List.mem_append.mp member with here | below
      · -- An assignment has the loose calls of its target.
        apply whole
        unfold repeatedHere at here
        split at here
        · simpa [looseNames] using here
        · simp at here
      · rcases List.mem_flatMap.mp below with ⟨operand, known, inside⟩
        rw [expression.calledNames_eq]
        apply List.mem_append_right
        exact List.mem_flatMap.mpr
          ⟨operand, known, induction operand known (expression.operand known) inside⟩

end

/-! ## When nothing is lost and nothing is repeated

The calls of an expression are told apart by their names. If they all differ, then
an expression settles its calls just when those that are lost with its operand are
those that were written again. -/

section

variable {α : Type} [DecidableEq α]

/-- Lists with members from two sets that have nothing in common. -/
theorem perm_of_disjoint {first second third fourth known other : List α}
    (firstKnown : first ⊆ known) (thirdKnown : third ⊆ known) (secondOther : second ⊆ other)
    (fourthOther : fourth ⊆ other) (disjoint : ∀ item ∈ known, item ∉ other)
    (perm : (first ++ second).Perm (third ++ fourth)) :
    first.Perm third ∧ second.Perm fourth := by
  have keep {list : List α} (sub : list ⊆ known) : list.filter (· ∈ known) = list :=
    List.filter_eq_self.mpr fun item member => by simpa using sub member
  have drop {list : List α} (sub : list ⊆ other) : list.filter (· ∈ known) = [] :=
    List.filter_eq_nil_iff.mpr fun item member inside =>
      disjoint item (by simpa using inside) (sub member)
  have filtered := perm.filter (· ∈ known)
  simp only [List.filter_append, keep firstKnown, keep thirdKnown, drop secondOther,
    drop fourthOther, List.append_nil] at filtered
  refine ⟨filtered, ?_⟩
  exact (List.perm_append_left_iff third).mp ((filtered.symm.append_right second).trans perm)

end

theorem looseNames_leaf {tree : Tree} (leaf : tree.hasOperands = false) :
    tree.looseNames = [] := by
  unfold hasOperands at leaf
  split at leaf <;> simp_all [looseNames]

theorem settlesCalls_leaf {tree : Tree} (leaf : tree.hasOperands = false) :
    tree.settlesCalls = tree.repeatedNames.isEmpty := by
  unfold hasOperands at leaf
  split at leaf <;> simp_all [settlesCalls]

/-- An expression that settles its calls loses those that are written again. -/
theorem IsExpression.perm_of_settles {tree : Tree} (expression : tree.IsExpression)
    (settles : tree.settlesCalls = true) : tree.looseNames.Perm tree.repeatedNames := by
  induction tree using Tree.expressionInduction with
  | call location text note callee arguments induction => simp [settlesCalls] at settles
  | select location text note object field induction =>
      have below := induction (expression.operand (by simp [operands])) settles
      simpa [expression.repeatedNames_eq, looseNames, repeatedHere, operands] using below
  | index location text note array position first second =>
      simp only [settlesCalls, Bool.and_eq_true] at settles
      have left := first (expression.operand (by simp [operands])) settles.1
      have right := second (expression.operand (by simp [operands])) settles.2
      simpa [expression.repeatedNames_eq, looseNames, repeatedHere, operands] using
        left.append right
  | assign location text note target value first second =>
      simp only [settlesCalls, Bool.and_eq_true, List.isEmpty_iff] at settles
      simp [expression.repeatedNames_eq, looseNames, repeatedHere, operands, settles]
  | unary operator location text note operand rest induction =>
      have single := expression.shaped.unary
      subst single
      cases operator with
      | ord | chr =>
          have below := induction (expression.operand (by simp [operands])) settles
          simpa [expression.repeatedNames_eq, looseNames, repeatedHere, operands] using below
      | _ => simp_all [settlesCalls, looseNames]
  | leaf node leaf => simp_all [settlesCalls_leaf leaf, looseNames_leaf leaf]
  | _ => simp_all [settlesCalls, looseNames]

/-- If no two calls have the same name, nothing else balances. -/
theorem IsExpression.settles_of_perm {tree : Tree} (expression : tree.IsExpression)
    (apart : tree.calledNames.Nodup) (perm : tree.looseNames.Perm tree.repeatedNames) :
    tree.settlesCalls = true := by
  induction tree using Tree.expressionInduction with
  | call location text note callee arguments induction =>
      -- The call itself is lost, but nothing writes it again.
      have lost : callee.text ∈ looseNames ⟨.call, location, text, note, callee :: arguments⟩ := by
        simp [looseNames]
      have again := perm.subset lost
      rw [expression.repeatedNames_eq] at again
      rw [expression.calledNames_eq] at apart
      simp only [repeatedHere, operands, List.nil_append, List.mem_flatMap] at again
      rcases again with ⟨argument, member, inside⟩
      have ofArgument : argument.IsExpression := expression.operand member
      have called := ofArgument.repeated_subset inside
      simp only [calledHere, operands, List.singleton_append, List.nodup_cons] at apart
      exact absurd (List.mem_flatMap.mpr ⟨argument, member, called⟩) apart.1
  | select location text note object field induction =>
      apply induction (expression.operand (by simp [operands]))
      · simpa [expression.calledNames_eq, calledHere, operands] using apart
      · simpa [expression.repeatedNames_eq, looseNames, repeatedHere, operands] using perm
  | index location text note array position first second =>
      have ofArray : array.IsExpression := expression.operand (by simp [operands])
      have ofPosition : position.IsExpression := expression.operand (by simp [operands])
      simp only [expression.calledNames_eq, calledHere, operands, List.flatMap_cons,
        List.flatMap_nil, List.append_nil, List.nil_append, List.nodup_append] at apart
      simp only [expression.repeatedNames_eq, looseNames, repeatedHere, operands,
        List.flatMap_cons, List.flatMap_nil, List.append_nil, List.nil_append] at perm
      have both := perm_of_disjoint ofArray.loose_subset ofArray.repeated_subset
        ofPosition.loose_subset ofPosition.repeated_subset
        (fun name known other => apart.2.2 name known name other rfl) perm
      simp only [settlesCalls, Bool.and_eq_true]
      exact ⟨first ofArray apart.1 both.1, second ofPosition apart.2.1 both.2⟩
  | assign location text note target value first second =>
      have length := perm.length_eq
      simp only [expression.repeatedNames_eq, looseNames, repeatedHere, operands,
        List.flatMap_cons, List.flatMap_nil, List.append_nil, List.length_append] at length
      simp only [settlesCalls, Bool.and_eq_true, List.isEmpty_iff]
      constructor
      all_goals
        apply List.eq_nil_of_length_eq_zero
        omega
  | unary operator location text note operand rest induction =>
      have single := expression.shaped.unary
      subst single
      cases operator with
      | ord | chr =>
          apply induction (expression.operand (by simp [operands]))
          · simpa [expression.calledNames_eq, calledHere, operands] using apart
          · simpa [expression.repeatedNames_eq, looseNames, repeatedHere, operands] using perm
      | _ => simpa [settlesCalls, looseNames] using perm.symm
  | leaf node leaf => simpa [settlesCalls_leaf leaf, looseNames_leaf leaf] using perm.symm
  | _ => simpa [settlesCalls, looseNames] using perm.symm

/-! ## Names do not matter

How many calls are loose or written again depends on kinds alone. -/

theorem length_calledHere_skeleton (tree : Tree) :
    (calledHere tree.skeleton).length = (calledHere tree).length := by
  rcases tree with ⟨kind, location, text, note, children⟩
  cases kind with
  | call => cases children <;> simp [calledHere]
  | _ => simp [calledHere]

theorem looseOperands_skeleton (tree : Tree) :
    tree.skeleton.looseOperands = tree.looseOperands.map skeleton := by
  rcases tree with ⟨kind, location, text, note, children⟩
  rcases children with _ | ⟨first, _ | ⟨second, _ | ⟨third, rest⟩⟩⟩ <;> cases kind with
  | unary operator => cases operator <;> simp [looseOperands]
  | _ => simp [looseOperands]

theorem length_flatMap_skeleton {names : Tree → List String} {trees : List Tree}
    (each : ∀ tree ∈ trees, (names tree.skeleton).length = (names tree).length) :
    ((trees.map skeleton).flatMap names).length = (trees.flatMap names).length := by
  rw [List.length_flatMap, List.length_flatMap, List.map_map]
  congr 1
  exact List.map_congr_left each

theorem length_looseNames_skeleton (tree : Tree) :
    tree.skeleton.looseNames.length = tree.looseNames.length := by
  induction tree using Tree.operandInduction with
  | node tree induction =>
      rw [looseNames_eq, looseNames_eq tree, looseOperands_skeleton, List.length_append,
        List.length_append, length_calledHere_skeleton,
        length_flatMap_skeleton fun operand loose => induction operand (mem_operands_of_loose loose)]

theorem length_repeatedNames_skeleton (tree : Tree) :
    tree.skeleton.repeatedNames.length = tree.repeatedNames.length := by
  rw [repeatedNames, repeatedNames, preorder_skeleton]
  apply length_flatMap_skeleton
  intro node _
  rcases node with ⟨kind, location, text, note, children⟩
  rcases children with _ | ⟨first, _ | ⟨second, _ | ⟨third, rest⟩⟩⟩ <;> cases kind <;>
    simp [repeatedHere, length_looseNames_skeleton]

theorem isEmpty_repeatedNames_skeleton (tree : Tree) :
    tree.skeleton.repeatedNames.isEmpty = tree.repeatedNames.isEmpty := by
  have same := length_repeatedNames_skeleton tree
  rw [Bool.eq_iff_iff, List.isEmpty_iff_length_eq_zero, List.isEmpty_iff_length_eq_zero, same]

theorem settlesCalls_skeleton (tree : Tree) : tree.skeleton.settlesCalls = tree.settlesCalls := by
  have empty := isEmpty_repeatedNames_skeleton
  induction tree using Tree.expressionInduction with
  | call location text note callee arguments induction => simp [settlesCalls]
  | select location text note object field induction => simpa [settlesCalls] using induction
  | index location text note array position first second =>
      simp only [skeleton_mk, List.map_cons, List.map_nil, settlesCalls, first, second]
  | assign location text note target value first second =>
      simp only [skeleton_mk, List.map_cons, List.map_nil, settlesCalls, empty]
  | unary operator location text note operand rest induction =>
      have whole := empty ⟨.unary operator, location, text, note, operand :: rest⟩
      cases operator <;> cases rest <;> simp_all [settlesCalls]
  | leaf node leaf =>
      have sameLeaf : node.skeleton.hasOperands = false := by
        rcases node with ⟨kind, location, text, note, children⟩
        rcases children with _ | ⟨first, _ | ⟨second, _ | ⟨third, rest⟩⟩⟩ <;> cases kind with
        | allocate what => cases what <;> simp_all [hasOperands]
        | _ => simp_all [hasOperands]
      rw [settlesCalls_leaf sameLeaf, settlesCalls_leaf leaf, empty]
  | newArray location text note type size induction =>
      have whole := empty ⟨.allocate .array, location, text, note, [type, size]⟩
      simpa [settlesCalls] using whole
  | newString location text note size induction =>
      have whole := empty ⟨.allocate .string, location, text, note, [size]⟩
      simpa [settlesCalls] using whole
  | binary operator location text note left right first second =>
      have whole := empty ⟨.binary operator, location, text, note, [left, right]⟩
      simpa [settlesCalls] using whole

end OcLang.Tree
