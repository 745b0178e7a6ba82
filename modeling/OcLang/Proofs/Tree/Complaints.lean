import OcLang.Proofs.Tree.Parts

namespace OcLang

/-! # Nodes of the wrong form

A walk that checks a tree stops at nodes whose children do not fit their kind, and at
nodes that have no value and stand where one belongs. Here these nodes are found without
checking anything else. The shape check leaves only those of the second sort. -/

inductive Lack where
  | part
  | type
  | value
deriving DecidableEq, Repr

structure Complaint where
  lack : Lack
  kind : Kind
  place : Location
deriving DecidableEq, Repr

namespace Kind

/-- Kinds of nodes that have no value: parts of types and of statements. -/
def isValueless (kind : Kind) : Bool :=
  kind.isTypePart || kind.isStatementPart

end Kind

namespace Tree

def lacks (lack : Lack) (tree : Tree) : Complaint where
  lack
  kind := tree.kind
  place := tree.location

/-! ## Expressions -/

def typeComplaints (tree : Tree) : List Complaint :=
  if tree.kind.isType then [] else [tree.lacks .type]

def leafComplaints (tree : Tree) : List Complaint :=
  match tree.kind, tree.children with
  | .identifier, _ | .literal _, _ => []
  | .allocate .struct, [type] => type.typeComplaints
  | kind, _ => if kind.isValueless then [tree.lacks .value] else [tree.lacks .part]

mutual
def valueComplaints : Tree → List Complaint
  | ⟨.call, _, _, _, _ :: arguments⟩ => valueComplaintsAll arguments
  | ⟨.select, _, _, _, [object, _]⟩ => object.valueComplaints
  | ⟨.index, _, _, _, [array, position]⟩ => array.valueComplaints ++ position.valueComplaints
  | ⟨.allocate .array, _, _, _, [type, size]⟩ => type.typeComplaints ++ size.valueComplaints
  | ⟨.allocate .string, _, _, _, [size]⟩ => size.valueComplaints
  | ⟨.assign, _, _, _, [target, value]⟩ => target.valueComplaints ++ value.valueComplaints
  | ⟨.binary _, _, _, _, [left, right]⟩ => left.valueComplaints ++ right.valueComplaints
  | ⟨.unary _, _, _, _, operand :: _⟩ => operand.valueComplaints
  | tree => tree.leafComplaints

def valueComplaintsAll : List Tree → List Complaint
  | [] => []
  | tree :: rest => tree.valueComplaints ++ valueComplaintsAll rest
end

/-! ## Statements -/

def declaratorComplaints (tree : Tree) : List Complaint :=
  tree.typeComplaints ++ if tree.declaredName?.isSome then [] else [tree.lacks .part]

def structComplaints : List Tree → List Complaint
  | [] => []
  | name :: declarators =>
      if name.kind = .type .named then declarators.flatMap declaratorComplaints else []

def variableComplaints (tree : Tree) : List Complaint :=
  match tree.children with
  | [] => [tree.lacks .part]
  | declarator :: values =>
      declarator.typeComplaints ++
        if declarator.declaredName?.isSome then valueComplaintsAll values.head?.toList
        else [tree.lacks .part]

def simpleComplaints (tree : Tree) : List Complaint :=
  match tree.kind, tree.children with
  | .struct, children => structComplaints children
  | .variable, _ => tree.variableComplaints
  | .returnValue, value :: _ => value.valueComplaints
  | .returnValue, [] | .function, _ | .prototype, _ | .whileLoop, _ | .ifThen, _ | .ifElse, _ =>
      [tree.lacks .part]
  | .returnVoid, _ | .field, _ | .type _, _ | .arrayMark, _ | .declaredName, _
  | .parameters, _ => []
  | _, _ => tree.valueComplaints

def headingComplaints (kind : Kind) (declarator parameters : Tree) (rest : List Complaint) :
    List Complaint :=
  declarator.typeComplaints ++
    if declarator.declaredName?.isSome then
      parameters.children.flatMap declaratorComplaints ++ rest
    else [{ lack := .part, kind, place := declarator.location }]

mutual
def complaints : Tree → List Complaint
  | ⟨.root, _, _, _, children⟩ => complaintsAll children
  | ⟨.block, _, _, _, children⟩ => complaintsAll children
  | ⟨.function, location, _, _, declarator :: parameters :: rest⟩ =>
      headingComplaints .function declarator parameters (bodyComplaints location rest)
  | ⟨.prototype, _, _, _, declarator :: parameters :: _⟩ =>
      headingComplaints .prototype declarator parameters []
  | ⟨.whileLoop, _, _, _, test :: bodies⟩ => test.valueComplaints ++ complaintsAll bodies
  | ⟨.ifThen, _, _, _, test :: bodies⟩ => test.valueComplaints ++ complaintsAll bodies
  | ⟨.ifElse, _, _, _, test :: bodies⟩ => test.valueComplaints ++ complaintsAll bodies
  | tree => tree.simpleComplaints

def bodyComplaints (place : Location) : List Tree → List Complaint
  | [] => [{ lack := .part, kind := .function, place }]
  | ⟨_, _, _, _, children⟩ :: _ => complaintsAll children

def complaintsAll : List Tree → List Complaint
  | [] => []
  | tree :: rest => tree.complaints ++ complaintsAll rest
end

/-! ## The places of values -/

mutual
/-- A value and the values that it is made from. Nothing is looked for in a node that has
no value. -/
def values : Tree → List Tree
  | tree@⟨.call, _, _, _, _ :: arguments⟩ => tree :: valuesAll arguments
  | tree@⟨.select, _, _, _, [object, _]⟩ => tree :: object.values
  | tree@⟨.index, _, _, _, [array, position]⟩ => tree :: (array.values ++ position.values)
  | tree@⟨.allocate .array, _, _, _, [_, size]⟩ => tree :: size.values
  | tree@⟨.allocate .string, _, _, _, [size]⟩ => tree :: size.values
  | tree@⟨.assign, _, _, _, [target, value]⟩ => tree :: (target.values ++ value.values)
  | tree@⟨.binary _, _, _, _, [left, right]⟩ => tree :: (left.values ++ right.values)
  | tree@⟨.unary _, _, _, _, operand :: _⟩ => tree :: operand.values
  | tree => [tree]

def valuesAll : List Tree → List Tree
  | [] => []
  | tree :: rest => tree.values ++ valuesAll rest
end

/-- The places for a value in a statement that holds no statements: an initializer, a
returned value, or an expression that is a statement. -/
def simpleValues (tree : Tree) : List Tree :=
  match tree.kind, tree.children with
  | .variable, _ :: value :: _ => [value]
  | .returnValue, value :: _ => [value]
  | .struct, _ | .variable, _ | .returnValue, _ => []
  | kind, _ => if kind.isSilent then [] else [tree]

mutual
/-- Everything that stands in a place for a value: in a statement by itself, as a
condition, and in the values found there. -/
def placedValues : Tree → List Tree
  | ⟨.root, _, _, _, children⟩ => placedValuesAll children
  | ⟨.block, _, _, _, children⟩ => placedValuesAll children
  | ⟨.function, _, _, _, _ :: _ :: rest⟩ => placedValuesBody rest
  | ⟨.whileLoop, _, _, _, test :: bodies⟩ => test.values ++ placedValuesAll bodies
  | ⟨.ifThen, _, _, _, test :: bodies⟩ => test.values ++ placedValuesAll bodies
  | ⟨.ifElse, _, _, _, test :: bodies⟩ => test.values ++ placedValuesAll bodies
  | tree => valuesAll tree.simpleValues

def placedValuesBody : List Tree → List Tree
  | [] => []
  | ⟨_, _, _, _, children⟩ :: _ => placedValuesAll children

def placedValuesAll : List Tree → List Tree
  | [] => []
  | tree :: rest => tree.placedValues ++ placedValuesAll rest
end

/-! ## The walks form by form -/

theorem valuesAll_eq_flatMap (trees : List Tree) : valuesAll trees = trees.flatMap values := by
  induction trees with
  | nil => rfl
  | cons tree rest induction => simp [valuesAll, induction]

theorem placedValuesAll_eq_flatMap (trees : List Tree) :
    placedValuesAll trees = trees.flatMap placedValues := by
  induction trees with
  | nil => rfl
  | cons tree rest induction => simp [placedValuesAll, induction]

theorem valueComplaints_leaf {tree : Tree} (leaf : tree.hasOperands = false) :
    tree.valueComplaints = tree.leafComplaints := by
  unfold hasOperands at leaf
  split at leaf <;> simp_all [valueComplaints]

theorem values_leaf {tree : Tree} (leaf : tree.hasOperands = false) : tree.values = [tree] := by
  unfold hasOperands at leaf
  split at leaf <;> simp_all [values]

section

variable {tree : Tree} (simple : tree.isCompound = false)

include simple

theorem complaints_simple : tree.complaints = tree.simpleComplaints := by
  unfold isCompound at simple
  split at simple <;> simp_all [complaints]

theorem placedValues_simple :
    tree.placedValues = valuesAll tree.simpleValues := by
  unfold isCompound at simple
  split at simple <;> simp_all [placedValues]

end

section

variable {kind : Kind} (control : kind.isControl = true) (location : Location) (text : String)
  (note : Note) (test : Tree) (bodies : List Tree)

include control

theorem complaints_control : complaints ⟨kind, location, text, note, test :: bodies⟩ =
    test.valueComplaints ++ complaintsAll bodies := by
  cases kind <;> simp [Kind.isControl] at control <;> rfl

theorem placedValues_control : placedValues ⟨kind, location, text, note, test :: bodies⟩ =
    test.values ++ placedValuesAll bodies := by
  cases kind <;> simp [Kind.isControl] at control <;> rfl

end

/-! ## Notes do not matter -/

@[simp] theorem lacks_bare (lack : Lack) (tree : Tree) :
    tree.bare.lacks lack = tree.lacks lack := by
  simp [lacks]

@[simp] theorem typeComplaints_bare (tree : Tree) :
    tree.bare.typeComplaints = tree.typeComplaints := by
  simp [typeComplaints]

@[simp] theorem declaratorComplaints_bare (tree : Tree) :
    tree.bare.declaratorComplaints = tree.declaratorComplaints := by
  simp [declaratorComplaints]

theorem leafComplaints_bare (tree : Tree) : tree.bare.leafComplaints = tree.leafComplaints := by
  rcases tree with ⟨kind, location, text, note, children⟩
  rcases children with _ | ⟨first, _ | ⟨second, rest⟩⟩ <;> cases kind with
  | allocate what => cases what <;> simp [bare_mk, leafComplaints, lacks]
  | _ => simp [bare_mk, leafComplaints, lacks]

private theorem valueComplaintsAll_bare {trees : List Tree}
    (each : ∀ tree ∈ trees, tree.bare.valueComplaints = tree.valueComplaints) :
    valueComplaintsAll (trees.map bare) = valueComplaintsAll trees := by
  induction trees with
  | nil => rfl
  | cons tree rest induction => simp_all [valueComplaintsAll]

@[simp] theorem valueComplaints_bare (tree : Tree) :
    tree.bare.valueComplaints = tree.valueComplaints := by
  induction tree using Tree.expressionInduction with
  | call location text note callee arguments induction =>
      simpa [bare_mk, valueComplaints] using valueComplaintsAll_bare induction
  | leaf node leaf =>
      rw [valueComplaints_leaf leaf, valueComplaints_leaf (by simpa using leaf),
        leafComplaints_bare]
  | _ => simp_all [bare_mk, valueComplaints]

private theorem declarators_bare (trees : List Tree) :
    (trees.map bare).flatMap declaratorComplaints = trees.flatMap declaratorComplaints := by
  simp [List.flatMap_map]

theorem simpleComplaints_bare (tree : Tree) :
    tree.bare.simpleComplaints = tree.simpleComplaints := by
  have ofExpression := valueComplaints_bare tree
  rcases tree with ⟨kind, location, text, note, children⟩
  rcases children with _ | ⟨first, rest⟩
  · cases kind <;> first | exact ofExpression | rfl
  · cases kind with
    | struct =>
        simp [bare_mk, simpleComplaints, structComplaints, declarators_bare]
    | «variable» =>
        rcases rest with _ | ⟨value, more⟩ <;>
          simp [bare_mk, simpleComplaints, variableComplaints, valueComplaintsAll, lacks]
    | returnValue => simp [bare_mk, simpleComplaints]
    | _ => first | exact ofExpression | rfl

theorem headingComplaints_bare (kind : Kind) (declarator parameters : Tree)
    (rest : List Complaint) :
    headingComplaints kind declarator.bare parameters.bare rest =
      headingComplaints kind declarator parameters rest := by
  simp [headingComplaints, declarators_bare]

private theorem complaintsAll_bare {trees : List Tree}
    (each : ∀ tree ∈ trees, tree.bare.complaints = tree.complaints) :
    complaintsAll (trees.map bare) = complaintsAll trees := by
  induction trees with
  | nil => rfl
  | cons tree rest induction => simp_all [complaintsAll]

theorem complaints_bare (tree : Tree) : tree.bare.complaints = tree.complaints := by
  induction tree using Tree.statementInduction with
  | root location text note children induction =>
      simpa [bare_mk, complaints] using complaintsAll_bare induction
  | block location text note children induction =>
      simpa [bare_mk, complaints] using complaintsAll_bare induction
  | function location text note declarator parameters rest induction =>
      rcases rest with _ | ⟨body, rest⟩
      · simp [bare_mk, complaints, headingComplaints_bare, bodyComplaints]
      · have sameBody := complaintsAll_bare (induction body List.mem_cons_self)
        cases body
        simp_all [bare_mk, complaints, headingComplaints_bare, bodyComplaints]
  | prototype location text note declarator parameters rest =>
      simp [bare_mk, complaints, headingComplaints_bare]
  | control kind location text note test bodies control induction =>
      simp [bare_mk, complaints_control control, complaintsAll_bare induction]
  | simple tree simple =>
      rw [complaints_simple simple, complaints_simple (by simpa using simple),
        simpleComplaints_bare]

/-! ## Well-shaped trees -/

def valueless (trees : List Tree) : List Complaint :=
  (trees.filter (·.kind.isValueless)).map (lacks .value)

theorem valueless_append (trees more : List Tree) :
    valueless (trees ++ more) = valueless trees ++ valueless more := by
  simp [valueless]

theorem valueless_cons_of_valued {tree : Tree} (valued : tree.kind.isValueless = false)
    (rest : List Tree) : valueless (tree :: rest) = valueless rest := by
  simp [valueless, valued]

private theorem valueless_valuesAll {trees : List Tree}
    (each : ∀ tree ∈ trees, tree.valueComplaints = valueless tree.values) :
    valueComplaintsAll trees = valueless (valuesAll trees) := by
  induction trees with
  | nil => rfl
  | cons tree rest induction =>
      rw [List.forall_mem_cons] at each
      rw [valueComplaintsAll, valuesAll, valueless_append, each.1, induction each.2]

theorem typeComplaints_eq_nil {tree : Tree} (type : tree.kind.isType = true) :
    tree.typeComplaints = [] := by
  simp [typeComplaints, type]

theorem leafComplaints_eq {tree : Tree} (shaped : tree.IsShaped)
    (leaf : tree.hasOperands = false) : tree.leafComplaints = valueless [tree] := by
  have fine := shaped.fault
  rcases tree with ⟨kind, location, text, note, children⟩
  cases kind with
  | call | select | index | assign | binary | unary =>
      rcases children with _ | ⟨first, _ | ⟨second, _ | ⟨third, rest⟩⟩⟩ <;>
        simp_all [shapeFault?, hasOperands]
  | allocate what =>
      rcases children with _ | ⟨first, _ | ⟨second, _ | ⟨third, rest⟩⟩⟩ <;> cases what <;>
        simp [shapeFault?, require, hasOperands] at fine leaf
      simp [leafComplaints, typeComplaints, fine, Kind.isType, valueless, Kind.isValueless,
        Kind.isTypePart, Kind.isStatementPart]
  | _ => rfl

theorem IsShaped.valueComplaints {tree : Tree} (shaped : tree.IsShaped) :
    tree.valueComplaints = valueless tree.values := by
  induction tree using Tree.expressionInduction with
  | call location text note callee arguments induction =>
      rw [Tree.valueComplaints, values, valueless_cons_of_valued rfl]
      exact valueless_valuesAll fun argument member =>
        induction argument member (shaped.child (List.mem_cons_of_mem _ member))
  | newArray location text note type size induction =>
      have element : type.kind.isType = true := by
        simpa [shapeFault?, require] using shaped.fault
      rw [Tree.valueComplaints, values, valueless_cons_of_valued rfl, typeComplaints_eq_nil element]
      exact induction (shaped.child (by simp))
  | select location text note object field induction
  | newString location text note size induction
  | unary operator location text note operand rest induction =>
      rw [Tree.valueComplaints, values, valueless_cons_of_valued rfl]
      exact induction (shaped.child (by simp))
  | index location text note first second induction other
  | assign location text note first second induction other
  | binary operator location text note first second induction other =>
      rw [Tree.valueComplaints, values, valueless_cons_of_valued rfl, valueless_append,
        induction (shaped.child (by simp)), other (shaped.child (by simp))]
  | leaf node leaf =>
      rw [valueComplaints_leaf leaf, values_leaf leaf, leafComplaints_eq shaped leaf]

theorem declaratorComplaints_eq_nil {nameKind : Kind} {trees : List Tree}
    (declare : trees.all (·.declares nameKind) = true) :
    trees.flatMap declaratorComplaints = [] := by
  rw [List.flatMap_eq_nil_iff]
  intro declarator member
  have declares := List.all_eq_true.mp declare declarator member
  rcases declaredName?_of_declares declares with ⟨type, name, declared⟩
  simp [declaratorComplaints, typeComplaints_eq_nil type, declared]

theorem IsShaped.structComplaints {location : Location} {text : String} {note : Note}
    {children : List Tree} (shaped : IsShaped ⟨.struct, location, text, note, children⟩) :
    Tree.structComplaints children = [] := by
  rcases children with _ | ⟨name, declarators⟩
  · rfl
  · simp only [Tree.structComplaints]
    split
    · rename_i named
      have fine := shaped.fault
      simp only [shapeFault?, named, beq_self_eq_true, if_true, require] at fine
      split at fine
      · rename_i declare
        exact declaratorComplaints_eq_nil declare
      · contradiction
    · rfl

theorem IsShaped.simpleComplaints {tree : Tree} (shaped : tree.IsShaped)
    (simple : tree.isCompound = false) :
    tree.simpleComplaints = valueless (valuesAll tree.simpleValues) := by
  have ofExpression : tree.valueComplaints = valueless (valuesAll [tree]) := by
    simpa [valuesAll] using shaped.valueComplaints
  rcases tree with ⟨kind, location, text, note, children⟩
  cases kind with
  | struct => exact shaped.structComplaints
  | «variable» =>
      rcases shaped.variable with ⟨declarator, values, name, rfl, type, declared, single⟩
      rcases values with _ | ⟨value, rest⟩
      · simp [Tree.simpleComplaints, variableComplaints, typeComplaints_eq_nil type, declared,
          valueComplaintsAll, simpleValues, valuesAll, valueless]
      · have shapedValue : value.IsShaped := shaped.child (by simp)
        simp [Tree.simpleComplaints, variableComplaints, typeComplaints_eq_nil type, declared,
          valueComplaintsAll, simpleValues, valuesAll, shapedValue.valueComplaints]
  | returnValue =>
      rcases children with _ | ⟨value, rest⟩
      · exact absurd shaped.fault (by simp [shapeFault?])
      · have shapedValue : value.IsShaped := shaped.child (by simp)
        simp [Tree.simpleComplaints, simpleValues, valuesAll, shapedValue.valueComplaints]
  | root | block => simp [isCompound] at simple
  | function | prototype | whileLoop | ifThen | ifElse =>
      rcases children with _ | ⟨first, _ | ⟨second, rest⟩⟩ <;> simp [isCompound] at simple <;>
        exact absurd shaped.fault (by simp [shapeFault?])
  | returnVoid | field | type | arrayMark | declaredName | parameters => rfl
  | _ => exact ofExpression

theorem headingComplaints_eq {kind : Kind} {declarator parameters name : Tree}
    (type : declarator.kind.isType = true) (declared : declarator.declaredName? = some name)
    (shaped : parameters.IsShaped) (list : parameters.kind = .parameters)
    (rest : List Complaint) : headingComplaints kind declarator parameters rest = rest := by
  have none : parameters.children.flatMap declaratorComplaints = [] := by
    have fine := shaped.fault
    simp only [shapeFault?, list, require] at fine
    split at fine
    · rename_i declare
      exact declaratorComplaints_eq_nil declare
    · contradiction
  simp [headingComplaints, typeComplaints_eq_nil type, declared, none]

private theorem complaintsAll_eq {trees : List Tree}
    (each : ∀ tree ∈ trees, tree.complaints = valueless tree.placedValues) :
    complaintsAll trees = valueless (placedValuesAll trees) := by
  induction trees with
  | nil => rfl
  | cons tree rest induction =>
      rw [List.forall_mem_cons] at each
      rw [complaintsAll, placedValuesAll, valueless_append, each.1, induction each.2]

/-- All that is wrong with a well-shaped tree are nodes without values in places for values. -/
theorem IsShaped.complaints {tree : Tree} (shaped : tree.IsShaped) :
    tree.complaints = valueless tree.placedValues := by
  induction tree using Tree.statementInduction with
  | root location text note children induction
  | block location text note children induction =>
      exact complaintsAll_eq fun child member => induction child member (shaped.child member)
  | function location text note declarator parameters rest induction =>
      rcases shaped.function with
        ⟨_, _, place, word, bodyNote, statements, name, same, type, declared, list⟩
      cases same
      have shapedBody : IsShaped ⟨.block, place, word, bodyNote, statements⟩ :=
        shaped.child (by simp)
      rw [Tree.complaints, headingComplaints_eq type declared (shaped.child (by simp)) list]
      exact complaintsAll_eq fun child member =>
        induction _ List.mem_cons_self child member (shapedBody.child member)
  | prototype location text note declarator parameters rest =>
      rcases shaped.prototype with ⟨_, _, name, same, type, declared, list⟩
      cases same
      rw [Tree.complaints, headingComplaints_eq type declared (shaped.child (by simp)) list]
      rfl
  | control kind location text note test bodies control induction =>
      have shapedTest : test.IsShaped := shaped.child (by simp)
      rw [complaints_control control, placedValues_control control, valueless_append,
        shapedTest.valueComplaints, complaintsAll_eq fun body member =>
          induction body member (shaped.child (List.mem_cons_of_mem _ member))]
  | simple tree simple =>
      rw [complaints_simple simple, placedValues_simple simple, shaped.simpleComplaints simple]

/-! Places for values are places in the tree. -/

theorem mem_children_of_mem_simpleValues {tree value : Tree} (member : value ∈ tree.simpleValues) :
    value = tree ∨ value ∈ tree.children := by
  unfold simpleValues at member
  split at member
  · simp_all
  · simp_all
  · contradiction
  · contradiction
  · contradiction
  · split at member
    · contradiction
    · exact .inl (List.mem_singleton.mp member)

theorem values_eq (tree : Tree) : tree.values = tree :: tree.operands.flatMap values := by
  cases form : tree.hasOperands with
  | false => rw [values_leaf form, operands_leaf form, List.flatMap_nil]
  | true =>
      unfold hasOperands at form
      split at form <;> simp [values, operands, valuesAll_eq_flatMap] at form ⊢

theorem values_subset_preorder (tree : Tree) : tree.values ⊆ tree.preorder := by
  induction tree using Tree.induction with
  | node tree induction =>
      rw [values_eq]
      refine List.cons_subset.mpr ⟨mem_preorder_self tree, fun value below => ?_⟩
      rcases List.mem_flatMap.mp below with ⟨operand, member, inside⟩
      have child := mem_children_of_mem_operands member
      exact mem_preorder_of_child child (induction operand child inside)

private theorem placedValuesAll_subset {trees : List Tree} {tree : Tree}
    (below : ∀ child ∈ trees, child ∈ tree.children)
    (each : ∀ child ∈ trees, child.placedValues ⊆ child.preorder) :
    placedValuesAll trees ⊆ tree.preorder := by
  rw [placedValuesAll_eq_flatMap]
  intro value member
  rcases List.mem_flatMap.mp member with ⟨child, known, inside⟩
  exact mem_preorder_of_child (below child known) (each child known inside)

theorem placedValues_subset_preorder (tree : Tree) : tree.placedValues ⊆ tree.preorder := by
  induction tree using Tree.statementInduction with
  | root location text note children induction
  | block location text note children induction =>
      exact placedValuesAll_subset (fun _ member => member) induction
  | function location text note declarator parameters rest induction =>
      rcases rest with _ | ⟨body, rest⟩
      · exact List.nil_subset _
      · have inBody : placedValuesAll body.children ⊆ body.preorder :=
          placedValuesAll_subset (fun _ member => member) (induction body List.mem_cons_self)
        cases body
        exact fun value member => mem_preorder_of_child (by simp) (inBody member)
  | prototype location text note declarator parameters rest => exact List.nil_subset _
  | control kind location text note test bodies control induction =>
      rw [placedValues_control control, List.append_subset]
      constructor
      · exact fun value member =>
          mem_preorder_of_child List.mem_cons_self (values_subset_preorder test member)
      · exact placedValuesAll_subset (fun _ member => List.mem_cons_of_mem _ member) induction
  | simple tree simple =>
      rw [placedValues_simple simple, valuesAll_eq_flatMap]
      intro value member
      rcases List.mem_flatMap.mp member with ⟨place, known, inside⟩
      have here := values_subset_preorder place inside
      rcases mem_children_of_mem_simpleValues known with rfl | child
      · exact here
      · exact mem_preorder_of_child child here

end Tree

end OcLang
