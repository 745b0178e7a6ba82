import OcLang.Proofs.Tree.Forms
import OcLang.Symbol

namespace OcLang.Lexical

/-! # Lexical scoping

What a name means is settled by where it stands: by the scopes around it and
the declarations made before it. Here scopes are never opened and closed on a
stack. A declaration keeps the number of its scope for ever, and a place in a
tree knows the numbers of the scopes around it. -/

inductive Role where
  | function
  | parameter
  | variable (value : Option Tree)

def Role.isVariable : Role → Bool
  | .function => false
  | .parameter | .variable _ => true

structure Declaration where
  name : String
  scope : Nat
  symbol : Nat
  place : Location
  isVariable : Bool
  replaces : Option Nat
deriving DecidableEq, Repr

structure Context where
  /-- What has been declared before, the latest first. -/
  declared : List Declaration := []
  /-- The scopes around the place without file scope, the innermost first. -/
  enclosing : List Nat := []
  opened : Nat := 0
  stored : Nat := 0
deriving DecidableEq, Repr

namespace Context

def innermost (context : Context) : Nat :=
  context.enclosing.headD 0

def scopes (context : Context) : List Nat :=
  context.enclosing ++ [0]

def latest? (context : Context) (scope : Nat) (name : String) : Option Declaration :=
  context.declared.find? fun declaration =>
    declaration.scope = scope ∧ declaration.name = name

/-- The declaration that a name means: the latest one in the innermost scope
around the place that has one, file scope last. -/
def resolve? (context : Context) (name : String) : Option Declaration :=
  context.scopes.findSome? fun scope => context.latest? scope name

def enter (context : Context) : Context :=
  { context with
    enclosing := (context.opened + 1) :: context.enclosing
    opened := context.opened + 1 }

def close (context inner : Context) : Context :=
  { inner with enclosing := context.enclosing }

def scopeOf (context : Context) : Role → Nat
  | .function => 0
  | .parameter | .variable _ => context.innermost

def replaced? (context : Context) (role : Role) (name : String) : Option Nat :=
  if role.isVariable then
    ((context.latest? (context.scopeOf role) name).filter (·.isVariable)).map (·.symbol)
  else none

def declaration (context : Context) (role : Role) (name : Tree) : Declaration where
  name := name.text
  scope := context.scopeOf role
  symbol := context.stored
  place := name.location
  isVariable := role.isVariable
  replaces := context.replaced? role name.text

def declare (context : Context) (role : Role) (name : Tree) : Context :=
  { context with
    declared := context.declaration role name :: context.declared
    stored := context.stored + 1 }

def declareParameters (context : Context) : List Tree → Context
  | [] => context
  | declarator :: rest =>
      match declarator.declaredName? with
      | none => declareParameters context rest
      | some name => declareParameters (context.declare .parameter name) rest

def heading (context : Context) (name parameters : Tree) : Context :=
  (context.declare .function name).enter.declareParameters parameters.children

/-- Fields and structs are no names of any scope, but have symbols. -/
def storeStruct (context : Context) : List Tree → Context
  | [] => context
  | name :: declarators =>
      if name.kind = .type .named then
        { context with
          stored := context.stored + declarators.countP (·.declaredName?.isSome) + 1 }
      else context

end Context

/-! ## The places behind statements -/

def afterSimple (context : Context) (node : Tree) : Context :=
  match node.kind, node.children with
  | .struct, children => context.storeStruct children
  | .variable, declarator :: values =>
      match declarator.declaredName? with
      | none => context
      | some name => context.declare (.variable values.head?) name
  | _, _ => context

mutual
def after (context : Context) : Tree → Context
  | ⟨.root, _, _, _, children⟩ => afterAll context children
  | ⟨.block, _, _, _, children⟩ => context.close (afterAll context.enter children)
  | ⟨.function, _, _, _, declarator :: parameters :: rest⟩ =>
      match declarator.declaredName? with
      | none => context
      | some name => context.close (afterBody (context.heading name parameters) rest)
  | ⟨.prototype, _, _, _, declarator :: parameters :: _⟩ =>
      match declarator.declaredName? with
      | none => context
      | some name => context.close (context.heading name parameters)
  | ⟨.whileLoop, _, _, _, _ :: bodies⟩ => afterAll context bodies
  | ⟨.ifThen, _, _, _, _ :: bodies⟩ => afterAll context bodies
  | ⟨.ifElse, _, _, _, _ :: bodies⟩ => afterAll context bodies
  | node => afterSimple context node

def afterBody (context : Context) : List Tree → Context
  | [] => context
  | ⟨_, _, _, _, children⟩ :: _ => afterAll context children

def afterAll (context : Context) : List Tree → Context
  | [] => context
  | tree :: rest => afterAll (after context tree) rest
end

/-! ## What happens to names on a walk through a tree -/

inductive Event where
  | use (context : Context) (node : Tree)
  | call (context : Context) (callee : Tree)
  | declaration (context : Context) (role : Role) (name : Tree)
  /-- A node that has no value stands where a value belongs. -/
  | misplaced (node : Tree)

def leafEvents (context : Context) (node : Tree) : List Event :=
  if node.kind = .identifier then [.use context node]
  else if node.kind.isConstant then []
  else [.misplaced node]

mutual
def uses (context : Context) : Tree → List Event
  | ⟨.call, _, _, _, callee :: arguments⟩ => usesAll context arguments ++ [.call context callee]
  | ⟨.select, _, _, _, [object, _]⟩ => uses context object
  | ⟨.index, _, _, _, [array, position]⟩ => uses context array ++ uses context position
  | ⟨.allocate .array, _, _, _, [_, size]⟩ => uses context size
  | ⟨.allocate .string, _, _, _, [size]⟩ => uses context size
  | ⟨.assign, _, _, _, [target, value]⟩ => uses context target ++ uses context value
  | ⟨.binary _, _, _, _, [left, right]⟩ => uses context left ++ uses context right
  | ⟨.unary _, _, _, _, operand :: _⟩ => uses context operand
  | node => leafEvents context node

def usesAll (context : Context) : List Tree → List Event
  | [] => []
  | tree :: rest => uses context tree ++ usesAll context rest
end

def parameterEvents (context : Context) : List Tree → List Event
  | [] => []
  | declarator :: rest =>
      match declarator.declaredName? with
      | none => parameterEvents context rest
      | some name =>
          .declaration context .parameter name ::
            parameterEvents (context.declare .parameter name) rest

def headingEvents (context : Context) (name parameters : Tree) : List Event :=
  .declaration context .function name ::
    parameterEvents (context.declare .function name).enter parameters.children

/-- The name of a struct is no name of any scope, but has to be there. -/
def structEvents (node : Tree) : List Event :=
  if node.children.head?.any (·.kind = .type .named) then [] else [.misplaced node]

def simpleEvents (context : Context) (node : Tree) : List Event :=
  match node.kind, node.children with
  | .variable, declarator :: values =>
      match declarator.declaredName? with
      | none => []
      | some name =>
          usesAll context values.head?.toList ++
            [.declaration context (.variable values.head?) name]
  | .returnValue, value :: _ => uses context value
  | .struct, _ => structEvents node
  | kind, _ => if kind.isSilent then [] else uses context node

mutual
def events (context : Context) : Tree → List Event
  | ⟨.root, _, _, _, children⟩ => eventsAll context children
  | ⟨.block, _, _, _, children⟩ => eventsAll context.enter children
  | ⟨.function, _, _, _, declarator :: parameters :: rest⟩ =>
      match declarator.declaredName? with
      | none => []
      | some name =>
          headingEvents context name parameters ++
            bodyEvents (context.heading name parameters) rest
  | ⟨.prototype, _, _, _, declarator :: parameters :: _⟩ =>
      match declarator.declaredName? with
      | none => []
      | some name => headingEvents context name parameters
  | ⟨.whileLoop, _, _, _, test :: bodies⟩ => uses context test ++ eventsAll context bodies
  | ⟨.ifThen, _, _, _, test :: bodies⟩ => uses context test ++ eventsAll context bodies
  | ⟨.ifElse, _, _, _, test :: bodies⟩ => uses context test ++ eventsAll context bodies
  | node => simpleEvents context node

def bodyEvents (context : Context) : List Tree → List Event
  | [] => []
  | ⟨_, _, _, _, children⟩ :: _ => eventsAll context children

def eventsAll (context : Context) : List Tree → List Event
  | [] => []
  | tree :: rest => events context tree ++ eventsAll (after context tree) rest
end

/-! ## The walks form by form -/

section

variable (context : Context)

theorem uses_leaf {node : Tree} (leaf : node.hasOperands = false) :
    uses context node = leafEvents context node := by
  unfold Tree.hasOperands at leaf
  split at leaf <;> simp_all [uses]

theorem usesAll_eq_flatMap (trees : List Tree) :
    usesAll context trees = trees.flatMap (uses context) := by
  induction trees with
  | nil => rfl
  | cons tree rest induction => simp [usesAll, induction]

theorem uses_operand {tree operand : Tree} (member : operand ∈ tree.operands) :
    uses context operand ⊆ uses context tree := by
  intro event used
  unfold Tree.operands at member
  split at member
  case h_1 =>
    simp only [uses, usesAll_eq_flatMap, List.mem_append, List.mem_flatMap]
    exact .inl ⟨operand, member, used⟩
  all_goals
    simp only [List.mem_cons, List.not_mem_nil, or_false] at member
  all_goals
    rcases member with rfl | rfl <;> simp [uses, used]

theorem Context.latest?_declare (role : Role) (name : Tree) (scope : Nat) (other : String) :
    (context.declare role name).latest? scope other =
      if other = name.text ∧ scope = context.scopeOf role then
        some (context.declaration role name)
      else context.latest? scope other := by
  simp only [latest?, declare, declaration, List.find?_cons]
  grind

theorem declareParameters_cons (declarator : Tree) (rest : List Tree) :
    context.declareParameters (declarator :: rest) =
      (context.declareParameters [declarator]).declareParameters rest := by
  cases declared : declarator.declaredName? <;> simp [Context.declareParameters, declared]

theorem parameterEvents_cons (declarator : Tree) (rest : List Tree) :
    parameterEvents context (declarator :: rest) =
      parameterEvents context [declarator] ++
        parameterEvents (context.declareParameters [declarator]) rest := by
  cases declared : declarator.declaredName? <;>
    simp [parameterEvents, Context.declareParameters, declared]

theorem after_simple {tree : Tree} (simple : tree.isCompound = false) :
    after context tree = afterSimple context tree := by
  unfold Tree.isCompound at simple
  split at simple <;> simp_all [after]

theorem events_simple {tree : Tree} (simple : tree.isCompound = false) :
    events context tree = simpleEvents context tree := by
  unfold Tree.isCompound at simple
  split at simple <;> simp_all [events]

theorem after_control {kind : Kind} (control : kind.isControl = true) (location : Location)
    (text : String) (note : Note) (test : Tree) (bodies : List Tree) :
    after context ⟨kind, location, text, note, test :: bodies⟩ = afterAll context bodies := by
  cases kind <;> simp [Kind.isControl] at control <;> rfl

theorem events_control {kind : Kind} (control : kind.isControl = true) (location : Location)
    (text : String) (note : Note) (test : Tree) (bodies : List Tree) :
    events context ⟨kind, location, text, note, test :: bodies⟩ =
      uses context test ++ eventsAll context bodies := by
  cases kind <;> simp [Kind.isControl] at control <;> rfl

end

/-! ## Scope numbers -/

namespace Context

structure Ordered (context : Context) : Prop where
  /-- A new scope gets a number that no declaration has yet. -/
  known : ∀ declaration ∈ context.declared, declaration.scope ≤ context.opened
  /-- Scopes that lie in each other have different numbers, and none is the
  number of file scope. -/
  nested : context.scopes.Pairwise (· > ·)
  begun : ∀ scope ∈ context.enclosing, scope ≤ context.opened

namespace Ordered

variable {context : Context}

theorem start : Ordered {} where
  known := by simp
  nested := by simp [scopes]
  begun := by simp

theorem enclosing_pos (ordered : context.Ordered) {scope : Nat}
    (member : scope ∈ context.enclosing) : 0 < scope :=
  (List.pairwise_append.mp ordered.nested).2.2 scope member 0 (by simp)

theorem scopes_le (ordered : context.Ordered) {scope : Nat} (member : scope ∈ context.scopes) :
    scope ≤ context.opened := by
  rcases List.mem_append.mp member with inside | file
  · exact ordered.begun scope inside
  · simp_all

theorem innermost_mem (context : Context) : context.innermost ∈ context.scopes := by
  unfold innermost scopes
  cases context.enclosing <;> simp

theorem scopeOf_mem (context : Context) (role : Role) : context.scopeOf role ∈ context.scopes := by
  cases role with
  | function => simp [scopeOf, scopes]
  | _ => exact innermost_mem context

theorem enter (ordered : context.Ordered) : context.enter.Ordered where
  known declaration member := Nat.le_succ_of_le (ordered.known declaration member)
  nested := by
    refine List.pairwise_cons.mpr ⟨?_, ordered.nested⟩
    intro scope member
    have begun := ordered.scopes_le member
    omega
  begun scope member := by
    rcases List.mem_cons.mp member with rfl | outer
    · exact Nat.le_refl _
    · exact Nat.le_succ_of_le (ordered.begun scope outer)

theorem declare (ordered : context.Ordered) (role : Role) (name : Tree) :
    (context.declare role name).Ordered where
  known declaration member := by
    rcases List.mem_cons.mp member with rfl | earlier
    · exact ordered.scopes_le (scopeOf_mem context role)
    · exact ordered.known declaration earlier
  nested := ordered.nested
  begun := ordered.begun

/-- Nothing is declared in a scope that has just begun. -/
theorem latest?_enter (ordered : context.Ordered) (name : String) :
    context.enter.latest? (context.opened + 1) name = none := by
  refine List.find?_eq_none.mpr fun declaration member => ?_
  have known := ordered.known declaration member
  simp only [decide_eq_true_eq]
  omega

theorem leave {inner : Context} (scope : Nat) (ordered : inner.Ordered)
    (opened : inner.enclosing = scope :: context.enclosing) : (context.close inner).Ordered where
  known := ordered.known
  nested := by
    have nested := ordered.nested
    unfold scopes at nested
    rw [opened] at nested
    exact (List.pairwise_cons.mp nested).2
  begun other member := ordered.begun other (by
    rw [opened]
    exact List.mem_cons_of_mem _ member)

end Ordered

end Context

/-! ## Scopes end where they began -/

@[simp] theorem enclosing_declareParameters (context : Context) (parameters : List Tree) :
    (context.declareParameters parameters).enclosing = context.enclosing := by
  induction parameters generalizing context with
  | nil => rfl
  | cons declarator rest induction =>
      cases declared : declarator.declaredName? <;>
        simp [Context.declareParameters, Context.declare, declared, induction]

@[simp] theorem enclosing_heading (context : Context) (name parameters : Tree) :
    (context.heading name parameters).enclosing =
      (context.opened + 1) :: context.enclosing := by
  simp [Context.heading, Context.enter, Context.declare]

theorem enclosing_afterSimple (context : Context) (tree : Tree) :
    (afterSimple context tree).enclosing = context.enclosing := by
  unfold afterSimple
  split
  · unfold Context.storeStruct
    split
    · rfl
    · split <;> rfl
  · split <;> rfl
  · rfl

private theorem enclosing_children {trees : List Tree}
    (each : ∀ tree ∈ trees, ∀ context, (after context tree).enclosing = context.enclosing)
    (context : Context) : (afterAll context trees).enclosing = context.enclosing := by
  induction trees generalizing context with
  | nil => rfl
  | cons tree rest induction => simp_all [afterAll]

@[simp] theorem enclosing_after (tree : Tree) (context : Context) :
    (after context tree).enclosing = context.enclosing := by
  induction tree using Tree.statementInduction generalizing context with
  | root location text note children induction => simp [after, enclosing_children induction]
  | block location text note children induction => rfl
  | function location text note declarator parameters rest induction =>
      cases declared : declarator.declaredName? <;> simp [after, declared, Context.close]
  | prototype location text note declarator parameters rest =>
      cases declared : declarator.declaredName? <;> simp [after, declared, Context.close]
  | control kind location text note test bodies control induction =>
      simp [after_control _ control, enclosing_children induction]
  | simple tree simple => rw [after_simple _ simple, enclosing_afterSimple]

@[simp] theorem enclosing_afterAll (trees : List Tree) (context : Context) :
    (afterAll context trees).enclosing = context.enclosing :=
  enclosing_children (fun tree _ => enclosing_after tree) context

@[simp] theorem enclosing_afterBody (rest : List Tree) (context : Context) :
    (afterBody context rest).enclosing = context.enclosing := by
  rcases rest with _ | ⟨⟨kind, location, text, note, children⟩, rest⟩
  · rfl
  · exact enclosing_afterAll children context

/-! Behind a statement more scopes have begun, and their order is kept. -/

theorem opened_declareParameters (context : Context) (parameters : List Tree) :
    (context.declareParameters parameters).opened = context.opened := by
  induction parameters generalizing context with
  | nil => rfl
  | cons declarator rest induction =>
      cases declared : declarator.declaredName? <;>
        simp [Context.declareParameters, Context.declare, declared, induction]

theorem Context.Ordered.declareParameters {context : Context} (ordered : context.Ordered)
    (parameters : List Tree) : (context.declareParameters parameters).Ordered := by
  induction parameters generalizing context with
  | nil => exact ordered
  | cons declarator rest induction =>
      cases declared : declarator.declaredName? with
      | none => simpa [Context.declareParameters, declared] using induction ordered
      | some name =>
          simpa [Context.declareParameters, declared] using
            induction (ordered.declare .parameter name)

theorem Context.Ordered.heading {context : Context} (ordered : context.Ordered)
    (name parameters : Tree) : (context.heading name parameters).Ordered :=
  (ordered.declare .function name).enter.declareParameters parameters.children

/-- A later place: more scopes have begun, in order. -/
structure Context.Precedes (context later : Context) : Prop where
  ordered : later.Ordered
  opened : context.opened ≤ later.opened

theorem Context.Precedes.trans {context middle later : Context}
    (first : context.Precedes middle) (second : middle.Precedes later) : context.Precedes later :=
  ⟨second.ordered, Nat.le_trans first.opened second.opened⟩

theorem precedes_afterSimple {context : Context} (ordered : context.Ordered) (tree : Tree) :
    context.Precedes (afterSimple context tree) := by
  unfold afterSimple
  split
  · unfold Context.storeStruct
    split
    · exact ⟨ordered, Nat.le_refl _⟩
    · split
      · exact ⟨{ ordered with }, Nat.le_refl _⟩
      · exact ⟨ordered, Nat.le_refl _⟩
  · split
    · exact ⟨ordered, Nat.le_refl _⟩
    · exact ⟨ordered.declare _ _, Nat.le_refl _⟩
  · exact ⟨ordered, Nat.le_refl _⟩

private theorem precedes_children {trees : List Tree}
    (each : ∀ tree ∈ trees, ∀ {context : Context}, context.Ordered →
      context.Precedes (after context tree)) {context : Context} (ordered : context.Ordered) :
    context.Precedes (afterAll context trees) := by
  induction trees generalizing context with
  | nil => exact ⟨ordered, Nat.le_refl _⟩
  | cons tree rest induction =>
      have first := each tree (by simp) ordered
      exact first.trans (induction (fun tree member => each tree (by simp [member])) first.ordered)

theorem precedes_after (tree : Tree) {context : Context} (ordered : context.Ordered) :
    context.Precedes (after context tree) := by
  induction tree using Tree.statementInduction generalizing context with
  | root location text note children induction => exact precedes_children induction ordered
  | block location text note children induction =>
      have inner := precedes_children induction ordered.enter
      exact ⟨inner.ordered.leave (context.opened + 1) (by simp [Context.enter]),
        Nat.le_trans (Nat.le_succ _) inner.opened⟩
  | function location text note declarator parameters rest induction =>
      cases declared : declarator.declaredName? with
      | none => simpa [after, declared] using ⟨ordered, Nat.le_refl _⟩
      | some name =>
          have heading := ordered.heading name parameters
          have inner : (context.heading name parameters).Precedes
              (afterBody (context.heading name parameters) rest) := by
            rcases rest with _ | ⟨body, rest⟩
            · exact ⟨heading, Nat.le_refl _⟩
            · have children := precedes_children (induction body (by simp)) heading
              cases body
              exact children
          have opened : context.opened ≤ (context.heading name parameters).opened := by
            simp [Context.heading, opened_declareParameters, Context.enter, Context.declare]
          simp only [after, declared]
          exact ⟨inner.ordered.leave (context.opened + 1) (by simp), Nat.le_trans opened inner.opened⟩
  | prototype location text note declarator parameters rest =>
      cases declared : declarator.declaredName? with
      | none => simpa [after, declared] using ⟨ordered, Nat.le_refl _⟩
      | some name =>
          have heading := ordered.heading name parameters
          have opened : context.opened ≤ (context.heading name parameters).opened := by
            simp [Context.heading, opened_declareParameters, Context.enter, Context.declare]
          simp only [after, declared]
          exact ⟨heading.leave (context.opened + 1) (by simp), opened⟩
  | control kind location text note test bodies control induction =>
      rw [after_control _ control]
      exact precedes_children induction ordered
  | simple tree simple =>
      rw [after_simple _ simple]
      exact precedes_afterSimple ordered tree

/-! ## Notes do not matter -/

def Role.bare : Role → Role
  | .variable value => .variable (value.map Tree.bare)
  | role => role

def Event.bare : Event → Event
  | .use context node => .use context node.bare
  | .call context callee => .call context callee.bare
  | .declaration context role name => .declaration context role.bare name.bare
  | .misplaced node => .misplaced node.bare

@[simp] theorem declare_bare (context : Context) (role : Role) (name : Tree) :
    context.declare role name.bare = context.declare role name := by
  simp [Context.declare, Context.declaration]

@[simp] theorem declare_variable_map (context : Context) (change : Tree → Tree)
    (value : Option Tree) (name : Tree) :
    context.declare (.variable (value.map change)) name =
      context.declare (.variable value) name := by
  simp [Context.declare, Context.declaration, Context.replaced?, Context.scopeOf, Role.isVariable]

section

variable (context : Context)

private theorem usesAll_bare {trees : List Tree}
    (each : ∀ tree ∈ trees, uses context tree.bare = (uses context tree).map Event.bare) :
    usesAll context (trees.map Tree.bare) = (usesAll context trees).map Event.bare := by
  induction trees with
  | nil => rfl
  | cons tree rest induction => simp_all [usesAll]

theorem uses_bare (tree : Tree) : uses context tree.bare = (uses context tree).map Event.bare := by
  induction tree using Tree.expressionInduction with
  | call location text note callee arguments induction =>
      simp [Tree.bare_mk, uses, usesAll_bare context induction, Event.bare]
  | leaf node leaf =>
      rw [uses_leaf context leaf, uses_leaf context (by simpa using leaf)]
      by_cases identifier : node.kind = .identifier <;> cases constant : node.kind.isConstant <;>
        simp [leafEvents, identifier, constant, Event.bare]
  | _ => simp_all [Tree.bare_mk, uses]

end

@[simp] theorem declareParameters_bare (context : Context) (parameters : List Tree) :
    context.declareParameters (parameters.map Tree.bare) =
      context.declareParameters parameters := by
  induction parameters generalizing context with
  | nil => rfl
  | cons declarator rest induction =>
      cases declared : declarator.declaredName? <;>
        simp [Context.declareParameters, declared, induction]

@[simp] theorem heading_bare (context : Context) (name parameters : Tree) :
    context.heading name.bare parameters.bare = context.heading name parameters := by
  simp [Context.heading]

@[simp] theorem storeStruct_bare (context : Context) (children : List Tree) :
    context.storeStruct (children.map Tree.bare) = context.storeStruct children := by
  cases children with
  | nil => rfl
  | cons name declarators =>
      have sameCount : (declarators.map Tree.bare).countP (·.declaredName?.isSome) =
          declarators.countP (·.declaredName?.isSome) := by
        rw [List.countP_map]
        congr 1
        funext declarator
        simp
      simp [Context.storeStruct, sameCount]

theorem afterSimple_bare (context : Context) (tree : Tree) :
    afterSimple context tree.bare = afterSimple context tree := by
  obtain ⟨kind, location, text, note, children⟩ := tree
  cases kind with
  | struct => simp [afterSimple, Tree.bare_mk]
  | «variable» =>
      rcases children with _ | ⟨declarator, values⟩
      · rfl
      · cases declared : declarator.declaredName? <;>
          simp [afterSimple, Tree.bare_mk, declared, List.head?_map]
  | _ => rfl

private theorem afterAll_bare {trees : List Tree}
    (each : ∀ tree ∈ trees, ∀ context, after context tree.bare = after context tree)
    (context : Context) :
    afterAll context (trees.map Tree.bare) = afterAll context trees := by
  induction trees generalizing context with
  | nil => rfl
  | cons tree rest induction => simp_all [afterAll]

theorem after_bare (tree : Tree) (context : Context) :
    after context tree.bare = after context tree := by
  induction tree using Tree.statementInduction generalizing context with
  | root location text note children induction =>
      simp [Tree.bare_mk, after, afterAll_bare induction]
  | block location text note children induction =>
      simp [Tree.bare_mk, after, afterAll_bare induction]
  | function location text note declarator parameters rest induction =>
      cases declared : declarator.declaredName? with
      | none => simp [Tree.bare_mk, after, declared]
      | some name =>
          rcases rest with _ | ⟨body, rest⟩
          · simp [Tree.bare_mk, after, afterBody, declared]
          · have sameBody := afterAll_bare (induction body (by simp))
            cases body
            simp_all [Tree.bare_mk, after, afterBody]
  | prototype location text note declarator parameters rest =>
      cases declared : declarator.declaredName? <;> simp [Tree.bare_mk, after, declared]
  | control kind location text note test bodies control induction =>
      simp [Tree.bare_mk, after_control _ control, afterAll_bare induction]
  | simple tree simple =>
      rw [after_simple _ simple, after_simple _ (by simpa using simple), afterSimple_bare]

theorem parameterEvents_bare (context : Context) (parameters : List Tree) :
    parameterEvents context (parameters.map Tree.bare) =
      (parameterEvents context parameters).map Event.bare := by
  induction parameters generalizing context with
  | nil => rfl
  | cons declarator rest induction =>
      cases declared : declarator.declaredName? <;>
        simp [parameterEvents, declared, induction, Event.bare, Role.bare]

theorem headingEvents_bare (context : Context) (name parameters : Tree) :
    headingEvents context name.bare parameters.bare =
      (headingEvents context name parameters).map Event.bare := by
  simp [headingEvents, parameterEvents_bare, Event.bare, Role.bare]

theorem simpleEvents_bare (context : Context) (tree : Tree) :
    simpleEvents context tree.bare = (simpleEvents context tree).map Event.bare := by
  have ofExpression := uses_bare context tree
  obtain ⟨kind, location, text, note, children⟩ := tree
  rcases children with _ | ⟨first, rest⟩
  · cases kind <;> first | exact ofExpression | rfl
  · cases kind with
    | «variable» =>
        cases declared : first.declaredName? <;> cases rest <;>
          simp [simpleEvents, Tree.bare_mk, declared, usesAll, uses_bare, Event.bare, Role.bare]
    | returnValue => simp [simpleEvents, Tree.bare_mk, uses_bare]
    | struct =>
        by_cases named : first.kind = .type .named <;>
          simp [simpleEvents, structEvents, Tree.bare_mk, named, Event.bare]
    | _ => first | exact ofExpression | rfl

private theorem eventsAll_bare {trees : List Tree}
    (each : ∀ tree ∈ trees, ∀ context,
      events context tree.bare = (events context tree).map Event.bare) (context : Context) :
    eventsAll context (trees.map Tree.bare) = (eventsAll context trees).map Event.bare := by
  induction trees generalizing context with
  | nil => rfl
  | cons tree rest induction => simp_all [eventsAll, after_bare]

theorem events_bare (tree : Tree) (context : Context) :
    events context tree.bare = (events context tree).map Event.bare := by
  induction tree using Tree.statementInduction generalizing context with
  | root location text note children induction =>
      simp [Tree.bare_mk, events, eventsAll_bare induction]
  | block location text note children induction =>
      simp [Tree.bare_mk, events, eventsAll_bare induction]
  | function location text note declarator parameters rest induction =>
      cases declared : declarator.declaredName? with
      | none => simp [Tree.bare_mk, events, declared]
      | some name =>
          rcases rest with _ | ⟨body, rest⟩
          · simp [Tree.bare_mk, events, bodyEvents, declared, headingEvents_bare]
          · have sameBody := eventsAll_bare (induction body (by simp))
            cases body
            simp_all [Tree.bare_mk, events, bodyEvents, headingEvents_bare]
  | prototype location text note declarator parameters rest =>
      cases declared : declarator.declaredName? <;>
        simp [Tree.bare_mk, events, declared, headingEvents_bare]
  | control kind location text note test bodies control induction =>
      simp [Tree.bare_mk, events_control _ control, eventsAll_bare induction, uses_bare]
  | simple tree simple =>
      rw [events_simple _ simple, events_simple _ (by simpa using simple), simpleEvents_bare]

end OcLang.Lexical
