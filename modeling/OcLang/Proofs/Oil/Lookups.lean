import Mathlib.Data.List.Basic
import OcLang.Oil.Generate
import OcLang.Proofs.Analysis.Lookups.Statements
import OcLang.Proofs.Oil.Forms
import OcLang.Proofs.Tree.Parts
import OcLang.Tree.Build

namespace OcLang

namespace Oil

/-! # Lookups in the writer

The writer looks up the symbols whose numbers stand on nodes, and the fields of
structs. Two analyses that agree on these symbols give the same program. -/

section

variable {first second : Analysis}

structure Alike (first second : Analysis) (node : Tree) : Prop where
  name : variableName first node = variableName second node
  replaces : replacesVariable first node = replacesVariable second node

def AllAlike (first second : Analysis) (tree : Tree) : Prop :=
  ∀ node ∈ tree.preorder, Alike first second node

namespace AllAlike

variable {tree : Tree}

theorem here (alike : AllAlike first second tree) : Alike first second tree :=
  alike tree (Tree.mem_preorder_self tree)

theorem child (alike : AllAlike first second tree) {child : Tree} (member : child ∈ tree.children) :
    AllAlike first second child :=
  fun node inside => alike node (Tree.mem_preorder_of_child member inside)

theorem below (alike : AllAlike first second tree) {node : Tree} (inside : node ∈ tree.preorder) :
    AllAlike first second node := by
  induction tree using Tree.induction with
  | node tree induction =>
      rcases tree with ⟨kind, location, text, note, children⟩
      rw [Tree.preorder_mk, List.mem_cons, List.mem_flatMap] at inside
      rcases inside with rfl | ⟨child, member, inside⟩
      · exact alike
      · exact induction child member (alike.child member) inside

theorem name (alike : AllAlike first second tree) {name : Tree}
    (declared : tree.declaredName? = some name) : Alike first second name :=
  (alike.child (List.mem_of_getLast? (Option.filter_eq_some_iff.mp declared).1)).here

end AllAlike

/-! ## Expressions -/

theorem lowerLeaf_congr {node : Tree} (alike : AllAlike first second node) :
    lowerLeaf first node = lowerLeaf second node := by
  simp only [lowerLeaf, alike.here.name]

theorem lowerAll_congr {trees : List Tree}
    (each : ∀ tree ∈ trees, lower first tree = lower second tree) :
    lowerAll first trees = lowerAll second trees := by
  induction trees with
  | nil => rfl
  | cons tree rest induction =>
      rw [List.forall_mem_cons] at each
      rw [lowerAll, lowerAll, each.1, induction each.2]

theorem lower_congr {tree : Tree} (alike : AllAlike first second tree) :
    lower first tree = lower second tree := by
  induction tree using Tree.expressionInduction with
  | call location text note callee arguments induction =>
      have same := lowerAll_congr fun argument member =>
        induction argument member (alike.child (by simp [member]))
      rw [lower, lower, same]
  | select location text note object field induction =>
      rw [lower, lower, induction (alike.child (by simp))]
  | index location text note array position left right =>
      rw [lower, lower, left (alike.child (by simp)), right (alike.child (by simp))]
  | newArray location text note type size induction =>
      rw [lower, lower, induction (alike.child (by simp))]
  | newString location text note size induction =>
      rw [lower, lower, induction (alike.child (by simp))]
  | assign location text note target value left right =>
      rw [lower, lower, left (alike.child (by simp)), right (alike.child (by simp))]
  | binary operator location text note left right onLeft onRight =>
      rw [lower, lower, onLeft (alike.child (by simp)), onRight (alike.child (by simp))]
  | unary operator location text note operand rest induction =>
      cases rest with
      | nil => rw [lower, lower, induction (alike.child (by simp))]
      | cons second rest => simp only [lower, lowerLeaf_congr alike]
  | leaf node leaf =>
      unfold lower
      split
      case h_7 => rfl
      all_goals first
        | rw [lowerLeaf_congr alike]
        | simp [Tree.hasOperands] at leaf

theorem lowerValue_congr {value : Tree} (alike : AllAlike first second value) :
    lowerValue first value = lowerValue second value := by
  rw [lowerValue, lowerValue, lower_congr alike]

theorem lowerCondition_congr {condition : Tree} (alike : AllAlike first second condition) :
    lowerCondition first condition = lowerCondition second condition := by
  rw [lowerCondition, lowerCondition, lower_congr alike]

/-! ## Statements -/

theorem lowerDeclaration_congr (placement : Placement) {node : Tree}
    (alike : AllAlike first second node) :
    lowerDeclaration first placement node = lowerDeclaration second placement node := by
  rcases node with ⟨kind, location, text, note, children⟩
  cases children with
  | nil => rfl
  | cons declarator values =>
      have alikeDeclarator : AllAlike first second declarator := alike.child (by simp)
      cases declared : declarator.declaredName? with
      | none => simp only [lowerDeclaration, declared]
      | some name =>
          have alikeName := alikeDeclarator.name declared
          simp only [lowerDeclaration, declared, alikeName.name, alikeName.replaces]
          cases values with
          | nil => rfl
          | cons value rest =>
              have same : lowerValue first value = lowerValue second value :=
                lowerValue_congr (alike.child (by simp))
              simp only [same]

theorem lowerSimple_congr (placement : Placement) {node : Tree}
    (alike : AllAlike first second node) :
    lowerSimple first placement node = lowerSimple second placement node := by
  unfold lowerSimple
  split
  case h_1 => exact lowerDeclaration_congr placement alike
  case h_3 children => rw [lowerValue_congr (alike.child (by simp [children]))]
  all_goals first
    | rfl
    | rw [lower_congr alike]

theorem lowerStatements_congr {trees : List Tree}
    (each : ∀ tree ∈ trees, ∀ placement,
      lowerStatement first placement tree = lowerStatement second placement tree) :
    lowerStatements first trees = lowerStatements second trees := by
  induction trees with
  | nil => rfl
  | cons tree rest induction =>
      rw [List.forall_mem_cons] at each
      rw [lowerStatements, lowerStatements, each.1, induction each.2]

theorem lowerBranches_congr {trees : List Tree}
    (each : ∀ tree ∈ trees, ∀ placement,
      lowerStatement first placement tree = lowerStatement second placement tree) :
    lowerBranches first trees = lowerBranches second trees := by
  rcases trees with _ | ⟨consequence, _ | ⟨alternative, _ | ⟨third, rest⟩⟩⟩
  · rfl
  · rw [lowerBranches, lowerBranches, each consequence (by simp)]
  · rw [lowerBranches, lowerBranches, each consequence (by simp), each alternative (by simp)]
  · simp only [lowerBranches]

theorem lowerStatement_congr {tree : Tree} (alike : AllAlike first second tree)
    (placement : Placement) :
    lowerStatement first placement tree = lowerStatement second placement tree := by
  induction tree using Tree.statementInduction generalizing placement with
  | block location text note children induction =>
      simp only [lowerStatement]
      exact lowerStatements_congr fun child member => induction child member (alike.child member)
  | control kind location text note test bodies control induction =>
      have sameTest : lowerCondition first test = lowerCondition second test :=
        lowerCondition_congr (alike.child (by simp))
      have each : ∀ body ∈ bodies, ∀ placement,
          lowerStatement first placement body = lowerStatement second placement body :=
        fun body member => induction body member (alike.child (by simp [member]))
      have sameBranches := lowerBranches_congr each
      cases kind <;> simp [Kind.isControl] at control
      · rcases bodies with _ | ⟨body, _ | ⟨other, rest⟩⟩
        · exact lowerSimple_congr placement alike
        · simp only [lowerStatement, sameTest, each body (by simp)]
        · exact lowerSimple_congr placement alike
      · simp only [lowerStatement, sameTest, sameBranches]
      · simp only [lowerStatement, sameTest, sameBranches]
  | simple tree simple =>
      rw [lowerStatement_simple simple, lowerStatement_simple simple]
      exact lowerSimple_congr placement alike
  | _ => exact lowerSimple_congr placement alike

/-! ## Files -/

theorem lowerFunction_congr {function : Tree} (alike : AllAlike first second function)
    (later : List Tree) : lowerFunction first function later = lowerFunction second function later := by
  unfold lowerFunction
  split
  · rename_i declarator parameters body children
    have alikeParameters : AllAlike first second parameters := alike.child (by simp [children])
    have alikeBody : AllAlike first second body := alike.child (by simp [children])
    have sameParameters : parameters.children.filterMap (parameter? first) =
        parameters.children.filterMap (parameter? second) := by
      apply List.filterMap_congr
      intro declarator member
      unfold parameter?
      cases declared : declarator.declaredName? with
      | none => rfl
      | some name =>
          simp only [Option.map_some, ((alikeParameters.child member).name declared).name]
    have sameBody := lowerStatements_congr fun tree member =>
      lowerStatement_congr (alikeBody.child member)
    rw [sameParameters, sameBody]
  · rfl

theorem lowerFunctions_congr {functions : List Tree}
    (alike : ∀ function ∈ functions, AllAlike first second function) :
    lowerFunctions first functions = lowerFunctions second functions := by
  induction functions with
  | nil => rfl
  | cons function later induction =>
      rw [List.forall_mem_cons] at alike
      rw [lowerFunctions, lowerFunctions, lowerFunction_congr alike.1, induction alike.2]

theorem lowerItems_congr {items : List Tree} (alike : ∀ item ∈ items, AllAlike first second item) :
    lowerItems first items = lowerItems second items := by
  induction items with
  | nil => rfl
  | cons item rest induction =>
      rw [List.forall_mem_cons] at alike
      rw [lowerItems, lowerItems, lowerStatement_congr alike.1, induction alike.2]

theorem stringBinding?_congr {node : Tree} (alike : AllAlike first second node) :
    stringBinding? first node = stringBinding? second node := by
  unfold stringBinding?
  split
  · rename_i declarator value isVariable children
    cases declared : declarator.declaredName? with
    | none => rfl
    | some name =>
        have inside : AllAlike first second declarator := alike.child (by simp [children])
        have same := inside.name declared
        simp only [Option.map_some, same.name, same.replaces]
  all_goals rfl

theorem globalVariable?_congr {item : Tree} (alike : AllAlike first second item) :
    globalVariable? first item = globalVariable? second item := by
  unfold globalVariable?
  split
  · rename_i declarator values isVariable children
    cases declared : declarator.declaredName? with
    | none => rfl
    | some name =>
        have inside : AllAlike first second declarator := alike.child (by simp [children])
        have same := inside.name declared
        simp only [Option.filter_some, same.replaces]
        split
        · rfl
        · split
          · simp only [Option.map_some, same.name]
          · rfl
  · rfl

/-- The program is made of names, of what replaces what, and of layouts. -/
theorem generate_congr {root : Tree} (alike : AllAlike first second root)
    (layouts : ∀ item ∈ root.children, structLayout? first item = structLayout? second item) :
    generate first root = generate second root := by
  have items : ∀ item ∈ root.children, AllAlike first second item :=
    fun item member => alike.child member
  have functions : lowerFunctions first (root.children.filter (·.kind == .function)) =
      lowerFunctions second (root.children.filter (·.kind == .function)) :=
    lowerFunctions_congr fun function member => items function (List.mem_filter.mp member).1
  have main := lowerItems_congr items
  have structs := List.filterMap_congr layouts
  have strings : root.preorder.filterMap (stringBinding? first) =
      root.preorder.filterMap (stringBinding? second) :=
    List.filterMap_congr fun node member => stringBinding?_congr (alike.below member)
  have globals : root.children.filterMap (globalVariable? first) =
      root.children.filterMap (globalVariable? second) :=
    List.filterMap_congr fun item member => globalVariable?_congr (items item member)
  simp only [generate, generateNumbered, functions, main, structs, strings, globals]

end

/-! ## What the writer looks up -/

section

variable {first second : Analysis}

/-- Only symbols are looked up whose numbers stand on the nodes, and structs for
nodes with numbers. -/
theorem generate_frame {root : Tree}
    (same : ∀ node ∈ root.preorder, ∀ id ∈ node.note.symbol,
      first.symbol id = second.symbol id ∧ first.structs = second.structs) :
    generate first root = generate second root := by
  apply generate_congr
  · intro node inside
    have here := same node inside
    constructor
    · unfold variableName
      cases number : node.note.symbol with
      | none => rfl
      | some id => simp only [(here id number).1]
    · unfold replacesVariable
      cases number : node.note.symbol with
      | none => rfl
      | some id => simp only [Option.any_some, (here id number).1]
  · intro item member
    unfold structLayout?
    split
    · rename_i name declarators isStruct children
      cases number : name.note.symbol with
      | none => rfl
      | some id =>
          have inside : name ∈ item.preorder :=
            Tree.mem_preorder_of_child (by simp [children]) (Tree.mem_preorder_self name)
          rcases same name (Tree.mem_preorder_of_child member inside) id number with
            ⟨symbol, structs⟩
          simp only [Option.bind_eq_bind, Option.bind_some, symbol, structs]
    · rfl

/-- Of an annotated tree only symbols are looked up that the analysis has stored. -/
theorem generate_of_grows {root : Tree} (within : root.Within first.symbols.size)
    (grows : Grows first.symbols second.symbols) (structs : second.structs = first.structs) :
    generate second root = generate first root := by
  apply generate_frame
  intro node inside id number
  have stored := Array.getElem?_eq_getElem (within node inside id number)
  refine ⟨?_, structs⟩
  rw [Analysis.symbol, Analysis.symbol, grows _ _ stored, stored]

/-- A tree without numbers leads to no lookup at all. -/
theorem generate_of_plain {root : Tree} (plain : Numbering.IsPlain root) :
    generate first root = generate second root := by
  apply generate_frame
  intro node inside id number
  exact absurd (plain.within 0 node inside id number) (Nat.not_lt_zero id)

end

end Oil

/-! # Whole trees -/

def AnalysisState.behind (tree : Tree) : AnalysisState :=
  ((Statement.check none (Numbering.number tree)).run {}).2

/-- Nothing goes wrong with scopes and with the numbers of symbols, neither in the
analysis of a tree nor when a program is written. -/
structure StaysInside (tree : Tree) : Prop where
  /-- All symbols that the analysis looks up are there, and it closes open scopes only. -/
  strict : (Strict.statement none (Numbering.number tree)).run {} =
    some ((analyze tree).1, AnalysisState.behind tree)
  fault : (analyze tree).2.fault = none
  closed : (AnalysisState.behind tree).scopes.inner = []
  sound : (AnalysisState.behind tree).IsSound 0
  nodes : (analyze tree).1.Within (analyze tree).2.symbols.size
  /-- What would be found beyond the stored symbols makes no difference to the program. -/
  written : ∀ other : Analysis, other.structs = (analyze tree).2.structs →
    Grows (analyze tree).2.symbols other.symbols →
    Oil.generate other (analyze tree).1 = Oil.generate (analyze tree).2 (analyze tree).1
  /-- For the tree as it was, any analysis will do, such as that of an empty file. -/
  unannotated : ∀ first second : Analysis, Oil.generate first tree = Oil.generate second tree

theorem analyze_staysInside (tree : Tree) (fresh : tree.IsFresh) : StaysInside tree := by
  rcases analyze_mirrors True tree fun _ => fresh with ⟨through, checked⟩
  have within := checked.within trivial
  exact {
    strict := through
    fault := checked.fault
    closed := List.map_eq_nil_iff.mp checked.blocks
    sound := checked.sound
    nodes := within
    written := fun other structs grows => Oil.generate_of_grows within grows structs
    unannotated := fun first second => Oil.generate_of_plain (Numbering.isPlain_of_isFresh fresh) }

/-- Unfinished nodes of many kinds, some of them in a function within a block. A
name is taken over twice, and once is not declared. -/
def unfinished : Tree :=
  let b : TreeBuilder := {}
  let heading := b.declarator .declaredName false "int" ⟨0, 0⟩ ⟨0, 0⟩
  let nameless := b.type "int" ⟨0, 0⟩
  b.root "unfinished" [
    b.node .struct ⟨1, 0⟩ "struct" [],
    b.struct ⟨1, 2⟩ ⟨1, 3⟩ "S" [b.declarator .field false "int" ⟨1, 4⟩ ⟨1, 5⟩ "x", nameless],
    b.function ⟨2, 0⟩ nameless [] (b.block ⟨2, 3⟩ []),
    b.node .function ⟨3, 0⟩ "function" [heading "f"],
    b.block ⟨4, 0⟩ [
      b.node .function ⟨4, 1⟩ "function" [
        heading "f", b.node .parameters ⟨4, 2⟩ "(" [heading "a", nameless, heading "a"]],
      b.function ⟨5, 0⟩ (heading "g") [heading "a"] (b.block ⟨5, 3⟩ [
        b.declaration ⟨5, 4⟩ (heading "a") (some (b.identifier ⟨5, 5⟩ "a")),
        b.node .variable ⟨5, 6⟩ "=" [],
        b.prototype ⟨5, 7⟩ (heading "g") [],
        b.node .returnValue ⟨5, 8⟩ "return" []])],
    b.node .whileLoop ⟨6, 0⟩ "while" [],
    b.node .call ⟨7, 0⟩ "(" [b.identifier ⟨7, 1⟩ "g", b.identifier ⟨7, 2⟩ "a"],
    b.node .select ⟨8, 0⟩ "." [b.newStruct ⟨8, 1⟩ ⟨8, 2⟩ "S"]]

theorem unfinished_staysInside : unfinished.IsFresh ∧
    (analyze unfinished).2.diagnostics.errors.length = 12 ∧
    (analyze unfinished).2.symbols.size = 9 ∧ StaysInside unfinished :=
  ⟨rfl, by decide +kernel, by decide +kernel, analyze_staysInside unfinished rfl⟩

end OcLang
