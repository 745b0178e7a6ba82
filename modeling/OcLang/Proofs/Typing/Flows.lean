import OcLang.Proofs.Oil.Output
import OcLang.Proofs.Tree.Shape
import OcLang.Proofs.Typing.Statements

namespace OcLang

/-! # Where values flow

Values are given to variables, targets and parameters, they are returned, and they
are compared. In an accepted tree they are of types that meet there. -/

structure Flow where
  kind : Kind
  expected : ValueType
  actual : ValueType
deriving DecidableEq, Repr

def Analysis.parameterTypes (analysis : Analysis) (function : Nat) : List ValueType :=
  (analysis.symbol function).parameters.map fun parameter => (analysis.symbol parameter).type

namespace Tree

def expectedTypes (analysis : Analysis) (callee : Tree) : List ValueType :=
  (callee.note.symbol.map analysis.parameterTypes).getD []

def flowsHere (analysis : Analysis) (node : Tree) : List Flow :=
  match node.kind, node.children with
  | .variable, _ :: value :: _ => [⟨node.kind, node.note.type, value.note.type⟩]
  | .assign, [target, value] => [⟨node.kind, target.note.type, value.note.type⟩]
  | .binary operator, [left, right] =>
      if operator.isEquality then [⟨node.kind, left.note.type, right.note.type⟩] else []
  | .call, callee :: arguments =>
      ((expectedTypes analysis callee).zip (arguments.map (·.note.type))).map
        fun (expected, actual) => ⟨node.kind, expected, actual⟩
  | .function, _ :: _ :: body :: _ =>
      (returnedAmong body.children).map fun value => ⟨node.kind, node.note.type, value.note.type⟩
  | _, _ => []

def flows (analysis : Analysis) (tree : Tree) : List Flow :=
  tree.walked.flatMap (flowsHere analysis)

structure FlowsSoundly (analysis : Analysis) (tree : Tree) : Prop where
  meet : ∀ flow ∈ tree.flows analysis, flow.expected.Meets flow.actual
  /-- A function that returns a value is not declared to return none. -/
  returns : ∀ flow ∈ tree.flows analysis, flow.kind = .function →
    flow.expected.flags.void = false
  returned : tree.returned = []
  arguments : ∀ node ∈ tree.walked, node.kind = .call → ∀ callee values,
    node.children = callee :: values → (expectedTypes analysis callee).length = values.length

end Tree

/-! ## Types that are the same -/

/-- A stronger relation than `meets`: both are the same type other than `void`, or null
takes the place of a reference. -/
def OcType.agrees : OcType → OcType → Bool
  | .null, other | other, .null => other.isReference
  | first, second => first == second && first != .plain .void

def Flow.Agrees (flow : Flow) : Prop :=
  ∃ one other : OcType, flow.expected = one.valueType ∧ flow.actual = other.valueType ∧
    one.agrees other = true

theorem OcType.valueType_injective {first second : OcType}
    (same : first.valueType = second.valueType) : first = second := by
  rcases first with _ | base | base <;> rcases second with _ | other | other <;>
    try rcases base with _ | _ | _ | name
  all_goals try rcases other with _ | _ | _ | otherName
  all_goals simp_all [valueType, BaseType.flags, BaseType.structName?]

section

variable {analysis : Analysis} {known : List Declared}

theorem parameterTypes_eq {signature : Signature}
    (recorded : signature.RecordedIn analysis.symbols) :
    analysis.parameterTypes signature.symbol = signature.parameters := by
  rcases recorded with ⟨symbol, parameters, stored, role, types⟩
  have here : (analysis.symbol signature.symbol).parameters = parameters := by
    simp [Analysis.symbol, stored, Symbol.parameters, Symbol.parameters?, role]
  rw [Analysis.parameterTypes, here, ← List.forall₂_eq_eq_eq, List.forall₂_map_left_iff]
  apply types.imp
  intro id type held
  rcases held with ⟨parameter, found, same⟩
  rw [Analysis.symbol, found, ← same]
  rfl

theorem expectedTypes_eq {signature : Signature}
    (recorded : signature.RecordedIn analysis.symbols) {callee : Tree}
    (refers : callee.note.symbol = some signature.symbol) :
    Tree.expectedTypes analysis callee = signature.parameters := by
  rw [Tree.expectedTypes, refers, ← parameterTypes_eq recorded]
  rfl

theorem flowsHere_meet {node : Tree} (fits : node.Fits known)
    (recorded : ∀ declared ∈ known, declared.RecordedIn analysis.symbols) :
    ∀ flow ∈ node.flowsHere analysis, flow.expected.Meets flow.actual ∧
      (flow.kind = .function → flow.expected.flags.void = false) := by
  intro flow member
  unfold Tree.flowsHere at member
  split at member
  case h_1 declarator value rest isVariable children =>
    simp only [Tree.Fits, isVariable, children] at fits
    rw [List.mem_singleton.mp member]
    exact ⟨fits, by simp [isVariable]⟩
  case h_2 target value isAssign children =>
    simp only [Tree.Fits, isAssign, children] at fits
    rw [List.mem_singleton.mp member]
    exact ⟨fits, by simp [isAssign]⟩
  case h_3 operator left right isBinary children =>
    simp only [Tree.Fits, isBinary, children] at fits
    split at member
    · rename_i equality
      rw [List.mem_singleton.mp member]
      exact ⟨fits equality, by simp [isBinary]⟩
    · contradiction
  case h_4 callee arguments isCall children =>
    simp only [Tree.Fits, isCall, children] at fits
    rcases fits with ⟨signature, declared, _, refers, types⟩
    rw [expectedTypes_eq (recorded _ declared) refers] at member
    rcases List.mem_map.mp member with ⟨pair, zipped, rfl⟩
    exact ⟨(List.forall₂_iff_zip.mp types).2 zipped, by simp [isCall]⟩
  case h_5 declarator parameters body rest isFunction children =>
    simp only [Tree.Fits, isFunction, children] at fits
    rcases List.mem_map.mp member with ⟨value, returned, rfl⟩
    rcases fits with ⟨_, proper, returns⟩
    rcases returns value returned with ⟨expected, same, notVoid, meets⟩
    cases same
    exact ⟨meets proper, fun _ => notVoid⟩
  case h_6 => contradiction

/-- Types are sound where values flow. -/
theorem analyze_flowsSoundly {tree : Tree} (fresh : tree.IsFresh)
    (accepted : (analyze tree).2.diagnostics.hasErrors = false) :
    (analyze tree).1.FlowsSoundly (analyze tree).2 := by
  rcases analyze_learns fresh accepted with ⟨knows, fits, returned⟩
  have recorded : ∀ declared ∈ (analyze tree).1.walked.filterMap Tree.declared?,
      declared.RecordedIn (analyze tree).2.symbols := knows.recorded
  have sound : ∀ flow ∈ (analyze tree).1.flows (analyze tree).2,
      flow.expected.Meets flow.actual ∧
        (flow.kind = .function → flow.expected.flags.void = false) := by
    intro flow member
    rcases List.mem_flatMap.mp member with ⟨node, inside, here⟩
    exact flowsHere_meet (fits node inside) recorded flow here
  constructor
  · exact fun flow member => (sound flow member).1
  · exact fun flow member => (sound flow member).2
  · exact returned
  · intro node inside isCall callee values children
    have called := fits node inside
    simp only [Tree.Fits, isCall, children] at called
    rcases called with ⟨signature, declared, _, refers, types⟩
    rw [expectedTypes_eq (recorded _ declared) refers, types.length_eq, List.length_map]

end

/-- Values of many types: an array of structs, a string and null are initialized,
assigned, passed, compared and returned. -/
def passingAround : String :=
  "[\"root\",[0,0,0],\"t\",[
    [\"struct\",[0,1,0],\"\",[[\"typeid\",[0,1,7],\"s\"],
      [\"string\",[0,1,10],\"string\",[[\"field\",[0,1,17],\"t\"]]]]],
    [\"function\",[0,2,0],\"\",[
      [\"typeid\",[0,2,0],\"s\",[[\"declid\",[0,2,4],\"f\"]]],
      [\"paramlist\",[0,2,6],\"\",[
        [\"typeid\",[0,2,6],\"s\",[[\"array\",[0,2,7]],[\"declid\",[0,2,10],\"a\"]]]]],
      [\"block\",[0,2,13],\"\",[
        [\"if\",[0,3,2],\"\",[
          [\"ne\",[0,3,8],\"\",[[\"ident\",[0,3,6],\"a\"],[\"null\",[0,3,11],\"null\"]]],
          [\"return\",[0,3,17],\"\",[
            [\"index\",[0,3,25],\"\",[[\"ident\",[0,3,24],\"a\"],[\"intcon\",[0,3,26],\"0\"]]]]]]],
        [\"return\",[0,4,2],\"\",[[\"null\",[0,4,9],\"null\"]]]]]]],
    [\"vardecl\",[0,5,0],\"\",[
      [\"typeid\",[0,5,0],\"s\",[[\"array\",[0,5,1]],[\"declid\",[0,5,4],\"x\"]]],
      [\"newarray\",[0,5,8],\"\",[[\"typeid\",[0,5,12],\"s\"],[\"intcon\",[0,5,14],\"4\"]]]]],
    [\"assign\",[0,6,8],\"\",[
      [\"select\",[0,6,5],\"\",[
        [\"call\",[0,6,1],\"\",[[\"ident\",[0,6,0],\"f\"],[\"ident\",[0,6,2],\"x\"]]],
        [\"field\",[0,6,6],\"t\"]]],
      [\"stringcon\",[0,6,10],\"\\\"u\\\"\"]]]]]"

set_option maxRecDepth 8192 in
theorem passingAround_flowsSoundly : ∃ root, Tree.load passingAround = .ok root ∧
    (analyze root).2.diagnostics.hasErrors = false ∧
    (analyze root).1.FlowsSoundly (analyze root).2 := by
  have accepted : ((Tree.load passingAround).toOption.any fun root => root.kind == .root &&
      (compile false root).oil.isSome && true) = true := by
    rw [show passingAround = String.ofList _ from rfl, Tree.load_ofList]
    decide +kernel
  rcases exists_compiled accepted with ⟨root, text, loaded, _, generated, _⟩
  have fine := accepted_of_oil (Option.isSome_iff_exists.mpr ⟨text, generated⟩)
  exact ⟨root, loaded, fine, analyze_flowsSoundly (Tree.isFresh_of_load loaded) fine⟩

def numberForArray : String :=
  "[\"root\",[0,0,0],\"t\",[
    [\"vardecl\",[0,1,0],\"\",[
      [\"int\",[0,1,0],\"int\",[[\"array\",[0,1,3]],[\"declid\",[0,1,6],\"x\"]]],
      [\"intcon\",[0,1,10],\"1\"]]]]]"

set_option maxRecDepth 4096 in
/-- The types are not the same, and neither is null. -/
theorem numberForArray_disagrees : ∃ root text, Tree.load numberForArray = .ok root ∧
    (compile false root).oil = some text ∧
    ¬∀ flow ∈ (analyze root).1.flows (analyze root).2, flow.Agrees := by
  have accepted : ((Tree.load numberForArray).toOption.any fun root => root.kind == .root &&
      (compile false root).oil.isSome && decide ((analyze root).1.flows (analyze root).2 =
        [⟨.variable, (OcType.array .int).valueType, (OcType.plain .int).valueType⟩])) = true := by
    rw [show numberForArray = String.ofList _ from rfl, Tree.load_ofList]
    decide +kernel
  rcases exists_compiled accepted with ⟨root, text, loaded, _, generated, flows⟩
  refine ⟨root, text, loaded, generated, ?_⟩
  rw [of_decide_eq_true flows, List.forall_mem_singleton]
  intro agrees
  rcases agrees with ⟨one, other, expected, actual, agree⟩
  have array : OcType.array .int = one := OcType.valueType_injective expected
  have number : OcType.plain .int = other := OcType.valueType_injective actual
  rw [← array, ← number] at agree
  exact absurd agree (by decide)

end OcLang
