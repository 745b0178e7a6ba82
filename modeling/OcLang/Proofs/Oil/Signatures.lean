import OcLang.Proofs.Oil.Definitions
import OcLang.Proofs.Oil.Origins
import OcLang.Proofs.Oil.Output
import OcLang.Proofs.Typing.Flows

namespace OcLang

/-! # Calls and the functions that they call

A call is checked against the declaration that it finds. A definition may follow
with other parameters, if that was a prototype. -/

def Declared.signature? : Declared → Option Signature
  | .function signature => some signature
  | .struct _ => none

namespace Tree

def signature? (node : Tree) : Option Signature :=
  node.declared?.bind Declared.signature?

def signatures (tree : Tree) : List Signature :=
  tree.walked.filterMap signature?

def calledName? (call : Tree) : Option String :=
  call.children.head?.map (·.text)

def calledSymbol? (call : Tree) : Option Nat :=
  call.children.head?.bind (·.note.symbol)

def passedTypes (call : Tree) : List ValueType :=
  call.children.tail.map (·.note.type)

end Tree

def Signature.Admits (signature : Signature) (call : Tree) : Prop :=
  signature.parameters.Forall₂ ValueType.Meets call.passedTypes

/-- The call passes what the definition wants, unless it found a prototype with other parameters
and passes what that wants. -/
def Signature.IsMatchedBy (definition : Signature) (root call : Tree) : Prop :=
  definition.Admits call ∨ ∃ prototype ∈ root.signatures, prototype.isPrototype = true ∧
    prototype.name = definition.name ∧ call.calledSymbol? = some prototype.symbol ∧
    prototype.parameters ≠ definition.parameters ∧ prototype.Admits call

theorem signature?_eq_some_iff {node : Tree} {signature : Signature} :
    node.signature? = some signature ↔ node.declared? = some (.function signature) := by
  rw [Tree.signature?, Option.bind_eq_some_iff]
  constructor
  · intro found
    rcases found with ⟨declared, here, same⟩
    cases declared with
    | function other =>
        cases same
        exact here
    | struct record => contradiction
  · intro declared
    exact ⟨_, declared, rfl⟩

theorem exists_signature {node : Tree} (isFunction : node.kind = .function)
    (declares : node.declared?.isSome = true) : ∃ signature, node.signature? = some signature := by
  rcases Option.isSome_iff_exists.mp declares with ⟨declared, found⟩
  cases declared with
  | function signature => exact ⟨signature, signature?_eq_some_iff.mpr found⟩
  | struct record =>
      rw [Tree.kind_of_struct found] at isFunction
      contradiction

theorem mem_signatures {tree : Tree} {signature : Signature} :
    signature ∈ tree.signatures ↔
      .function signature ∈ tree.walked.filterMap Tree.declared? := by
  simp only [Tree.signatures, List.mem_filterMap, signature?_eq_some_iff]

theorem parameters_eq {analysis : Analysis} {first second : Signature}
    (recorded : first.RecordedIn analysis.symbols)
    (recordedSecond : second.RecordedIn analysis.symbols)
    (same : first.symbol = second.symbol) : first.parameters = second.parameters := by
  rw [← parameterTypes_eq recorded, ← parameterTypes_eq recordedSecond, same]

namespace Oil

def Operand.call? : Operand → Option (String × List Operand)
  | .call function arguments => some (function, arguments)
  | _ => none

def Program.calls (program : Program) : List (String × List Operand) :=
  program.operands.filterMap Operand.call?

def Function.parameterCount (function : Function) : Nat :=
  (function.parameters.getD []).length

section

variable (analysis : Analysis) (root : Tree)

structure IsCallOf (arguments : List Operand) (function : String) (call : Tree) : Prop where
  inside : call ∈ root.walked
  kind : call.kind = .call
  lowers : LowersTo analysis call (.call function arguments)

def IsDefinitionOf (function : Function) (definition : Signature) : Prop :=
  ∃ item, (root.definitions function.name).getLast? = some item ∧
    function.Defines analysis item ∧ item.signature? = some definition

/-- Every call of the function in the program is made for a node, with one operand for each of
the values there. All nodes that call the function match its definition. -/
structure MatchesDefinition (program : Program) (function : Function)
    (definition : Signature) : Prop where
  defines : IsDefinitionOf analysis root function definition
  name : definition.name = function.name
  count : function.parameterCount = definition.parameters.length
  made : ∀ arguments, (function.name, arguments) ∈ program.calls →
    ∃ call, IsCallOf analysis root arguments function.name call
  passes : ∀ arguments call, IsCallOf analysis root arguments function.name call →
    call.calledName? = some function.name ∧
      call.children.tail.Forall₂ (LowersTo analysis) arguments
  matched : ∀ call ∈ root.walked, call.kind = .call →
    call.calledName? = some function.name → definition.IsMatchedBy root call

end

section

variable {analysis : Analysis} {root : Tree}

theorem lowerAll_lowers (trees : List Tree) (number : Nat) :
    Ends (lowerAll analysis trees) number fun lowered _ =>
      trees.Forall₂ (LowersTo analysis) lowered.2 := by
  induction trees generalizing number with
  | nil => exact .pure .nil
  | cons tree rest induction =>
      simp only [lowerAll]
      apply Ends.bind
      apply Ends.run
      apply Ends.bind
      apply (induction _).imp
      intro others _ lowers
      exact .pure (.cons ⟨number, rfl⟩ lowers)

theorem of_lowersTo_call {call : Tree} {function : String} {arguments : List Operand}
    (isCall : call.kind = .call) (lowers : LowersTo analysis call (.call function arguments)) :
    call.calledName? = some function ∧ call.children.tail.Forall₂ (LowersTo analysis) arguments := by
  rcases lowers with ⟨number, lowers⟩
  rcases call with ⟨kind, location, text, note, children⟩
  simp only at isCall
  subst isCall
  rcases children with _ | ⟨callee, values⟩
  · have plain : lower analysis ⟨.call, location, text, note, []⟩ = pure (noValue .call) := rfl
    rw [plain] at lowers
    contradiction
  · have each : values.Forall₂ (LowersTo analysis) ((lowerAll analysis values).run number).1.2 :=
      lowerAll_lowers values number
    simp only [lower, run_bind, run_pure, Operand.call.injEq] at lowers
    rw [lowers.2] at each
    exact ⟨congrArg some lowers.1, each⟩

theorem length_parameters {parameters : Tree} (shaped : parameters.IsShaped)
    (list : parameters.kind = .parameters) :
    (parameters.children.filterMap (parameter? analysis)).length = parameters.children.length := by
  rcases parameters with ⟨kind, location, text, note, children⟩
  simp only at list
  subst list
  have declare : children.all (·.declares .declaredName) = true := by
    simpa [Tree.shapeFault?, Tree.require] using shaped.fault
  rw [List.filterMap_length_eq_length]
  intro child member
  rcases Tree.declaredName?_of_declares (List.all_eq_true.mp declare child member) with
    ⟨_, name, declared⟩
  rw [parameter?, declared]
  rfl

/-- A definition has the name and as many parameters as the function that is made for it. -/
theorem Function.IsFrom.signature {function : Function} {item : Tree} {definition : Signature}
    (made : function.IsFrom analysis item) (shaped : item.IsShaped)
    (isFunction : item.kind = .function) (declares : item.signature? = some definition) :
    definition.name = function.name ∧ definition.isPrototype = false ∧
      function.parameterCount = definition.parameters.length := by
  rcases made with ⟨declarator, parameters, body, name, children, declared, _, named, listed⟩
  rcases item with ⟨kind, location, text, note, parts⟩
  simp only at isFunction children
  subst isFunction children
  have shapedList : parameters.IsShaped := shaped.child (by simp)
  rcases shaped.function with ⟨_, _, _, _, _, _, _, same, _, _, list⟩
  simp only [List.cons.injEq] at same
  rw [← same.2.1] at list
  rw [signature?_eq_some_iff] at declares
  simp only [Tree.declared?, declared, Option.bind_some] at declares
  rcases Option.map_eq_some_iff.mp declares with ⟨id, _, same⟩
  cases same
  refine ⟨named.symm, rfl, ?_⟩
  have length : (parameters.children.filterMap (parameter? analysis)).length =
      parameters.children.length := length_parameters shapedList list
  rw [parameterCount, listed, List.length_map, ← length]
  split
  · rename_i empty
    rw [List.isEmpty_iff.mp empty]
    rfl
  · rfl

theorem exists_definition (shaped : root.IsShaped) {function : Function}
    (defined : function ∈ (generate analysis root).functions) :
    ∃ item, (root.definitions function.name).getLast? = some item ∧
      function.Defines analysis item := by
  have each := @generate_definesLast analysis root shaped
  have last := List.getLast?_eq_some_getLast (each.named function defined)
  rcases each.last function.name _ last with ⟨other, only, defines⟩
  have same : function ∈ (generate analysis root).functions.filter (·.name == function.name) :=
    List.mem_filter.mpr ⟨defined, beq_self_eq_true _⟩
  rw [only, List.mem_singleton] at same
  subst same
  exact ⟨_, last, defines⟩

/-- Without a warning, a call matches the definition of the function that it calls. -/
theorem isMatchedBy_of_calls {state : AnalysisState}
    (knows : Knows (root.walked.filterMap Tree.declared?) state)
    (fits : ∀ node ∈ root.walked, node.Fits (root.walked.filterMap Tree.declared?))
    (silent : state.diagnostics.items = []) {definition : Signature}
    (known : definition ∈ root.signatures) (defines : definition.isPrototype = false)
    {call : Tree} (inside : call ∈ root.walked) (isCall : call.kind = .call)
    (named : call.calledName? = some definition.name) : definition.IsMatchedBy root call := by
  have called := fits call inside
  rcases call with ⟨kind, location, text, note, children⟩
  simp only at isCall
  subst isCall
  rcases children with _ | ⟨callee, values⟩
  · contradiction
  have named : callee.text = definition.name := Option.some.inj named
  rcases called with ⟨signature, signatureKnown, name, refers, admits⟩
  rw [mem_signatures] at known
  by_cases same : signature.parameters = definition.parameters
  · left
    rw [Signature.Admits, ← same]
    exact admits
  · -- What is not a prototype would have been the definition.
    have isPrototype : signature.isPrototype = true := by
      rw [← Bool.not_eq_false]
      intro notPrototype
      have found := knows.definitions silent signature signatureKnown notPrototype
      have foundDefinition := knows.definitions silent definition known defines
      rw [name, named, foundDefinition] at found
      have sameSymbol : signature.symbol = definition.symbol := (Option.some.inj found).symm
      have recorded : signature.RecordedIn (Analysis.ofState state).symbols :=
        knows.recorded _ signatureKnown
      exact same (parameters_eq recorded (knows.recorded _ known) sameSymbol)
    right
    exact ⟨signature, mem_signatures.mpr signatureKnown, isPrototype, name.trans named, refers,
      same, admits⟩

theorem matchesDefinition {state : AnalysisState}
    (knows : Knows (root.walked.filterMap Tree.declared?) state)
    (fits : ∀ node ∈ root.walked, node.Fits (root.walked.filterMap Tree.declared?))
    (silent : state.diagnostics.items = []) (shaped : root.IsShaped) (isRoot : root.kind = .root)
    {function : Function} (defined : function ∈ (generate (.ofState state) root).functions) :
    ∃ definition, MatchesDefinition (.ofState state) root (generate (.ofState state) root) function
      definition := by
  rcases exists_definition shaped defined with ⟨item, last, made⟩
  have both := List.mem_filter.mp (List.mem_filter.mp (List.mem_of_getLast? last)).1
  have isFunction : item.kind = .function := beq_iff_eq.mp both.2
  have itemInside := (Tree.children_sublist_walked isRoot).subset both.1
  have declares : item.declared?.isSome = true := by
    rcases made.heading with ⟨declarator, parameters, body, _, parts, _⟩
    have fit := fits item itemInside
    simp only [Tree.Fits, isFunction, parts] at fit
    exact fit.1
  rcases exists_signature isFunction declares with ⟨definition, declares⟩
  have known : definition ∈ root.signatures := List.mem_filterMap.mpr ⟨item, itemInside, declares⟩
  rcases made.heading.signature (shaped.child both.1) isFunction declares with
    ⟨sameName, defines, count⟩
  refine ⟨definition, ⟨item, last, made, declares⟩, sameName, count, ?_, ?_, ?_⟩
  · intro arguments written
    rcases List.mem_filterMap.mp written with ⟨operand, inProgram, calls⟩
    cases operand <;> simp [Operand.call?] at calls
    rcases calls with ⟨rfl, rfl⟩
    rcases generate_arises isRoot _ inProgram _ rfl with ⟨call, inside, isCall, lowers⟩
    exact ⟨call, inside, isCall, lowers⟩
  · intro arguments call isCallOf
    exact of_lowersTo_call isCallOf.kind isCallOf.lowers
  · intro call inside isCall named
    rw [← sameName] at named
    exact isMatchedBy_of_calls knows fits silent known defines inside isCall named

end

end Oil

theorem items_eq_nil {root : Tree} {warningsAsErrors : Bool}
    (silent : (compile warningsAsErrors root).diagnostics.items = []) :
    (analyze root).2.diagnostics.items = [] := by
  cases warningsAsErrors with
  | false => exact silent
  | true => exact List.map_eq_nil_iff.mp silent

/-- Without any diagnostic, a program is made, and for each of its functions all calls match the
definition that the function is made from. -/
theorem compile_matchesDefinitions {source : String} {root : Tree} {warningsAsErrors : Bool}
    (loaded : Tree.load source = .ok root) (isRoot : root.kind = .root)
    (silent : (compile warningsAsErrors root).diagnostics.items = []) :
    (compile warningsAsErrors root).oil = some root.program.render ∧
      ∀ function ∈ root.program.functions, ∃ definition,
        Oil.MatchesDefinition (analyze root).2 (analyze root).1 root.program function
          definition := by
  have none := items_eq_nil silent
  have accepted {diagnostics : Diagnostics} (none : diagnostics.items = []) :
      diagnostics.hasErrors = false := by
    rw [Diagnostics.hasErrors, none]
    rfl
  have shaped := Tree.isShaped_of_load loaded
  have same := (analyze_follows False root False.elim).1
  have isRootAnnotated : (analyze root).1.kind = .root := by
    rw [((Tree.bare_eq_iff _ _).mp same).1, isRoot]
  rcases analyze_learns (Tree.isFresh_of_load loaded) (accepted none) with ⟨knows, fits, _⟩
  constructor
  · exact oil_of_accepted (accepted silent)
  · intro function defined
    exact Oil.matchesDefinition knows fits none (shaped.congr same) isRootAnnotated defined

/-- Two functions that call each other; a prototype stands before the one that calls
first. -/
def callingBack : String :=
  "[\"root\",[0,0,0],\"t\",[
    [\"prototype\",[0,1,0],\"\",[
      [\"int\",[0,1,0],\"int\",[[\"declid\",[0,1,4],\"g\"]]],
      [\"paramlist\",[0,1,6],\"\",[[\"int\",[0,1,6],\"int\",[[\"declid\",[0,1,10],\"a\"]]]]]]],
    [\"function\",[0,2,0],\"\",[
      [\"int\",[0,2,0],\"int\",[[\"declid\",[0,2,4],\"f\"]]],
      [\"paramlist\",[0,2,6],\"\",[
        [\"int\",[0,2,6],\"int\",[[\"declid\",[0,2,10],\"a\"]]],
        [\"string\",[0,2,13],\"string\",[[\"declid\",[0,2,20],\"b\"]]]]],
      [\"block\",[0,2,23],\"\",[
        [\"return\",[0,2,25],\"\",[
          [\"call\",[0,2,33],\"\",[[\"ident\",[0,2,32],\"g\"],[\"ident\",[0,2,34],\"a\"]]]]]]]]],
    [\"function\",[0,3,0],\"\",[
      [\"int\",[0,3,0],\"int\",[[\"declid\",[0,3,4],\"g\"]]],
      [\"paramlist\",[0,3,6],\"\",[[\"int\",[0,3,6],\"int\",[[\"declid\",[0,3,10],\"a\"]]]]],
      [\"block\",[0,3,13],\"\",[
        [\"return\",[0,3,15],\"\",[
          [\"call\",[0,3,23],\"\",[[\"ident\",[0,3,22],\"f\"],[\"ident\",[0,3,24],\"a\"],
            [\"null\",[0,3,27],\"null\"]]]]]]]]],
    [\"call\",[0,4,1],\"\",[[\"ident\",[0,4,0],\"g\"],
      [\"call\",[0,4,3],\"\",[[\"ident\",[0,4,2],\"f\"],[\"intcon\",[0,4,4],\"1\"],
        [\"stringcon\",[0,4,7],\"\\\"x\\\"\"]]]]]]]"

set_option maxRecDepth 8192 in
theorem callingBack_matchesDefinitions : ∃ root, Tree.load callingBack = .ok root ∧
    root.kind = .root ∧ (compile false root).diagnostics.items = [] ∧
    root.program.calls.map (·.1) = ["g", "f", "g", "f"] ∧
    ∀ function ∈ root.program.functions, ∃ definition,
      Oil.MatchesDefinition (analyze root).2 (analyze root).1 root.program function
        definition := by
  have accepted : ((Tree.load callingBack).toOption.any fun root => root.kind == .root &&
      (compile false root).oil.isSome && decide ((compile false root).diagnostics.items = [] ∧
        root.program.calls.map (·.1) = ["g", "f", "g", "f"])) = true := by
    rw [show callingBack = String.ofList _ from rfl, Tree.load_ofList]
    decide +kernel
  rcases exists_compiled accepted with ⟨root, text, loaded, isRoot, _, decided⟩
  have holds := of_decide_eq_true decided
  exact ⟨root, loaded, isRoot, holds.1, holds.2,
    (compile_matchesDefinitions loaded isRoot holds.1).2⟩

/-- A call finds a prototype with a parameter, and the definition has none. -/
def misleading : String :=
  "[\"root\",[0,0,0],\"t\",[
    [\"prototype\",[0,1,0],\"\",[
      [\"int\",[0,1,0],\"int\",[[\"declid\",[0,1,4],\"f\"]]],
      [\"paramlist\",[0,1,6],\"\",[[\"int\",[0,1,6],\"int\",[[\"declid\",[0,1,10],\"a\"]]]]]]],
    [\"call\",[0,2,1],\"\",[[\"ident\",[0,2,0],\"f\"],[\"intcon\",[0,2,2],\"1\"]]],
    [\"function\",[0,3,0],\"\",[
      [\"int\",[0,3,0],\"int\",[[\"declid\",[0,3,4],\"f\"]]],[\"paramlist\",[0,3,5]],
      [\"block\",[0,3,8],\"\",[[\"return\",[0,3,10],\"\",[[\"intcon\",[0,3,17],\"1\"]]]]]]]]]"

set_option maxRecDepth 4096 in
/-- The call passes more than the definition has parameters. -/
theorem misleading_passesMore : ∃ root, Tree.load misleading = .ok root ∧ root.kind = .root ∧
    (compile false root).diagnostics.items = [] ∧
    ∃ function ∈ root.program.functions, ∃ call ∈ root.program.calls,
      call.1 = function.name ∧ function.parameterCount < call.2.length := by
  have accepted : ((Tree.load misleading).toOption.any fun root => root.kind == .root &&
      (compile false root).oil.isSome && decide ((compile false root).diagnostics.items = [] ∧
        ∃ function ∈ root.program.functions, ∃ call ∈ root.program.calls,
          call.1 = function.name ∧ function.parameterCount < call.2.length)) = true := by
    rw [show misleading = String.ofList _ from rfl, Tree.load_ofList]
    decide +kernel
  rcases exists_compiled accepted with ⟨root, text, loaded, isRoot, _, decided⟩
  have holds := of_decide_eq_true decided
  exact ⟨root, loaded, isRoot, holds.1, holds.2⟩

end OcLang
