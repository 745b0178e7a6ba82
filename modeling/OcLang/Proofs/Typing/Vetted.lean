import Mathlib.Data.List.Forall2
import OcLang.Proofs.Analysis.ExpressionChecks
import OcLang.Proofs.Tree.Walk
import OcLang.Proofs.Typing.Settled

namespace OcLang

open Check

/-! # Checks that have been made

Most checks are skipped for values without a type. In a tree without errors none
has been skipped: whatever a check wants to see is there. -/

namespace Tree

mutual
def returns : Tree → List Tree
  | ⟨.root, _, _, _, children⟩ => returnsAmong children
  | ⟨.block, _, _, _, children⟩ => returnsAmong children
  | ⟨.whileLoop, _, _, _, _ :: bodies⟩ => returnsAmong bodies
  | ⟨.ifThen, _, _, _, _ :: bodies⟩ => returnsAmong bodies
  | ⟨.ifElse, _, _, _, _ :: bodies⟩ => returnsAmong bodies
  | tree => if tree.kind = .returnValue ∨ tree.kind = .returnVoid then [tree] else []

def returnsAmong : List Tree → List Tree
  | [] => []
  | tree :: rest => tree.returns ++ returnsAmong rest
end

theorem returnsAmong_eq_flatMap (trees : List Tree) :
    returnsAmong trees = trees.flatMap returns := by
  induction trees with
  | nil => rfl
  | cons tree rest induction => simp [returnsAmong, induction]

theorem returns_root {root : Tree} (isRoot : root.kind = .root) :
    root.returns = returnsAmong root.children := by
  rcases root with ⟨kind, location, text, note, children⟩
  simp only at isRoot
  subst isRoot
  rw [returns]

theorem returns_control {kind : Kind} (control : kind.isControl = true) (location : Location)
    (text : String) (note : Note) (test : Tree) (bodies : List Tree) :
    returns ⟨kind, location, text, note, test :: bodies⟩ = returnsAmong bodies := by
  cases kind <;> simp [Kind.isControl] at control <;> simp only [returns]

theorem returns_eq_nil {tree : Tree} (simple : tree.isCompound = false)
    (value : tree.kind ≠ .returnValue) (void : tree.kind ≠ .returnVoid) : tree.returns = [] := by
  unfold returns
  split <;> simp_all [isCompound]

def declaredSymbol? (symbols : Array Symbol) (declarator : Tree) : Option Symbol :=
  (declarator.declaredName?.bind (·.note.symbol)).bind (symbols[·]?)

def ReturnsFor (result : Option ValueType) (statement : Tree) : Prop :=
  match statement.kind, statement.children with
  | .returnVoid, _ => ∀ type ∈ result, type.flags.void = true
  | .returnValue, value :: _ =>
      ∃ type, result = some type ∧ type.flags.void = false ∧
        type.compatible value.note.type = true
  | _, _ => False

def IsChecked (symbols : Array Symbol) (node : Tree) : Prop :=
  match node.kind, node.children with
  | .assign, [target, value] =>
      target.note.attributes.roles.isLvalue = true ∧
        target.note.type.compatible value.note.type = true
  | .binary operator, [left, right] =>
      if operator.isEquality then left.note.type.compatible right.note.type = true
      else left.note.attributes.type.isInteger = true ∧
        right.note.attributes.type.isInteger = true
  | .unary _, operand :: _ => operand.note.attributes.type.isInteger = true
  | .index, [array, position] =>
      position.note.attributes.type.isInteger = true ∧
        ((array.note.attributes.type.array = true ∧ array.note.attributes.type.null = false) ∨
          array.note.attributes.type.string = true)
  | .select, [object, field] =>
      object.note.attributes.type.isPlainStruct = true ∧ object.note.structName.isSome = true ∧
        field.note.symbol.isSome = true
  | .allocate .struct, [_] => True
  | .allocate .array, [_, size] => size.note.attributes.type.isInteger = true
  | .allocate .string, [size] => size.note.attributes.type.isInteger = true
  | .call, callee :: arguments =>
      ∃ function, callee.note.symbol.bind (symbols[·]?) = some function ∧
        function.isFunction = true ∧
        function.parameters.Forall₂ (fun id argument => ∃ parameter, symbols[id]? = some parameter ∧
          parameter.type.compatible argument.note.type = true) arguments
  | .assign, _ | .binary _, _ | .unary _, _ | .index, _ | .select, _ | .allocate _, _
  | .call, _ => False
  | .variable, declarator :: value :: _ =>
      ∃ symbol, declarator.declaredSymbol? symbols = some symbol ∧
        symbol.type.compatible value.note.type = true
  | .whileLoop, test :: _ | .ifThen, test :: _ | .ifElse, test :: _ =>
      test.note.attributes.type.isInteger = true
  | .function, declarator :: _ :: body :: _ =>
      ∃ symbol, declarator.declaredSymbol? symbols = some symbol ∧
        (symbol.type.flags.void = true ↔ declarator.kind = .type .void) ∧
        ∀ statement ∈ returnsAmong body.children, statement.ReturnsFor (some symbol.type)
  | _, _ => True

theorem declaredSymbol?_grows {symbols more : Array Symbol} (grows : Grows symbols more)
    {declarator : Tree} {symbol : Symbol}
    (declared : declarator.declaredSymbol? symbols = some symbol) :
    declarator.declaredSymbol? more = some symbol := by
  rcases Option.bind_eq_some_iff.mp declared with ⟨id, noted, stored⟩
  exact Option.bind_eq_some_iff.mpr ⟨id, noted, grows _ _ stored⟩

theorem IsChecked.grows {symbols more : Array Symbol} (grows : Grows symbols more) {node : Tree}
    (checked : node.IsChecked symbols) : node.IsChecked more := by
  revert checked
  unfold IsChecked
  split
  case h_9 =>
    rintro ⟨function, known, isFunction, fitting⟩
    rcases Option.bind_eq_some_iff.mp known with ⟨id, noted, stored⟩
    refine ⟨function, Option.bind_eq_some_iff.mpr ⟨id, noted, grows _ _ stored⟩, isFunction,
      fitting.imp ?_⟩
    rintro id argument ⟨parameter, stored, fits⟩
    exact ⟨parameter, grows _ _ stored, fits⟩
  case h_17 =>
    rintro ⟨symbol, declared, fits⟩
    exact ⟨symbol, declaredSymbol?_grows grows declared, fits⟩
  case h_21 =>
    rintro ⟨symbol, declared, returning⟩
    exact ⟨symbol, declaredSymbol?_grows grows declared, returning⟩
  all_goals exact id

structure IsVetted (symbols : Array Symbol) (node : Tree) : Prop where
  typed : node.kind.isExpression = true → node.note.isTyped = true
  checked : node.IsChecked symbols

theorem IsVetted.grows {symbols more : Array Symbol} (grows : Grows symbols more) {node : Tree}
    (vetted : node.IsVetted symbols) : node.IsVetted more :=
  ⟨vetted.typed, vetted.checked.grows grows⟩

structure IsSafe (symbols : Array Symbol) (tree : Tree) : Prop where
  base : tree.note.attributes.type.hasBase = true
  returns : tree.returns = []
  vetted : ∀ node ∈ tree.walked, node.IsVetted symbols

theorem IsSafe.isTyped {symbols : Array Symbol} {tree : Tree} (safe : tree.IsSafe symbols) :
    tree.note.isTyped = true :=
  TypeFlags.isTyped_of_hasBase safe.base

theorem IsSafe.of_walked {symbols : Array Symbol} {tree : Tree} {nodes : List Tree}
    (walked : tree.walked = tree :: nodes) (returns : tree.returns = [])
    (base : tree.note.attributes.type.hasBase = true) (checked : tree.IsChecked symbols)
    (below : ∀ node ∈ nodes, node.IsVetted symbols) : tree.IsSafe symbols where
  base := base
  returns := returns
  vetted := by
    rw [walked, List.forall_mem_cons]
    exact ⟨⟨fun _ => TypeFlags.isTyped_of_hasBase base, checked⟩, below⟩

end Tree

namespace Note

theorem hasBase_add {attributes : Attributes} (base : attributes.type.hasBase = true)
    (note : Note) : (note.add attributes).attributes.type.hasBase = true := by
  show (note.attributes.type ∪ attributes.type).hasBase = true
  rw [TypeFlags.hasBase_union, base, Bool.or_true]

theorem hasBase_addType {type : ValueType} (base : type.flags.hasBase = true) (note : Note)
    (roles : Roles) : (note.addType type roles).attributes.type.hasBase = true :=
  hasBase_add base note

end Note

/-- What has been reported later was no error either. -/
theorem AnalysisState.accepted_before {state : AnalysisState} {problems : List Problem}
    (accepted : (state.reporting problems).Accepted) : state.Accepted :=
  (Extends.reporting state problems).accepted accepted

theorem AnalysisState.accepted_behind {state : AnalysisState} {problems more : List Problem}
    (accepted : (state.reporting (problems ++ more)).Accepted) :
    ((state.reporting problems).reporting more).Accepted := by
  rwa [AnalysisState.reporting_reporting]

/-! ## Steps that only report -/

namespace Check

variable {Value Result : Type} {state : AnalysisState}

/-- Run from a state, the step only reports, and this holds of its result unless
an error has been reported by then. -/
def Achieves (step : Check Value) (state : AnalysisState) (holds : Value → Prop) : Prop :=
  Reports step state fun value problems => (state.reporting problems).Accepted → holds value

namespace Achieves

theorem pure {holds : Value → Prop} {value : Value} (here : state.Accepted → holds value) :
    Achieves (pure value) state holds :=
  Reports.pure here

theorem bind {step : Check Value} {next : Value → Check Result} {holds : Value → Prop}
    {more : Result → Prop} (first : Achieves step state holds)
    (rest : ∀ value problems, ((state.reporting problems).Accepted → holds value) →
      Achieves (next value) (state.reporting problems) more) :
    Achieves (step >>= next) state more := by
  apply Reports.bind
  apply first.imp
  intro value problems achieved
  apply (rest value problems achieved).imp
  intro result others here
  rwa [AnalysisState.reporting_reporting] at here

theorem imp {step : Check Value} {holds weaker : Value → Prop}
    (achieves : Achieves step state holds) (implies : ∀ value, holds value → weaker value) :
    Achieves step state weaker :=
  Reports.imp achieves fun _ _ here accepted => implies _ (here accepted)

theorem behind {step : Check Value} {problems : List Problem} {holds : Value → Prop}
    (achieves : Achieves step (state.reporting problems) holds) :
    Reports step (state.reporting problems) fun value more =>
      (state.reporting (problems ++ more)).Accepted → holds value := by
  apply Reports.imp achieves
  intro value more here accepted
  exact here (AnalysisState.accepted_behind accepted)

theorem get {next : AnalysisState → Check Value} {holds : Value → Prop}
    (rest : Achieves (next state) state holds) :
    Achieves (MonadState.get >>= next) state holds :=
  Reports.bind (.get rest)

theorem symbol {id : Nat} {next : Symbol → Check Value} {holds : Value → Prop}
    (rest : Achieves (next (state.symbol id)) state holds) :
    Achieves (Check.symbol id >>= next) state holds :=
  Reports.bind (.symbol rest)

theorem refused {problem : Problem} (isError : problem.severity = .error) {value : Value}
    {holds : Value → Prop} :
    Achieves (do report problem; return value) state holds := by
  apply Reports.bind
  apply Reports.report
  apply Reports.pure
  intro accepted
  exact absurd accepted (AnalysisState.refused_reporting isError)

theorem ends {step : Check Value} {holds : Value → Prop} (achieves : Achieves step state holds)
    {weaker : Value → AnalysisState → Prop}
    (implies : ∀ value problems, ((state.reporting problems).Accepted → holds value) →
      weaker value (state.reporting problems)) : Ends step state weaker :=
  Reports.ends achieves implies

end Achieves

theorem requireInteger_achieves (context : String) {value : Tree}
    (typed : state.Accepted → value.note.isTyped = true) :
    Achieves (requireInteger context value) state fun _ =>
      value.note.attributes.type.isInteger = true := by
  unfold requireInteger
  split
  · exact Reports.report fun accepted => absurd accepted (AnalysisState.refused_reporting rfl)
  · rename_i fine
    apply Achieves.pure
    intro accepted
    simpa [typed accepted] using fine

theorem requireCompatible_achieves (context : String) {expected : ValueType} {value : Tree}
    (known : state.Accepted → expected.flags.hasBase = true)
    (typed : state.Accepted → value.note.isTyped = true) :
    Achieves (requireCompatible context expected value) state fun _ =>
      expected.compatible value.note.type = true := by
  unfold requireCompatible
  split
  · exact Reports.report fun accepted => absurd accepted (AnalysisState.refused_reporting rfl)
  · rename_i fine
    apply Achieves.pure
    intro accepted
    have knownType : expected.isTyped = true := TypeFlags.isTyped_of_hasBase (known accepted)
    simpa [knownType, typed accepted] using fine

theorem declaredType_achieves (enclosing : Option String) (declarator : Tree)
    (state : AnalysisState) :
    Achieves (declaredType enclosing declarator) state fun declared =>
      declared.flags.hasBase = true :=
  (declaredType_describes enclosing declarator state).imp fun _ _ describes accepted =>
    describes.hasBase (AnalysisState.accepted_reporting accepted)

end Check

/-! ## Expressions -/

namespace Expression

section

variable {state : AnalysisState} (settled : state.IsSettled)

include settled

theorem identifier_safe {node : Tree} (isIdentifier : node.kind = .identifier) :
    Achieves (identifier node) state fun annotated => annotated.IsSafe state.symbols := by
  apply Achieves.get
  cases found : state.scopes.find? node.text with
  | none =>
      rw [Scopes.lookup_of_missing found]
      exact .refused rfl
  | some id =>
      rw [Scopes.lookup_of_found found]
      rcases settled.sound.find?_stored found with ⟨symbol, stored⟩
      apply Achieves.symbol
      rw [AnalysisState.symbol_of_getElem? stored]
      apply Achieves.pure
      intro accepted
      have base := settled.hasBase accepted stored
      rcases node with ⟨kind, location, text, note, children⟩
      simp only at isIdentifier
      subst isIdentifier
      exact .of_walked rfl rfl (Note.hasBase_addType base _ _) trivial (by simp)

theorem callArguments_achieves (name : String) (place : Location) {parameters : List Nat}
    (stored : ∀ id ∈ parameters, id < state.symbols.size) {arguments : List Tree}
    (typed : state.Accepted → ∀ argument ∈ arguments, argument.note.isTyped = true) :
    Achieves (callArguments name place parameters arguments) state fun _ =>
      parameters.Forall₂ (fun id argument => ∃ parameter, state.symbols[id]? = some parameter ∧
        parameter.type.compatible argument.note.type = true) arguments := by
  unfold callArguments
  split
  · exact Reports.report fun accepted => absurd accepted (AnalysisState.refused_reporting rfl)
  · rename_i counted
    have sameLength : parameters.length = arguments.length := by simpa using counted
    clear counted
    induction parameters generalizing arguments state with
    | nil =>
        rw [List.length_nil, eq_comm, List.length_eq_zero_iff] at sameLength
        subst sameLength
        exact .pure fun _ => .nil
    | cons id rest induction =>
        cases arguments with
        | nil => contradiction
        | cons argument others =>
            rw [List.forall_mem_cons] at stored
            have here := Array.getElem?_eq_getElem stored.1
            have compares : Achieves (do
                requireCompatible "argument" (← symbol id).type argument) state fun _ =>
                  state.symbols[id].type.compatible argument.note.type = true := by
              apply Achieves.symbol
              rw [AnalysisState.symbol_of_getElem? here]
              exact requireCompatible_achieves "argument"
                (fun accepted => settled.hasBase accepted here)
                (fun accepted => typed accepted argument List.mem_cons_self)
            have typedRest (problems : List Problem)
                (accepted : (state.reporting problems).Accepted) :
                ∀ other ∈ others, other.note.isTyped = true :=
              fun other member => typed (AnalysisState.accepted_before accepted) other
                (List.mem_cons_of_mem _ member)
            apply Achieves.bind compares
            intro _ problems fits
            apply Reports.imp (induction (settled.reporting problems) stored.2
              (typedRest problems) (Nat.succ.inj sameLength))
            intro _ more rest accepted
            exact .cons ⟨_, here, fits (AnalysisState.accepted_before accepted)⟩ (rest accepted)

end

section

variable {location : Location} {text : String} {note : Note}

theorem call_safe (settled : state.IsSettled) (callee : Tree) {arguments : List Tree}
    (safe : state.Accepted → ∀ argument ∈ arguments, argument.IsSafe state.symbols) :
    Achieves (call ⟨.call, location, text, note, []⟩ callee arguments) state
      fun annotated => annotated.IsSafe state.symbols := by
  apply Achieves.get
  cases found : state.scopes.globals.find? callee.text with
  | none =>
      rw [Scopes.lookupGlobal_of_missing found]
      exact .refused rfl
  | some id =>
      rw [Scopes.lookupGlobal_of_found found]
      rcases settled.sound.globals_stored found with ⟨function, stored⟩
      apply Achieves.symbol
      rw [AnalysisState.symbol_of_getElem? stored]
      split
      · exact .refused rfl
      · rename_i isFunction
        have parameters : ∀ id ∈ function.parameters, id < state.symbols.size :=
          fun id member => settled.sound.links _ (Array.mem_of_getElem? stored) id
            (function.mem_links_of_parameter member)
        apply Achieves.bind (callArguments_achieves settled _ _ parameters
          fun accepted argument member => (safe accepted argument member).isTyped)
        intro _ problems fitting
        apply Achieves.pure
        intro accepted
        have earlier := AnalysisState.accepted_before accepted
        apply Tree.IsSafe.of_walked (by rw [Tree.walked, Tree.walkedAll_eq_flatMap]) rfl
          (Note.hasBase_addType (settled.hasBase earlier stored) _ _)
        · exact ⟨function, stored, by simpa using isFunction, fitting accepted⟩
        · intro node member
          rcases List.mem_flatMap.mp member with ⟨argument, member, below⟩
          exact (safe earlier argument member).vetted node below

theorem selectedField_achieves (settled : state.IsSettled) (node object field : Tree) :
    Achieves (selectedField node object field) state fun found =>
      object.note.attributes.type.isPlainStruct = true ∧ object.note.structName.isSome = true ∧
        ∃ id symbol, found = some id ∧ state.symbols[id]? = some symbol := by
  unfold selectedField
  dsimp only
  split
  · rename_i structName named plain
    apply Achieves.get
    split
    · exact .refused rfl
    · rename_i id found
      rcases settled.sound.structs_stored found with ⟨struct, stored⟩
      apply Achieves.symbol
      rw [AnalysisState.symbol_of_getElem? stored]
      split
      · exact .refused rfl
      · rename_i id selected
        apply Achieves.pure
        intro accepted
        rcases settled.sound.link_stored stored (struct.mem_links_of_field selected) with
          ⟨symbol, storedField⟩
        exact ⟨plain, Option.isSome_of_eq_some named, id, symbol, rfl, storedField⟩
  · exact .refused rfl

theorem select_safe (settled : state.IsSettled) {object : Tree} (field : Tree)
    (safe : state.Accepted → object.IsSafe state.symbols) :
    Achieves (select ⟨.select, location, text, note, []⟩ object field) state
      fun annotated => annotated.IsSafe state.symbols := by
  unfold select
  dsimp only
  split
  · rename_i untyped
    apply Achieves.pure
    intro accepted
    simp [(safe accepted).isTyped] at untyped
  · apply Achieves.bind (selectedField_achieves settled _ object field)
    intro found problems selected
    cases found with
    | none =>
        apply Achieves.pure
        intro accepted
        rcases selected accepted with ⟨_, _, id, symbol, missing, _⟩
        contradiction
    | some id =>
        apply Achieves.symbol
        apply Achieves.pure
        intro accepted
        have earlier := AnalysisState.accepted_before accepted
        rcases selected accepted with ⟨plain, named, _, symbol, ⟨⟩, stored⟩
        have base : (state.symbol id).type.flags.hasBase = true := by
          rw [AnalysisState.symbol_of_getElem? stored]
          exact settled.hasBase earlier stored
        exact .of_walked (by rw [Tree.walked]) rfl (Note.hasBase_addType base _ _)
          ⟨plain, named, rfl⟩ (safe earlier).vetted

theorem index_safe {array position : Tree}
    (safe : state.Accepted → array.IsSafe state.symbols)
    (safePosition : state.Accepted → position.IsSafe state.symbols) :
    Achieves (index ⟨.index, location, text, note, []⟩ array position) state
      fun annotated => annotated.IsSafe state.symbols := by
  unfold index
  apply Achieves.bind (requireInteger_achieves _ fun accepted => (safePosition accepted).isTyped)
  intro _ problems integer
  dsimp only
  split
  · rename_i untyped
    apply Achieves.pure
    intro accepted
    have typed := (safe (AnalysisState.accepted_before accepted)).isTyped
    rw [Note.isTyped] at typed
    simp [ValueType.isTyped, Note.type, typed] at untyped
  · have whole {note : Note} (base : (state.reporting problems).Accepted →
          note.attributes.type.hasBase = true)
        (indexed : array.note.attributes.type.array = true ∧
          array.note.attributes.type.null = false ∨ array.note.attributes.type.string = true)
        (accepted : (state.reporting problems).Accepted) :
        Tree.IsSafe state.symbols ⟨.index, location, text, note, [array, position]⟩ := by
      have earlier := AnalysisState.accepted_before accepted
      refine .of_walked (by rw [Tree.walked]) rfl (base accepted) ⟨integer accepted, indexed⟩ ?_
      rw [List.forall_mem_append]
      exact ⟨(safe earlier).vetted, (safePosition earlier).vetted⟩
    split
    · rename_i elements
      apply Achieves.pure
      apply whole
      · intro accepted
        exact Note.hasBase_addType (safe (AnalysisState.accepted_before accepted)).base _ _
      · exact .inl (by simpa [Note.type] using elements)
    · split
      · rename_i characters
        exact .pure (whole (fun _ => Note.hasBase_add rfl _) (.inr characters))
      · exact .refused rfl

theorem newStruct_safe (children : List Tree) (type : Tree) :
    Achieves (newStruct ⟨.allocate .struct, location, text, note, children⟩ type) state
      fun annotated => annotated.IsSafe state.symbols := by
  apply Achieves.bind (declaredType_achieves none type state)
  intro declared problems base
  apply Achieves.pure
  intro accepted
  exact .of_walked rfl rfl (Note.hasBase_addType (base accepted) _ _) trivial (by simp)

theorem newArray_safe {declared : ValueType}
    (base : state.Accepted → declared.flags.hasBase = true) (type : Tree) {size : Tree}
    (safe : state.Accepted → size.IsSafe state.symbols) :
    Achieves (newArray ⟨.allocate .array, location, text, note, []⟩ declared type size) state
      fun annotated => annotated.IsSafe state.symbols := by
  apply Achieves.bind (requireInteger_achieves _ fun accepted => (safe accepted).isTyped)
  intro _ problems integer
  apply Achieves.pure
  intro accepted
  have earlier := AnalysisState.accepted_before accepted
  have array : ({ declared with flags := { declared.flags with array := true } } :
      ValueType).flags.hasBase = true := base earlier
  exact .of_walked (by rw [Tree.walked]) rfl (Note.hasBase_addType array _ _)
    (integer accepted) (safe earlier).vetted

theorem newString_safe {size : Tree} (safe : state.Accepted → size.IsSafe state.symbols) :
    Achieves (newString ⟨.allocate .string, location, text, note, []⟩ size) state
      fun annotated => annotated.IsSafe state.symbols := by
  apply Achieves.bind (requireInteger_achieves _ fun accepted => (safe accepted).isTyped)
  intro _ problems integer
  apply Achieves.pure
  intro accepted
  exact .of_walked (by rw [Tree.walked]) rfl (Note.hasBase_add rfl _) (integer accepted)
    (safe (AnalysisState.accepted_before accepted)).vetted

theorem assign_safe {target value : Tree} (safe : state.Accepted → target.IsSafe state.symbols)
    (safeValue : state.Accepted → value.IsSafe state.symbols) :
    Achieves (assign ⟨.assign, location, text, note, []⟩ target value) state
      fun annotated => annotated.IsSafe state.symbols := by
  unfold assign
  dsimp only
  split
  · apply Reports.bind
    apply Reports.report
    apply Reports.bind
    apply (requireCompatible_reports _ _ _ _).imp
    intro _ problems _
    apply Reports.pure
    intro accepted
    rw [List.append_nil, ← AnalysisState.reporting_reporting] at accepted
    exact absurd (AnalysisState.accepted_before accepted) (AnalysisState.refused_reporting rfl)
  · rename_i assignable
    apply Achieves.bind (requireCompatible_achieves _ (fun accepted => (safe accepted).base)
      fun accepted => (safeValue accepted).isTyped)
    intro _ problems fits
    apply Achieves.pure
    intro accepted
    have earlier := AnalysisState.accepted_before accepted
    have isLvalue : target.note.attributes.roles.isLvalue = true := by
      simpa [(safe earlier).isTyped] using assignable
    refine .of_walked (by rw [Tree.walked]) rfl (Note.hasBase_addType (safe earlier).base _ _)
      ⟨isLvalue, fits accepted⟩ ?_
    rw [List.forall_mem_append]
    exact ⟨(safe earlier).vetted, (safeValue earlier).vetted⟩

theorem binary_safe (operator : BinaryOperator) {left right : Tree}
    (safe : state.Accepted → left.IsSafe state.symbols)
    (safeRight : state.Accepted → right.IsSafe state.symbols) :
    Achieves (binary operator
        ⟨.binary operator, location, text, note.add operatorAttributes, []⟩ left right) state
      fun annotated => annotated.IsSafe state.symbols := by
  have whole {problems : List Problem} (accepted : (state.reporting problems).Accepted)
      (checked : Tree.IsChecked state.symbols
        ⟨.binary operator, location, text, note.add operatorAttributes, [left, right]⟩) :
      Tree.IsSafe state.symbols
        ⟨.binary operator, location, text, note.add operatorAttributes, [left, right]⟩ := by
    have earlier := AnalysisState.accepted_before accepted
    apply Tree.IsSafe.of_walked (by rw [Tree.walked]) rfl (Note.hasBase_add rfl _) checked
    rw [List.forall_mem_append]
    exact ⟨(safe earlier).vetted, (safeRight earlier).vetted⟩
  unfold binary
  dsimp only
  split
  · rename_i equality
    apply Achieves.bind (requireCompatible_achieves _ (fun accepted => (safe accepted).base)
      fun accepted => (safeRight accepted).isTyped)
    intro _ problems fits
    apply Achieves.pure
    intro accepted
    apply whole accepted
    simpa [Tree.IsChecked, equality] using fits accepted
  · rename_i ordering
    apply Achieves.bind (requireInteger_achieves _ fun accepted => (safe accepted).isTyped)
    intro _ problems integer
    apply Achieves.bind (requireInteger_achieves _ fun accepted =>
      (safeRight (AnalysisState.accepted_before accepted)).isTyped)
    intro _ more integerRight
    apply Achieves.pure
    intro accepted
    have integerLeft := integer (AnalysisState.accepted_before accepted)
    have integers := integerRight accepted
    rw [AnalysisState.reporting_reporting] at accepted
    apply whole accepted
    simpa [Tree.IsChecked, ordering] using And.intro integerLeft integers

end

theorem closed_safe (settled : state.IsSettled) (node : Tree) :
    Achieves (closed node) state fun annotated => annotated.IsSafe state.symbols := by
  unfold closed
  split
  · rename_i isIdentifier
    exact identifier_safe settled isIdentifier
  · rename_i what isLiteral
    rcases node with ⟨kind, location, text, note, children⟩
    simp only at isLiteral
    subst isLiteral
    apply Achieves.pure
    intro accepted
    have base : (literalAttributes what).type.hasBase = true := by cases what <;> rfl
    exact .of_walked rfl rfl (Note.hasBase_add base _) trivial (by simp)
  · rename_i type isNew children
    rcases node with ⟨kind, location, text, note, parts⟩
    simp only at isNew
    subst isNew
    exact newStruct_safe _ type
  all_goals exact .refused rfl

theorem isCheckLaw_safe : IsCheckLaw (fun state _ => state.IsSettled)
    (fun state _ annotated problems => (state.reporting problems).Accepted →
      annotated.IsSafe state.symbols)
    (fun state _ annotated problems => (state.reporting problems).Accepted →
      ∀ tree ∈ annotated, tree.IsSafe state.symbols)
    (fun state _ declared problems => (state.reporting problems).Accepted →
      declared.flags.hasBase = true) where
  operand settled _ problems := settled.reporting problems
  nil _ := by simp
  cons safe safeRest accepted := by
    have accepted := AnalysisState.accepted_behind accepted
    exact List.forall_mem_cons.mpr
      ⟨safe (AnalysisState.accepted_before accepted), safeRest accepted⟩
  call {_ _ _ _ callee _ _ problems} settled safe :=
    (call_safe (settled.reporting problems) callee safe).behind
  select {_ _ _ _ _ field _ problems} settled safe :=
    (select_safe (settled.reporting problems) field safe).behind
  index _ safe safePosition := Achieves.behind (index_safe
    (fun accepted => safe (AnalysisState.accepted_before (AnalysisState.accepted_behind accepted)))
    (fun accepted => safePosition (AnalysisState.accepted_behind accepted)))
  declared state type := declaredType_achieves none type state
  newArray {_ _ _ _ type _ _ _ _ _} _ base safe := Achieves.behind (newArray_safe
    (fun accepted => base (AnalysisState.accepted_before (AnalysisState.accepted_behind accepted)))
    type (fun accepted => safe (AnalysisState.accepted_behind accepted)))
  newString _ safe := (newString_safe safe).behind
  assign _ safe safeValue := Achieves.behind (assign_safe
    (fun accepted => safe (AnalysisState.accepted_before (AnalysisState.accepted_behind accepted)))
    (fun accepted => safeValue (AnalysisState.accepted_behind accepted)))
  binary {_ operator _ _ _ _ _ _ _ _ _} _ safe safeRight := Achieves.behind (binary_safe operator
    (fun accepted => safe (AnalysisState.accepted_before (AnalysisState.accepted_behind accepted)))
    (fun accepted => safeRight (AnalysisState.accepted_behind accepted)))
  unary _ safe := by
    apply (requireInteger_achieves _ fun accepted => (safe accepted).isTyped).behind.imp
    intro _ more integer accepted
    exact .of_walked (by rw [Tree.walked]) rfl (Note.hasBase_add rfl _) (integer accepted)
      (safe (AnalysisState.accepted_before (AnalysisState.accepted_behind accepted))).vetted
  leaf {_ node} settled _ := closed_safe settled node

/-- An expression in which nothing is wrong has been checked everywhere. -/
theorem check_safe (tree : Tree) (settled : state.IsSettled) :
    Achieves (check tree) state fun annotated => annotated.IsSafe state.symbols :=
  isCheckLaw_safe.expression settled

end Expression

end OcLang
