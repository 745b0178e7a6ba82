import OcLang.Proofs.Oil.Evaluations
import OcLang.Proofs.Oil.ExpressionLaws
import OcLang.Proofs.Oil.LineLaws
import OcLang.Proofs.Oil.Output

namespace OcLang

open Lexical

/-! # How often a call is written

The calls of an expression are in its lines and loose in its operand. Counted by
names, these are the calls of the expression and those that it repeats. -/

namespace Oil

def Operand.calledName? : Operand → Option String
  | .call function _ => some function
  | _ => none

def calledIn (operands : List Operand) : List String :=
  operands.filterMap Operand.calledName?

section

variable {operands more : List Operand}

@[simp] theorem calledIn_nil : calledIn [] = [] := rfl

@[simp] theorem calledIn_append :
    calledIn (operands ++ more) = calledIn operands ++ calledIn more :=
  List.filterMap_append ..

theorem calledIn_temporary (held : Temporary) : calledIn (Operand.temporary held).within = [] :=
  rfl

theorem calledIn_call (function : String) (arguments : List Operand) :
    calledIn (Operand.call function arguments).within =
      function :: calledIn (Operand.withinAll arguments) := rfl

theorem calledIn_cast (type : OilType) (operand : Operand) :
    calledIn (Operand.cast type operand).within = calledIn operand.within := rfl

theorem calledIn_field (object : Operand) (owner name : String) :
    calledIn (Operand.field object owner name).within = calledIn object.within := rfl

theorem calledIn_element (array position : Operand) :
    calledIn (Operand.element array position).within =
      calledIn array.within ++ calledIn position.within :=
  calledIn_append

end

structure Writes (tree : Tree) (lowered : Lowered) : Prop where
  operand : calledIn lowered.operand.within = tree.looseNames
  all : ∀ name, (calledIn (operandsOf lowered.lines)).count name + tree.looseNames.count name =
    tree.calledNames.count name + tree.repeatedNames.count name

/-- An expression with its value in a temporary has no loose calls. -/
theorem Lowered.Holds.writes {tree : Tree} {lowered : Lowered} {operands : List Operand}
    (holds : lowered.Holds operands) (loose : tree.looseNames = [])
    (all : ∀ name, (calledIn operands).count name =
      tree.calledNames.count name + tree.repeatedNames.count name) : Writes tree lowered := by
  rcases holds with ⟨lines, held, operand⟩
  constructor
  · rw [operand, loose]
    rfl
  · intro name
    rw [lines, loose]
    exact all name

section

variable {analysis : Analysis}

def WritesAll (tree : Tree) (lowered : Lowered) : Prop :=
  ∀ name, (calledIn (operandsOf lowered.lines)).count name +
      (calledIn lowered.operand.within).count name =
    tree.calledNames.count name + tree.repeatedNames.count name

/-- A value that has been read still makes the same calls. -/
theorem readValue_writes {tree : Tree} {lowered : Lowered} (writes : Writes tree lowered)
    (number : Nat) :
    Ends (readValue tree lowered) number fun result _ => WritesAll tree result := by
  apply (readValue_holds tree lowered number).imp
  intro result _ read name
  have all := writes.all name
  rcases read with rfl | holds
  · rw [writes.operand]
    exact all
  · rcases holds with ⟨lines, held, operand⟩
    simp only [lines, operand, calledIn_append, calledIn_temporary, writes.operand,
      List.count_append, List.count_nil]
    omega

theorem leaf_names {tree : Tree} (expression : tree.IsExpression)
    (leaf : tree.hasOperands = false) : tree.calledNames = [] ∧ tree.repeatedNames = [] := by
  rw [expression.calledNames_eq, expression.repeatedNames_eq, Tree.operands_leaf leaf]
  unfold Tree.hasOperands at leaf
  split at leaf <;> simp_all [Tree.calledHere, Tree.repeatedHere]

theorem string_names {value : Tree} (expression : value.IsExpression)
    (string : (value.kind == .literal .string) = true) :
    value.calledNames = [] ∧ value.repeatedNames = [] := by
  apply leaf_names expression
  have literal : value.kind = .literal .string := by simpa using string
  cases value
  simp only at literal
  simp [literal, Tree.hasOperands]

theorem lowerStore_writes {location : Location} {text : String} {note : Note}
    {target value : Tree} (expression : Tree.IsExpression
      ⟨.assign, location, text, note, [target, value]⟩)
    {lowered source : Lowered} (writes : Writes target lowered) (writesValue : Writes value source)
    (number : Nat) :
    Ends (lowerStore location lowered value source) number fun result _ =>
      Writes ⟨.assign, location, text, note, [target, value]⟩ result := by
  have called := expression.calledNames_eq
  have repeated := expression.repeatedNames_eq
  simp only [Tree.calledHere, Tree.repeatedHere, Tree.operands, List.flatMap_cons,
    List.flatMap_nil, List.append_nil, List.nil_append] at called repeated
  unfold lowerStore
  split
  · rename_i string
    have none := string_names (expression.operand (by simp [Tree.operands])) string
    apply Ends.pure
    constructor
    · simpa [Tree.looseNames] using writes.operand
    · intro name
      have here := writes.all name
      have bound : calledIn (Operand.boundString location).within = [] := rfl
      simp only [called, repeated, none, operandsOf_append, operandsOf_line, Line.operands,
        calledIn_append, writes.operand, bound, Tree.looseNames, List.count_append,
        List.append_nil]
      omega
  · apply Ends.bind
    apply (readValue_writes writesValue number).imp
    intro read _ same
    apply Ends.pure
    constructor
    · simpa [Tree.looseNames] using writes.operand
    · intro name
      have here := writes.all name
      have there := same name
      simp only [called, repeated, operandsOf_append, operandsOf_line, Line.operands,
        calledIn_append, writes.operand, Tree.looseNames, List.count_append]
      omega

theorem lowerLeaf_writes {tree : Tree} (expression : tree.IsExpression)
    (leaf : tree.hasOperands = false) : Writes tree (lowerLeaf analysis tree) := by
  have none := leaf_names expression leaf
  have loose := Tree.looseNames_leaf leaf
  have nothing : calledIn (operandsOf (lowerLeaf analysis tree).lines) = [] ∧
      calledIn (lowerLeaf analysis tree).operand.within = [] := by
    unfold lowerLeaf
    split <;> exact ⟨rfl, rfl⟩
  constructor
  · rw [nothing.2, loose]
  · intro name
    rw [nothing.1, loose, none.1, none.2]

theorem compute_writes {tree : Tree} {lines : List Line} {value : Computation}
    (loose : tree.looseNames = [])
    (all : ∀ name, (calledIn (operandsOf lines)).count name +
        (calledIn value.operands).count name =
      tree.calledNames.count name + tree.repeatedNames.count name)
    (kind : TemporaryKind) (type : OilType) (number : Nat) :
    Ends (compute kind type lines value) number fun lowered _ => Writes tree lowered := by
  apply (compute_holds kind type lines value number).imp
  intro lowered _ holds
  apply holds.writes loose
  intro name
  rw [calledIn_append, List.count_append]
  exact all name

structure WriteEach (trees : List Tree) (lines : List Line) (operands : List Operand) : Prop where
  operands : calledIn (Operand.withinAll operands) = trees.flatMap Tree.looseNames
  all : ∀ name, (calledIn (operandsOf lines)).count name +
      (trees.flatMap Tree.looseNames).count name =
    (trees.flatMap Tree.calledNames).count name + (trees.flatMap Tree.repeatedNames).count name

theorem lowerUnary_writes {operator : UnaryOperator} {location : Location} {text : String}
    {note : Note} {operand : Tree} (expression : Tree.IsExpression
      ⟨.unary operator, location, text, note, [operand]⟩)
    {lowered : Lowered} (writes : Writes operand lowered) (number : Nat) :
    Ends (lowerUnary operator lowered) number fun result _ =>
      Writes ⟨.unary operator, location, text, note, [operand]⟩ result := by
  have all := writes.all
  cases operator with
  | ord | chr =>
      apply Ends.pure
      constructor
      · rw [calledIn_cast, writes.operand]
        rfl
      · simpa [expression.calledNames_eq, expression.repeatedNames_eq, Tree.looseNames,
          Tree.calledHere, Tree.repeatedHere, Tree.operands] using all
  | _ =>
      refine compute_writes rfl (fun name => ?_) _ _ number
      simpa [expression.calledNames_eq, expression.repeatedNames_eq, Tree.calledHere,
        Tree.repeatedHere, Tree.operands, Computation.operands, writes.operand] using all name

theorem lowerBinary_writes {operator : BinaryOperator} {location : Location} {text : String}
    {note : Note} {left right : Tree} (expression : Tree.IsExpression
      ⟨.binary operator, location, text, note, [left, right]⟩)
    {first second : Lowered} (writes : Writes left first) (writesRight : Writes right second)
    (number : Nat) :
    Ends (lowerBinary operator first second) number fun result _ =>
      Writes ⟨.binary operator, location, text, note, [left, right]⟩ result := by
  have all : ∀ name, (calledIn (operandsOf (first.lines ++ second.lines))).count name +
        (calledIn (Computation.binary operator first.operand second.operand).operands).count name =
      (Tree.calledNames ⟨.binary operator, location, text, note, [left, right]⟩).count name +
        (Tree.repeatedNames ⟨.binary operator, location, text, note, [left, right]⟩).count name := by
    intro name
    have here := writes.all name
    have there := writesRight.all name
    simp only [expression.calledNames_eq, expression.repeatedNames_eq, Tree.calledHere,
      Tree.repeatedHere, Tree.operands, Computation.operands, operandsOf_append,
      calledIn_append, writes.operand, writesRight.operand, List.flatMap_cons,
      List.flatMap_nil, List.count_append, List.count_nil]
    omega
  unfold lowerBinary
  dsimp only
  split <;> exact compute_writes rfl all _ _ number

theorem isExpressionLaw_writes : IsExpressionLaw analysis Tree.IsExpression
    (fun tree _ lowered _ => Writes tree lowered)
    (fun trees _ lines operands _ => WriteEach trees lines operands) where
  operand expression member := expression.operand member
  nil _ := ⟨rfl, fun _ => rfl⟩
  cons writes others := by
    constructor
    · simp [Operand.withinAll, writes.operand, others.operands]
    · intro name
      have here := writes.all name
      have there := others.all name
      simp only [operandsOf_append, calledIn_append, List.flatMap_cons, List.count_append]
      omega
  call expression _ writes := by
    constructor
    · rw [calledIn_call, writes.operands, Tree.looseNames_eq]
      rfl
    · intro name
      have here := writes.all name
      simp only [expression.calledNames_eq, expression.repeatedNames_eq, Tree.looseNames_eq,
        Tree.calledHere, Tree.looseOperands, Tree.repeatedHere, Tree.operands,
        List.count_append, List.nil_append]
      omega
  select expression _ writes := by
    constructor
    · rw [calledIn_field, writes.operand]
      rfl
    · simpa [expression.calledNames_eq, expression.repeatedNames_eq, Tree.looseNames,
        Tree.calledHere, Tree.repeatedHere, Tree.operands] using writes.all
  index expression writes writesPosition := by
    constructor
    · rw [calledIn_element, writes.operand, writesPosition.operand]
      rfl
    · intro name
      have here := writes.all name
      have there := writesPosition.all name
      simp only [expression.calledNames_eq, expression.repeatedNames_eq, Tree.looseNames,
        Tree.calledHere, Tree.repeatedHere, Tree.operands, operandsOf_append, calledIn_append,
        List.flatMap_cons, List.flatMap_nil, List.count_append, List.count_nil]
      omega
  newStruct expression number := by
    have none := leaf_names expression rfl
    refine compute_writes rfl (fun name => ?_) _ _ number
    rw [none.1, none.2]
    rfl
  newArray {_ _ _ _ _ _ after _} expression writes := by
    refine compute_writes rfl (fun name => ?_) _ _ after
    simpa [expression.calledNames_eq, expression.repeatedNames_eq, Tree.calledHere,
      Tree.repeatedHere, Tree.operands, Computation.operands, writes.operand] using
      writes.all name
  newString {_ _ _ _ _ after _} expression writes := by
    refine compute_writes rfl (fun name => ?_) _ _ after
    simpa [expression.calledNames_eq, expression.repeatedNames_eq, Tree.calledHere,
      Tree.repeatedHere, Tree.operands, Computation.operands, writes.operand] using
      writes.all name
  assign expression _ writes writesValue := lowerStore_writes expression writes writesValue _
  binary expression writes writesRight := lowerBinary_writes expression writes writesRight _
  unary expression writes := lowerUnary_writes expression writes _
  crowded expression _ := absurd expression.shaped.unary (by simp)
  leaf expression leaf _ _ := lowerLeaf_writes expression leaf

theorem lower_writes {tree : Tree} (expression : tree.IsExpression) (number : Nat) :
    Ends (lower analysis tree) number fun lowered _ => Writes tree lowered :=
  isExpressionLaw_writes.expression expression number

theorem lowerValue_writes {tree : Tree} (expression : tree.IsExpression) (number : Nat) :
    Ends (lowerValue analysis tree) number fun lowered _ => WritesAll tree lowered := by
  apply Ends.bind
  apply (lower_writes expression number).imp
  intro lowered middle writes
  exact readValue_writes writes middle

theorem lowerCondition_writes {tree : Tree} (expression : tree.IsExpression) (number : Nat) :
    Ends (lowerCondition analysis tree) number fun lowered _ => WritesAll tree lowered := by
  apply lowerCondition_ends
  · apply (lower_writes expression number).imp
    intro lowered _ writes name
    rw [writes.operand]
    exact writes.all name
  · intro lowered middle writes
    apply (compute_holds _ _ _ _ middle).imp
    intro result _ holds name
    rcases holds with ⟨lines, held, operand⟩
    have here := writes name
    simp only [lines, operand, calledIn_append, calledIn_temporary, Computation.operands,
      List.count_append, List.count_nil]
    omega

end

/-! ## Statements -/

/-- Lines make the calls of the expressions that they are made for, but for those that
are lost, and some of them again. -/
def Balances (lines : List Line) (evaluations : List Evaluation) : Prop :=
  ∀ name, (calledIn (operandsOf lines)).count name +
      (evaluations.flatMap Evaluation.lostNames).count name =
    (evaluations.flatMap (·.expression.calledNames)).count name +
      (evaluations.flatMap (·.expression.repeatedNames)).count name

namespace Balances

variable {lines more : List Line} {first second : List Evaluation}

theorem append (balances : Balances lines first) (others : Balances more second) :
    Balances (lines ++ more) (first ++ second) := by
  intro name
  have here := balances name
  have there := others name
  simp only [operandsOf_append, calledIn_append, List.flatMap_append, List.count_append]
  omega

theorem nil (none : calledIn (operandsOf lines) = []) : Balances lines [] := by
  intro name
  simp [none]

theorem wanted {lowered : Lowered} {tree : Tree} (writes : WritesAll tree lowered)
    (same : calledIn (operandsOf more) = calledIn lowered.operand.within) :
    Balances (lowered.lines ++ more) [⟨tree, true⟩] := by
  intro name
  have all := writes name
  simp [Evaluation.lostNames, same, ← all]

theorem unwanted {lowered : Lowered} {tree : Tree} (writes : Writes tree lowered) :
    Balances lowered.lines [⟨tree, false⟩] := by
  intro name
  have all := writes.all name
  simp [Evaluation.lostNames, ← all]

end Balances

section

variable {analysis : Analysis}

theorem lowerDeclaration_balances {node : Tree} (shaped : node.IsShaped)
    (isVariable : node.kind = .variable)
    (each : ∀ evaluation ∈ evaluations node, evaluation.expression.IsExpression)
    (placement : Placement) (number : Nat) :
    Ends (lowerDeclaration analysis placement node) number fun lines _ =>
      Balances lines (evaluations node) := by
  rcases node with ⟨kind, location, text, note, children⟩
  subst isVariable
  rcases shaped.variable with ⟨declarator, values, name, rfl, _, declared, single⟩
  unfold lowerDeclaration
  simp only [declared]
  rcases values with _ | ⟨value, rest⟩
  · apply Ends.pure
    apply Balances.nil
    split <;> rfl
  · have expression := each ⟨value, true⟩ List.mem_cons_self
    dsimp only
    split
    · rename_i string
      have none := string_names expression string
      have nothing : calledIn (operandsOf [.store (.variable (variableName analysis name))
          (.boundString location)]) = [] := rfl
      apply Ends.pure
      intro called
      split <;> simp [evaluations, Evaluation.lostNames, none, nothing]
    · apply Ends.bind
      apply (lowerValue_writes expression number).imp
      intro lowered _ writes
      apply Ends.pure
      apply Balances.wanted writes
      split
      · rw [operandsOf_line]
        rfl
      · simp [operandsOf_line, Line.operands]

theorem lowerSimple_balances {node : Tree} (simple : node.isCompound = false)
    (shaped : node.IsShaped)
    (each : ∀ evaluation ∈ evaluations node, evaluation.expression.IsExpression)
    (placement : Placement) (number : Nat) :
    Ends (lowerSimple analysis placement node) number fun lines _ =>
      Balances lines (evaluations node) := by
  have nothing (noVariable : node.kind ≠ .variable) (noReturn : node.kind ≠ .returnValue)
      (part : node.kind.isStatementPart = true ∨ node.kind.isTypePart = true) {lines : List Line}
      (none : calledIn (operandsOf lines) = []) :
      Ends (pure lines : Numbered (List Line)) number fun lines _ =>
        Balances lines (evaluations node) := by
    apply Ends.pure
    rw [evaluations_nothing simple noVariable noReturn part]
    exact .nil none
  unfold lowerSimple
  split
  case h_1 isVariable =>
    exact lowerDeclaration_balances shaped isVariable each placement number
  case h_2 isReturn children =>
    have fault := shaped.fault
    simp [Tree.shapeFault?, isReturn, children] at fault
  case h_3 value rest isReturn children =>
    rcases node with ⟨kind, location, text, note, others⟩
    simp only at isReturn children
    subst isReturn
    subst children
    apply Ends.bind
    apply (lowerValue_writes (each ⟨value, true⟩ List.mem_cons_self) number).imp
    intro lowered _ writes
    apply Ends.pure
    exact .wanted writes (by rw [operandsOf_line]; rfl)
  case h_5 isCall =>
    have same : evaluations node = _ := evaluations_expression
      (by simp [isCall, Kind.isStatementPart]) (by simp [isCall, Kind.isTypePart])
    -- A call that stands alone gets a line that writes it.
    have wanted : (node.kind == .call) = true := by simp [isCall]
    rw [wanted] at same
    rw [same] at each ⊢
    have expression := each ⟨node, true⟩ List.mem_cons_self
    apply Ends.bind
    apply (lower_writes expression number).imp
    intro lowered _ writes
    apply Ends.pure
    apply Balances.wanted
    · intro name
      rw [writes.operand]
      exact writes.all name
    · rw [operandsOf_line]
      rfl
  case h_19 =>
    -- The operand of any other expression is dropped, and what is called there is lost with it.
    have noCall : (node.kind == .call) = false := by simp_all
    have noReturn : node.kind ≠ .returnValue := by
      intro isReturn
      cases children : node.children <;> simp_all
    have same : evaluations node = _ := evaluations_expression
      (by cases kind : node.kind <;> simp_all [Kind.isStatementPart])
      (by cases kind : node.kind <;> simp_all [Kind.isTypePart])
    rw [noCall] at same
    rw [same] at each ⊢
    apply Ends.bind
    apply (lower_writes (each ⟨node, false⟩ List.mem_cons_self) number).imp
    intro lowered _ writes
    exact .pure (.unwanted writes)
  all_goals
    apply nothing
    all_goals simp_all [Kind.isStatementPart, Kind.isTypePart, operandsOf, Line.operands]

structure IsEvaluated (tree : Tree) : Prop where
  shaped : tree.IsShaped
  each : ∀ evaluation ∈ evaluations tree, evaluation.expression.IsExpression

theorem isStatementLaw_balances : IsStatementLaw analysis IsEvaluated evaluations
    (fun test _ => [⟨test, true⟩]) (fun parts _ lines _ => Balances lines parts) where
  nil _ := .nil rfl
  append := .append
  anchor _ _ := .nil rfl
  jump _ _ := .nil rfl
  child here member := by
    refine ⟨here.shaped.child member, fun evaluation inside => here.each evaluation ?_⟩
    rw [evaluations, evaluationsAll_eq_flatMap]
    exact List.mem_flatMap.mpr ⟨_, member, inside⟩
  body control here member := by
    refine ⟨here.shaped.child (List.mem_cons_of_mem _ member), fun evaluation inside =>
      here.each evaluation ?_⟩
    rw [evaluations_control control]
    exact List.mem_cons_of_mem _ (List.mem_flatMap.mpr ⟨_, member, inside⟩)
  block location text note children := by rw [evaluations, evaluationsAll_eq_flatMap]
  control control _ text note test := by
    rw [evaluations_control control, List.singleton_append]
  condition {kind location text note test bodies} control here label number := by
    have expression : test.IsExpression := by
      apply here.each ⟨test, true⟩
      rw [evaluations_control control]
      exact List.mem_cons_self
    apply (lowerCondition_writes expression number).imp
    intro condition _ writes
    exact .wanted writes (by rw [operandsOf_line]; rfl)
  malformed control here none := absurd none (skipLabel?_of_isShaped control here.shaped)
  simple here simple placement number :=
    lowerSimple_balances simple here.shaped here.each placement number
  heading heading _ := by
    rw [evaluations_heading heading]
    exact .nil rfl

end

end Oil

end OcLang
