import OcLang.Proofs.Oil.Labels
import OcLang.Proofs.Oil.LineLaws
import OcLang.Proofs.Oil.Output
import OcLang.Proofs.Typing.Passed
import OcLang.Tree.Build

namespace OcLang

/-! # Returns of generated functions

The analysis keeps in mind which function it is in. Lowering puts lines where it is
asked to. Both agree on the function that a return statement leaves. -/

/-- A return statement that is not bare has a value that fits. -/
theorem Tree.ReturnsFor.value_of_ne {result : Option ValueType} {statement : Tree}
    (fits : statement.ReturnsFor result) (notBare : statement.kind ≠ .returnVoid) :
    ∃ value rest type, statement.kind = .returnValue ∧ statement.children = value :: rest ∧
      result = some type ∧ type.flags.void = false ∧
      type.compatible value.note.type = true := by
  unfold Tree.ReturnsFor at fits
  split at fits
  · contradiction
  · rename_i value rest isReturn children
    rcases fits with ⟨type, same, notVoid, compatible⟩
    exact ⟨value, rest, type, isReturn, children, same, notVoid, compatible⟩
  · contradiction

namespace Oil

def Line.isReturn : Line → Bool
  | .returnValue _ | .returnVoid => true
  | _ => false

inductive Line.Returns (analysis : Analysis) : Line → Tree → Prop where
  | void {statement : Tree} (isReturn : statement.kind = .returnVoid) :
      Returns analysis .returnVoid statement
  | value {statement value : Tree} {rest : List Tree} (isReturn : statement.kind = .returnValue)
      (children : statement.children = value :: rest) (number : Nat) :
      Returns analysis (.returnValue ((lowerValue analysis value).run number).1.operand) statement
  | missing {statement : Tree} (isReturn : statement.kind = .returnValue)
      (children : statement.children = []) : Returns analysis (.returnValue .missing) statement

def ReturnFrom (analysis : Analysis) (statements : List Tree) (lines : List Line) : Prop :=
  ∃ kept, kept.Sublist statements ∧
    (lines.filter Line.isReturn).Forall₂ (Line.Returns analysis) kept

section

variable {analysis : Analysis} {statements others : List Tree}

namespace ReturnFrom

variable {lines more : List Line}

theorem mono (returns : ReturnFrom analysis statements lines) (more : statements.Sublist others) :
    ReturnFrom analysis others lines := by
  rcases returns with ⟨kept, sub, pairs⟩
  exact ⟨kept, sub.trans more, pairs⟩

theorem plain (none : lines.any Line.isReturn = false) : ReturnFrom analysis statements lines := by
  have nothing : lines.filter Line.isReturn = [] := by
    rw [List.filter_eq_nil_iff]
    simpa using none
  exact ⟨[], List.nil_sublist _, nothing ▸ .nil⟩

theorem append (first : ReturnFrom analysis statements lines)
    (second : ReturnFrom analysis others more) :
    ReturnFrom analysis (statements ++ others) (lines ++ more) := by
  rcases first with ⟨kept, sub, pairs⟩
  rcases second with ⟨keptToo, subToo, pairsToo⟩
  refine ⟨kept ++ keptToo, sub.append subToo, ?_⟩
  rw [List.filter_append]
  exact List.rel_append pairs pairsToo

theorem here {line : Line} {statement : Tree} (returns : line.Returns analysis statement) :
    ReturnFrom analysis [statement] [line] := by
  have isReturn : line.isReturn = true := by cases returns <;> rfl
  refine ⟨[statement], List.Sublist.refl _, ?_⟩
  rw [List.filter_cons_of_pos isReturn]
  exact .cons returns .nil

theorem of_straight (straight : IsStraight lines) : ReturnFrom analysis statements lines := by
  apply plain
  rw [List.any_eq_false]
  intro line member isReturn
  have plain := straight line member
  cases line <;> simp [Line.isStraight, Line.isReturn] at plain isReturn

theorem concat {line : Line} {statement : Tree} (straight : IsStraight lines)
    (returns : line.Returns analysis statement) :
    ReturnFrom analysis [statement] (lines ++ [line]) := by
  have before : ReturnFrom analysis [] lines := .of_straight straight
  exact before.append (.here returns)

theorem behind {line : Line} (straight : IsStraight lines) (stays : line.isReturn = false) :
    ReturnFrom analysis [] (lines ++ [line]) := by
  have before : ReturnFrom analysis [] lines := .of_straight straight
  exact before.append (.plain (by simpa using stays))

theorem exists_of_mem (returns : ReturnFrom analysis statements lines) {line : Line}
    (member : line ∈ lines) (isReturn : line.isReturn = true) :
    ∃ statement ∈ statements, line.Returns analysis statement := by
  rcases returns with ⟨kept, sub, pairs⟩
  rcases List.getElem_of_mem (List.mem_filter.mpr ⟨member, isReturn⟩) with ⟨place, inside, here⟩
  have insideToo : place < kept.length := pairs.length_eq ▸ inside
  refine ⟨kept[place], sub.subset (List.getElem_mem insideToo), ?_⟩
  rw [← here]
  exact pairs.get inside insideToo

end ReturnFrom

/-! ## Statements -/

theorem lowerDeclaration_returns (placement : Placement) (node : Tree) (number : Nat) :
    Ends (lowerDeclaration analysis placement node) number fun lines _ =>
      ReturnFrom analysis statements lines := by
  unfold lowerDeclaration
  split
  · exact .pure (.plain rfl)
  · split
    · exact .pure (.plain rfl)
    · dsimp only
      split
      · apply Ends.pure
        split
        · exact .plain rfl
        · exact .plain rfl
      · split
        · apply Ends.pure
          split
          · exact .plain rfl
          · exact .plain rfl
        · apply Ends.bind
          apply (lowerValue_straight analysis _ number).imp
          intro lowered _ straight
          apply Ends.pure
          have before : ReturnFrom analysis [] lowered.lines := .of_straight straight
          apply before.append
          split <;> exact .plain rfl

theorem lowerSimple_returns {node : Tree} (simple : node.isCompound = false)
    (placement : Placement) (number : Nat) :
    Ends (lowerSimple analysis placement node) number fun lines _ =>
      ReturnFrom analysis node.returns lines := by
  have own (isReturn : node.kind = .returnValue ∨ node.kind = .returnVoid) :
      node.returns = [node] := by
    rcases node with ⟨kind, location, text, note, children⟩
    rcases isReturn with rfl | rfl <;> simp [Tree.returns]
  unfold lowerSimple
  split
  case h_1 => exact lowerDeclaration_returns placement node number
  case h_2 isReturn children =>
    rw [own (.inl isReturn)]
    exact .pure (.here (.missing isReturn children))
  case h_3 value rest isReturn children =>
    rw [own (.inl isReturn)]
    apply Ends.bind
    apply Ends.run
    exact .pure (.concat (lowerValue_straight analysis value number)
      (.value isReturn children number))
  case h_4 isReturn =>
    rw [own (.inr isReturn)]
    exact .pure (.here (.void isReturn))
  case h_5 =>
    apply Ends.bind
    apply (lower_straight analysis node number).imp
    intro lowered _ straight
    have before : ReturnFrom analysis [] lowered.lines := .of_straight straight
    exact .pure (before.append (.plain rfl))
  case h_19 =>
    apply Ends.bind
    apply (lower_straight analysis node number).imp
    intro lowered _ straight
    exact .pure (.of_straight straight)
  all_goals exact .pure (.plain rfl)

theorem isLineLaw_returns : IsLineLaw fun statements _ lines _ =>
    ReturnFrom analysis statements lines where
  nil _ := .plain rfl
  append := .append
  anchor _ _ := .plain rfl
  jump _ _ := .plain rfl

/-- The return statements of functions inside are left out on both sides. -/
theorem isStatementLaw_returns : IsStatementLaw analysis (fun _ => True) Tree.returns
    (fun _ _ => []) (fun statements _ lines _ => ReturnFrom analysis statements lines) where
  toIsLineLaw := isLineLaw_returns
  child _ _ := trivial
  body _ _ _ := trivial
  block _ _ _ children := by rw [Tree.returns, Tree.returnsAmong_eq_flatMap]
  control control _ text note test := by
    rw [Tree.returns_control control, Tree.returnsAmong_eq_flatMap, List.nil_append]
  condition _ _ label number := (lowerCondition_straight analysis _ number).imp
    fun _ _ straight => .behind straight rfl
  malformed control _ none placement number := isLineLaw_returns.malformed _ control none
    ((lowerCondition_straight analysis _ number).imp fun _ _ straight => .of_straight straight)
    (fun _ => .plain rfl) placement
  simple _ simple placement number := lowerSimple_returns simple placement number
  heading _ _ := .plain rfl

/-! ## Programs -/

structure Function.IsMadeOf (function : Function) (analysis : Analysis)
    (declarator body : Tree) : Prop where
  name : declarator.declaredName?.map (·.text) = some function.name
  result : function.result = .ofDeclarator declarator
  lines : ∃ number, function.body = ((lowerStatements analysis body.children).run number).1

theorem lowerFunction_made (tree : Tree) (later : List Tree) (number : Nat) :
    Ends (lowerFunction analysis tree later) number fun result _ =>
      ∀ function ∈ result, ∃ declarator parameters body,
        tree.children = [declarator, parameters, body] ∧
          function.IsMadeOf analysis declarator body := by
  unfold lowerFunction
  split
  · rename_i declarator parameters body children
    split
    · exact .pure (by simp)
    · rename_i name declared
      split
      · exact .pure (by simp)
      · rintro function ⟨⟩
        exact ⟨declarator, parameters, body, children, by rw [declared]; rfl, rfl, number, rfl⟩
  · exact .pure (by simp)

/-- The lines of the body return what its statements return, one for one, and every statement
returns what the type of the function lets it return. -/
structure Function.ReturnsFit (function : Function) (analysis : Analysis)
    (declarator body : Tree) (type : ValueType) : Prop where
  pairs : ReturnFrom analysis (Tree.returnsAmong body.children) function.body
  value : ∀ statement ∈ Tree.returnsAmong body.children, statement.kind = .returnValue →
    declarator.kind ≠ .type .void ∧ ∃ value rest, statement.children = value :: rest ∧
      type.compatible value.note.type = true
  void : ∀ statement ∈ Tree.returnsAmong body.children, statement.kind = .returnVoid →
    declarator.kind = .type .void

theorem Function.IsMadeOf.returnsFit {function : Function} {declarator body : Tree}
    (made : function.IsMadeOf analysis declarator body) {type : ValueType}
    (void : type.flags.void = true ↔ declarator.kind = .type .void)
    (checked : ∀ statement ∈ Tree.returnsAmong body.children, statement.ReturnsFor (some type)) :
    function.ReturnsFit analysis declarator body type := by
  constructor
  · rcases made.lines with ⟨number, lines⟩
    rw [lines, Tree.returnsAmong_eq_flatMap]
    exact isStatementLaw_returns.body_lines (fun _ _ => trivial) number
  · intro statement member isReturn
    rcases (checked statement member).value_of_ne (by simp [isReturn]) with
      ⟨value, rest, _, _, children, ⟨⟩, notVoid, compatible⟩
    refine ⟨fun isVoid => ?_, value, rest, children, compatible⟩
    rw [void.mpr isVoid] at notVoid
    contradiction
  · intro statement member isReturn
    have fits := checked statement member
    simp only [Tree.ReturnsFor, isReturn] at fits
    exact void.mp (fits type rfl)

end

end Oil

/-- In the program of an accepted file, functions return values that their types
are compatible with, only functions of type void return without a value, and the
entry point returns no value. -/
theorem analyze_returnsFit {root : Tree} (isRoot : root.kind = .root)
    (accepted : (analyze root).2.diagnostics.hasErrors = false) :
    (∀ function ∈ root.program.functions, ∃ item ∈ (analyze root).1.children,
      item.kind = .function ∧ ∃ declarator parameters body symbol,
        item.children = [declarator, parameters, body] ∧
        declarator.declaredSymbol? (analyze root).2.symbols = some symbol ∧
        function.IsMadeOf (analyze root).2 declarator body ∧
        function.ReturnsFit (analyze root).2 declarator body symbol.type) ∧
      Oil.ReturnFrom (analyze root).2 (Tree.returnsAmong (analyze root).1.children)
        root.program.main ∧
      (∀ statement ∈ Tree.returnsAmong (analyze root).1.children, statement.kind = .returnVoid) ∧
      ∀ operand, .returnValue operand ∉ root.program.main := by
  have sameKind := (kind_analyze root).trans isRoot
  have passes : (analyze root).1.Passes (analyze root).2.symbols none :=
    Statement.check_passes (Numbering.number root) .start accepted
  have bare : ∀ statement ∈ Tree.returnsAmong (analyze root).1.children,
      statement.kind = .returnVoid := by
    intro statement member
    have fits := passes.returns statement (by rwa [Tree.returns_root sameKind])
    by_contra other
    rcases fits.value_of_ne other with ⟨_, _, _, _, _, outside, _⟩
    contradiction
  have main : Oil.ReturnFrom (analyze root).2 (Tree.returnsAmong (analyze root).1.children)
      root.program.main := by
    rw [Tree.returnsAmong_eq_flatMap]
    exact (Oil.isStatementLaw_returns.main_lines (fun _ _ => trivial) _).mono
      (List.filter_sublist.flatMap _)
  refine ⟨?_, main, bare, ?_⟩
  · intro function member
    rcases Oil.lowerFunctions_each (fun tree _ => Oil.lowerFunction_made tree) Oil.firstTemporary
      function member with ⟨item, known, declarator, parameters, body, children, made⟩
    rcases List.mem_filter.mp known with ⟨inside, isFunction⟩
    have isFunction : item.kind = .function := by simpa using isFunction
    have walked := (Tree.children_sublist_walked sameKind).subset inside
    have checked := (passes.vetted item walked).checked
    simp only [Tree.IsChecked, isFunction, children] at checked
    rcases checked with ⟨symbol, declared, void, returning⟩
    exact ⟨item, inside, isFunction, declarator, parameters, body, symbol, children, declared,
      made, made.returnsFit void returning⟩
  · intro operand member
    rcases main.exists_of_mem member rfl with ⟨statement, known, from_⟩
    have isBare := bare statement known
    cases from_ with
    | value isReturn | missing isReturn =>
        rw [isBare] at isReturn
        contradiction

/-- A function that holds another one and returns from a loop, a function without a
value, and a return from the file itself. -/
def earlyReturns : Tree :=
  let b : TreeBuilder := {}
  let name (line column : UInt32) := b.identifier ⟨line, column⟩ "n"
  b.root "earlyReturns" [
    b.function ⟨1, 1⟩ (b.declarator .declaredName false "int" ⟨1, 1⟩ ⟨1, 5⟩ "count")
      [b.declarator .declaredName false "int" ⟨1, 12⟩ ⟨1, 16⟩ "n"]
      (b.block ⟨1, 19⟩ [
        b.function ⟨2, 3⟩ (b.declarator .declaredName false "void" ⟨2, 3⟩ ⟨2, 8⟩ "inner") []
          (b.block ⟨2, 16⟩ [b.returning ⟨2, 18⟩ none]),
        b.whileLoop ⟨3, 3⟩ (name 3 10) (b.returning ⟨3, 13⟩ (some (name 3 20))),
        b.returning ⟨4, 3⟩ (some (b.int ⟨4, 10⟩ 0))]),
    b.function ⟨6, 1⟩ (b.declarator .declaredName false "void" ⟨6, 1⟩ ⟨6, 6⟩ "stop") []
      (b.block ⟨6, 13⟩ [b.returning ⟨6, 15⟩ none]),
    b.returning ⟨7, 1⟩ none]

theorem earlyReturns_fit : earlyReturns.kind = .root ∧
    (analyze earlyReturns).2.diagnostics.hasErrors = false ∧
    earlyReturns.program.functions.map (fun function => function.body.countP (·.isReturn)) = [2, 1] ∧
    earlyReturns.program.main.countP (·.isReturn) = 1 ∧
    (∀ function ∈ earlyReturns.program.functions, ∃ item ∈ (analyze earlyReturns).1.children,
      item.kind = .function ∧ ∃ declarator parameters body symbol,
        item.children = [declarator, parameters, body] ∧
        declarator.declaredSymbol? (analyze earlyReturns).2.symbols = some symbol ∧
        function.IsMadeOf (analyze earlyReturns).2 declarator body ∧
        function.ReturnsFit (analyze earlyReturns).2 declarator body symbol.type) ∧
      Oil.ReturnFrom (analyze earlyReturns).2
        (Tree.returnsAmong (analyze earlyReturns).1.children) earlyReturns.program.main ∧
      (∀ statement ∈ Tree.returnsAmong (analyze earlyReturns).1.children,
        statement.kind = .returnVoid) ∧
      ∀ operand, .returnValue operand ∉ earlyReturns.program.main := by
  have accepted : (analyze earlyReturns).2.diagnostics.hasErrors = false := by decide +kernel
  exact ⟨rfl, accepted, by decide +kernel, by decide +kernel, analyze_returnsFit rfl accepted⟩

end OcLang
