import OcLang.Proofs.Analysis.StatementChecks
import OcLang.Proofs.Typing.Vetted

namespace OcLang

open Check

/-! # Statements that have been checked

Behind a file without errors, every node that the walk over it has met has been
checked, and every return statement fits the function that it stands in. -/

/-! ## Declarations -/

theorem Describes.void {declarator : Tree} {problems : List Problem} {type : ValueType}
    (describes : Describes declarator problems type) (accepted : NoError problems) :
    type.flags.void = true ↔ declarator.kind = .type .void := by
  cases describes with
  | base base void =>
      rw [← void]
      cases base <;> cases declarator.hasArrayMark <;>
        simp [ValueType.marked, OcType.valueType, BaseType.flags]
  | refused refused => exact absurd accepted refused

structure Tree.Passes (symbols : Array Symbol) (result : Option ValueType) (tree : Tree) :
    Prop where
  vetted : ∀ node ∈ tree.walked, node.IsVetted symbols
  returns : ∀ statement ∈ tree.returns, statement.ReturnsFor result

namespace Tree.Passes

variable {symbols more : Array Symbol} {result : Option ValueType} {tree : Tree}

theorem grows (grows : Grows symbols more) (passes : tree.Passes symbols result) :
    tree.Passes more result :=
  ⟨fun node member => (passes.vetted node member).grows grows, passes.returns⟩

/-- A node without a value, with checked nodes below it. -/
theorem of_walked {nodes : List Tree} (walked : tree.walked = tree :: nodes)
    (valueless : tree.kind.isExpression = false) (checked : tree.IsChecked symbols)
    (below : ∀ node ∈ nodes, node.IsVetted symbols)
    (returns : ∀ statement ∈ tree.returns, statement.ReturnsFor result) :
    tree.Passes symbols result where
  vetted := by
    rw [walked, List.forall_mem_cons]
    exact ⟨⟨by simp [valueless], checked⟩, below⟩
  returns := returns

section

variable {children : List Tree} (passes : ∀ child ∈ children, child.Passes symbols result)

include passes

theorem vetted_all : ∀ node ∈ Tree.walkedAll children, node.IsVetted symbols := by
  intro node member
  rw [Tree.walkedAll_eq_flatMap] at member
  rcases List.mem_flatMap.mp member with ⟨child, member, below⟩
  exact (passes child member).vetted node below

theorem returns_all : ∀ statement ∈ Tree.returnsAmong children, statement.ReturnsFor result := by
  intro statement member
  rw [Tree.returnsAmong_eq_flatMap] at member
  rcases List.mem_flatMap.mp member with ⟨child, member, below⟩
  exact (passes child member).returns statement below

end

theorem of_silent (simple : tree.isCompound = false) (silent : tree.kind.isSilent = true)
    (returns : ∀ statement ∈ tree.returns, statement.ReturnsFor result) :
    tree.Passes symbols result := by
  have walked := Tree.walked_eq_singleton simple silent
  rcases tree with ⟨kind, location, text, note, children⟩
  have checked : Tree.IsChecked symbols ⟨kind, location, text, note, children⟩ := by
    cases kind <;> simp [Kind.isSilent] at silent <;>
      rcases children with _ | ⟨first, _ | ⟨second, rest⟩⟩ <;> trivial
  apply of_walked walked _ checked (by simp) returns
  cases kind <;> first | rfl | simp [Kind.isSilent] at silent

end Tree.Passes

theorem Check.refused_ends {Value : Type} {problem : Problem} (isError : problem.severity = .error)
    {value : Value} {state : AnalysisState} {holds : Value → AnalysisState → Prop} :
    Ends (do report problem; return value) state fun value after =>
      after.Accepted → holds value after := by
  apply Ends.bind
  apply Ends.modify
  apply Ends.pure
  intro accepted
  exact absurd accepted (AnalysisState.refused_reporting isError)

theorem Check.refused_behind {Value : Type} {problem : Problem}
    (isError : problem.severity = .error) {rest : Check Value} (kept : basing.KeptBy rest)
    (state : AnalysisState) :
    Ends (do report problem; rest) state fun _ after => ¬after.Accepted := by
  apply Ends.bind
  apply Ends.modify
  apply (kept _).imp
  intro _ after obeying accepted
  exact absurd (obeying.extends_.accepted accepted) (AnalysisState.refused_reporting isError)

namespace Declaration

variable {state : AnalysisState}

theorem kind_checkStruct (node : Tree) (state : AnalysisState) :
    Ends (checkStruct node) state fun annotated _ => annotated.kind = node.kind := by
  unfold checkStruct
  split
  · split
    · exact .bind (.modify (.pure rfl))
    · exact .bind (.run (.bind (.modifyGet (.bind (.run (.pure rfl))))))
  · exact .bind (.modify (.pure rfl))

theorem declaredSymbol?_annotateName {declarator name : Tree}
    (declared : declarator.declaredName? = some name) (type : ValueType) (roles : Roles) (id : Nat)
    (note : Note) (symbols : Array Symbol) :
    Tree.declaredSymbol? symbols { annotateName type roles id declarator with note } =
      symbols[id]? := by
  have named : Tree.declaredName? { annotateName type roles id declarator with note } = _ :=
    declaredName?_annotateName type roles id declarator
  rw [Tree.declaredSymbol?, named, declared]
  rfl

theorem checkVariable_passes {node : Tree} (isVariable : node.kind = .variable)
    (settled : state.IsSettled) (result : Option ValueType) :
    Ends (checkVariable node) state fun annotated after =>
      after.Accepted → annotated.Passes after.symbols result := by
  have declaring (name : String) (id : Nat) {annotated : Tree} {middle : AnalysisState}
      (passes : middle.Accepted → annotated.Passes middle.symbols result) :
      Ends (do
        declare .innermost name id
        recordSymbol name id
        return annotated) middle fun annotated after =>
          after.Accepted → annotated.Passes after.symbols result := by
    apply Ends.bind
    apply (basing.declare_kept .innermost name id middle).imp
    intro _ declared declaring
    apply Ends.bind
    apply (basing.recordSymbol_kept name id declared).imp
    intro _ after recording
    apply Ends.pure
    intro accepted
    have extends_ := declaring.extends_.trans recording.extends_
    exact (passes (extends_.accepted accepted)).grows extends_.grows
  rcases node with ⟨kind, location, text, note, children⟩
  simp only at isVariable
  subst isVariable
  unfold checkVariable
  rcases children with _ | ⟨declarator, values⟩
  · exact refused_ends rfl
  apply Ends.bind
  apply (declaredType_achieves none declarator state).ends
  intro type problems base
  cases declared : declarator.declaredName? with
  | none => exact refused_ends rfl
  | some name =>
      apply Ends.bind
      apply (replacedVariable_mirrors (settled.reporting problems).sound name.text).2.imp
      rintro replaces _ ⟨rfl, known⟩
      apply Ends.bind
      apply Ends.get
      apply Ends.bind
      apply (allocateVariable_settles rfl known base (settled.reporting problems)).imp
      rintro id middle ⟨settles, stored⟩
      cases values with
      | nil =>
          apply Ends.bind
          apply Ends.pure
          apply declaring
          intro accepted
          exact .of_walked rfl rfl trivial (by simp) (by simp [Tree.returns])
      | cons value rest =>
          apply Ends.bind
          apply (Expression.check_safe value settles.settled).ends
          intro value evaluated safe
          apply Ends.bind
          apply (requireCompatible_achieves "initialization" (fun accepted => base
            (settles.extends_.accepted (AnalysisState.accepted_before accepted)))
            fun accepted => (safe accepted).isTyped).ends
          intro _ compared fits
          apply Ends.bind
          apply Ends.pure
          apply declaring
          intro accepted
          have safeValue := safe (AnalysisState.accepted_before accepted)
          have named (note : Note) := (declaredSymbol?_annotateName declared type
            (SymbolRole.variable replaces).roles id note middle.symbols).trans stored
          exact .of_walked (by rw [Tree.walked]) rfl ⟨_, named _, fits accepted⟩
            safeValue.vetted (by simp [Tree.returns])

/-- The function has the next symbol, whose type says whether it returns a value. -/
theorem openFunction_heads (node declarator parameters : Tree) (state : AnalysisState) :
    Ends (openFunction node declarator parameters) state fun opened after =>
      after.Accepted → ∃ heading, opened = some heading ∧
        heading.declarator.declaredName?.bind (·.note.symbol) = some state.symbols.size ∧
        heading.declarator.kind = declarator.kind ∧
        (heading.type.flags.void = true ↔ declarator.kind = .type .void) := by
  apply Ends.bind
  apply (declaredType_describes none declarator state).ends
  intro type problems describes
  cases declared : declarator.declaredName? with
  | none => exact refused_ends rfl
  | some name =>
      apply Ends.bind
      apply Ends.get
      apply Ends.bind
      apply Ends.modifyGet
      apply Ends.bind
      apply (basing.recordSymbol_kept _ _ _).imp
      intro _ recorded recording
      apply Ends.bind
      apply (basing.declare_kept _ _ _ recorded).imp
      intro _ named naming
      apply Ends.bind
      apply (basing.enter_kept named).imp
      intro _ entered entering
      apply Ends.bind
      apply (basing.checkParameters_kept _ entered).imp
      intro children listed listing
      apply Ends.bind
      apply (basing.record_kept .separator listed).imp
      intro _ after separating
      apply Ends.pure
      intro accepted
      have extends_ := (Extends.allocated (state.reporting problems) _).trans
        (recording.extends_.trans (naming.extends_.trans (entering.extends_.trans
          (listing.extends_.trans separating.extends_))))
      have fine := AnalysisState.accepted_reporting (extends_.accepted accepted)
      refine ⟨_, rfl, ?_, rfl, describes.void fine⟩
      show (annotateName type _ _ declarator).declaredName?.bind (·.note.symbol) = _
      rw [declaredName?_annotateName, declared]
      rfl

end Declaration

/-! ## Statements -/

namespace Statement

variable {result : Option ValueType} {state : AnalysisState}

theorem IsSettledIn.hasBase (settled : IsSettledIn result state) {type : ValueType}
    (returns : type ∈ result) (accepted : state.Accepted) : type.flags.hasBase = true := by
  rcases settled.returns with ⟨function, own⟩
  cases own with
  | outside => contradiction
  | inside own =>
      rcases Option.map_eq_some_iff.mp own with ⟨symbol, stored, rfl⟩
      cases returns
      exact settled.toIsSettled.hasBase accepted stored

theorem returned_achieves (place : Location) {value : Tree}
    (known : ∀ type ∈ result, state.Accepted → type.flags.hasBase = true)
    (typed : state.Accepted → value.note.isTyped = true) :
    Achieves (returned result place value) state fun _ => ∃ type, result = some type ∧
      type.flags.void = false ∧ type.compatible value.note.type = true := by
  unfold returned
  split
  · exact Reports.report fun accepted => absurd accepted (AnalysisState.refused_reporting rfl)
  · rename_i type
    split
    · exact Reports.report fun accepted => absurd accepted (AnalysisState.refused_reporting rfl)
    · rename_i value
      apply (requireCompatible_achieves "return" (known type rfl) typed).imp
      intro _ fits
      exact ⟨type, rfl, by simpa using value, fits⟩

theorem simple_passes {node : Tree} (isSimple : node.isCompound = false)
    (settled : IsSettledIn result state) :
    Ends (Statement.simple result node) state fun annotated after =>
      after.Accepted → annotated.Passes after.symbols result := by
  have part (silent : node.kind.isSilent = true) (notVoid : node.kind ≠ .returnVoid) :
      Ends (return node : Check Tree) state fun annotated after =>
        after.Accepted → annotated.Passes after.symbols result := by
    apply Ends.pure
    intro accepted
    apply Tree.Passes.of_silent isSimple silent
    rw [Tree.returns_eq_nil isSimple (by intro kind; simp [kind, Kind.isSilent] at silent) notVoid]
    simp
  unfold Statement.simple
  split
  case h_1 isStruct =>
    apply (Declaration.kind_checkStruct node state).imp
    rintro ⟨kind, location, text, note, children⟩ after sameKind accepted
    obtain rfl : kind = .struct := sameKind.trans isStruct
    exact .of_walked rfl rfl trivial (by simp) (by simp [Tree.returns])
  case h_2 isVariable =>
    exact Declaration.checkVariable_passes isVariable settled.toIsSettled result
  case h_3 isReturn =>
    dsimp only
    split
    · exact refused_ends rfl
    · rename_i void
      apply Ends.pure
      intro accepted
      rcases node with ⟨kind, location, text, note, children⟩
      simp only at isReturn
      subst isReturn
      apply Tree.Passes.of_silent rfl rfl
      cases result with
      | none => simp [Tree.returns, Tree.ReturnsFor]
      | some type => simpa [Tree.returns, Tree.ReturnsFor] using void
  case h_4 value rest isReturn children =>
    rcases node with ⟨kind, location, text, note, parts⟩
    simp only at isReturn children
    subst isReturn children
    apply Ends.bind
    apply (Expression.check_safe value settled.toIsSettled).ends
    intro value problems safe
    apply Ends.bind
    apply (returned_achieves location (fun type returns accepted => settled.hasBase returns
      (AnalysisState.accepted_before accepted)) fun accepted => (safe accepted).isTyped).ends
    intro _ more fits
    apply Ends.pure
    intro accepted
    have safeValue := safe (AnalysisState.accepted_before accepted)
    exact .of_walked (by rw [Tree.walked]) rfl trivial safeValue.vetted
      (by simpa [Tree.returns, Tree.ReturnsFor] using fits accepted)
  case h_16 =>
    apply (Expression.check_safe node settled.toIsSettled).ends
    intro annotated problems safe accepted
    exact ⟨(safe accepted).vetted, by simp [(safe accepted).returns]⟩
  all_goals first
    | exact refused_ends rfl
    | apply part <;> simp_all [Kind.isSilent]

theorem condition_passes (test : Tree) (settled : state.IsSettled) :
    Ends (condition test) state fun annotated after => after.Accepted →
      annotated.IsSafe after.symbols ∧ annotated.note.attributes.type.isInteger = true := by
  apply Ends.bind
  apply (Expression.check_safe test settled).ends
  intro test problems safe
  apply Ends.bind
  apply (requireInteger_achieves _ fun accepted => (safe accepted).isTyped).ends
  intro _ more integer
  apply Ends.pure
  intro accepted
  exact ⟨safe (AnalysisState.accepted_before accepted), integer accepted⟩

theorem bodiless_refused (place : Location) (state : AnalysisState) :
    Ends (do malformed .function place; leave; record .separator) state
      fun _ after => ¬after.Accepted :=
  refused_behind rfl (.bind basing.leave_kept fun _ => basing.record_kept _) state

/-- A function has the next symbol, with the type that its heading has. -/
structure OpensSettled (state : AnalysisState) (declarator : Tree)
    (opened : Option Declaration.Heading) (inside : AnalysisState) : Prop where
  settles : Settles state inside
  own : ∀ heading ∈ opened,
    inside.symbols[state.symbols.size]?.map (·.type) = some heading.type
  heads : inside.Accepted → ∃ heading, opened = some heading ∧
    heading.declarator.declaredName?.bind (·.note.symbol) = some state.symbols.size ∧
    heading.declarator.kind = declarator.kind ∧
    (heading.type.flags.void = true ↔ declarator.kind = .type .void)

theorem closeFunction_passes {symbols : Array Symbol} {symbol : Symbol} (location : Location)
    (text : String) (note : Note) (children : List Tree) {heading : Declaration.Heading}
    (declared : heading.declarator.declaredSymbol? symbols = some symbol)
    (void : symbol.type.flags.void = true ↔ heading.declarator.kind = .type .void) {body : Tree}
    (others : List Tree)
    (passes : ∀ child ∈ body.children, child.Passes symbols (some symbol.type)) :
    (Declaration.closeFunction ⟨.function, location, text, note, children⟩ heading
      (body :: others)).Passes symbols result := by
  rcases body with ⟨bodyKind, bodyLocation, bodyText, bodyNote, statements⟩
  refine .of_walked (by rw [Declaration.closeFunction, Tree.walked, Tree.walkedBody]) rfl
    ⟨symbol, declared, void, Tree.Passes.returns_all passes⟩ (Tree.Passes.vetted_all passes) ?_
  simp [Declaration.closeFunction, Tree.returns]

theorem openFunction_opensSettled (node declarator parameters : Tree)
    (settled : state.IsSettled) :
    Ends (Declaration.openFunction node declarator parameters) state
      (OpensSettled state declarator) := by
  apply ((openFunction_settles node declarator parameters settled).and
    (Declaration.openFunction_heads node declarator parameters state)).imp
  rintro opened inside ⟨⟨settles, own⟩, heads⟩
  exact ⟨settles, own, heads⟩

theorem isCheckLaw_passes : IsCheckLaw (fun _ => True)
    (fun result state _ annotated after =>
      IsSettledIn result state → after.Accepted → annotated.Passes after.symbols result)
    (fun result state _ annotated after => IsSettledIn result state → after.Accepted →
      ∀ tree ∈ annotated, tree.Passes after.symbols result)
    (fun state _ declarator _ opened inside =>
      state.IsSettled → OpensSettled state declarator opened inside)
    (fun state _ annotated after => state.IsSettled → Settles state after ∧
      (after.Accepted → annotated.IsSafe after.symbols ∧
        annotated.note.attributes.type.isInteger = true))
    (fun result state after => IsSettledIn result state → Settles state after) where
  child _ _ := trivial
  checked tree _ _ settled := check_settles tree settled
  checkedAll trees _ _ settled := checkAll_settles trees settled
  nil _ _ _ _ := by simp
  cons passes before passesRest behind settled accepted := by
    have later := settled.later (before settled)
    have extending := (behind later).extends_
    exact List.forall_mem_cons.mpr
      ⟨(passes settled (extending.accepted accepted)).grows extending.grows,
        passesRest later accepted⟩
  root _ passes settled accepted := by
    refine .of_walked (by rw [Tree.walked]) rfl trivial
      (Tree.Passes.vetted_all (passes settled accepted)) ?_
    rw [Tree.returns]
    exact Tree.Passes.returns_all (passes settled accepted)
  block {_ _ middle _ _ _ _ _} _ passes := by
    apply (basing.leave_kept middle).imp
    intro _ after leaving settled accepted
    have passed := passes (settled.later (enter_settles settled.toIsSettled))
      (leaving.extends_.accepted accepted)
    apply Tree.Passes.grows leaving.extends_.grows
    refine .of_walked (by rw [Tree.walked]) rfl trivial (Tree.Passes.vetted_all passed) ?_
    rw [Tree.returns]
    exact Tree.Passes.returns_all passed
  opened _ _ settled := openFunction_opensSettled _ _ _ settled
  nameless _ _ opening settled accepted := by
    rcases (opening settled.toIsSettled).heads accepted with ⟨heading, missing, _⟩
    contradiction
  bodiless _ _ := by
    apply (bodiless_refused _ _).imp
    intro _ after refused _ accepted
    exact absurd accepted refused
  function {_ _ _ middle _ _ _ _ _ _ _ _ _ _ _ _ heading} _ _ opening passes between := by
    apply Ends.bind
    apply (basing.leave_kept middle).imp
    intro _ left leaving
    apply (basing.record_kept .separator left).imp
    intro _ after separating settled accepted
    have opened := opening settled.toIsSettled
    have own := opened.own heading rfl
    have settledBody : IsSettledIn (some heading.type) _ :=
      ⟨opened.settles.settled, some _, .inside own⟩
    have leading := leaving.extends_.trans separating.extends_
    have acceptedBody := leading.accepted accepted
    have checking := (between settledBody).extends_
    rcases opened.heads (checking.accepted acceptedBody) with
      ⟨_, ⟨⟩, numbered, sameKind, void⟩
    have passed := passes settledBody acceptedBody
    rcases Option.map_eq_some_iff.mp own with ⟨symbol, stored, sameType⟩
    -- The returns were checked against the heading, and its symbol has that type.
    rw [← sameType] at void passed
    have declared : heading.declarator.declaredSymbol? after.symbols = some symbol := by
      rw [Tree.declaredSymbol?, numbered]
      exact (checking.trans leading).grows _ _ stored
    apply closeFunction_passes _ _ _ _ declared
    · rw [sameKind]
      exact void
    · intro child member
      exact (passed child member).grows leading.grows
  prototype _ _ := .run fun _ _ => .of_walked rfl rfl trivial (by simp)
    (by simp [Declaration.closeFunction, Tree.returns])
  condition {_ test} _ settled := (condition_settles test settled).and (condition_passes test settled)
  control {_ _ _ _ kind _ _ _ _ first _ annotated} control _ tested passes behind settled
      accepted := by
    have test := tested settled.toIsSettled
    have later := settled.later test.1
    have extending := (behind later).extends_
    rcases test.2 (extending.accepted accepted) with ⟨safe, integer⟩
    apply Tree.Passes.of_walked (Tree.walked_control control first annotated)
    · cases kind <;> first | rfl | contradiction
    · cases kind <;> first | exact integer | contradiction
    · rw [List.forall_mem_append]
      exact ⟨fun node member => (safe.vetted node member).grows extending.grows,
        Tree.Passes.vetted_all (passes later accepted)⟩
    · rw [Tree.returns_control control]
      exact Tree.Passes.returns_all (passes later accepted)
  simple _ simple settled := simple_passes simple settled

/-- Where no error has been reported, everything has been checked. -/
theorem check_passes (tree : Tree) (settled : IsSettledIn result state) :
    Ends (check result tree) state fun annotated after =>
      after.Accepted → annotated.Passes after.symbols result :=
  isCheckLaw_passes.statement trivial result state settled

end Statement

end OcLang
