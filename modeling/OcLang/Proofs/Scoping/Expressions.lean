import OcLang.Proofs.Analysis.ExpressionChecks
import OcLang.Proofs.Analysis.Numbering
import OcLang.Proofs.Scoping.Agreement

namespace OcLang.Expression

open Check Lexical

/-! # Names in expressions

Checking an expression resolves its names and changes no table. -/

variable {fresh : Prop} {context : Context} {state : AnalysisState}

/-! ## The rules -/

theorem identifier_reports (sees : Sees context state) (node : Tree)
    (untouched : fresh →
      node.note.symbol = none ∧ node.note.attributes = {} ∧ node.note.structName = none) :
    Reports (identifier node) state fun annotated problems =>
      (∃ note, annotated = { node with note }) ∧
        Accounts fresh state.symbols [.use context annotated] problems := by
  have found := sees.find?_eq node.text
  unfold identifier
  refine .bind (.get ?_)
  cases resolved : context.resolve? node.text with
  | none =>
      rw [Scopes.lookup_of_missing (by simpa [resolved] using found)]
      refine .bind (.report (.pure ⟨⟨node.note, by cases node; rfl⟩, ?_, ?_, by simp [Refused]⟩))
      · simpa [Event.Holds, resolved] using untouched
      · simp [Event.unresolved?, resolved, Problem.unresolved?]
  | some declaration =>
      have recorded := sees.recorded declaration (mem_of_resolve? resolved)
      obtain ⟨symbol, stored, place, _⟩ := recorded
      rw [Scopes.lookup_of_found (by simpa [resolved] using found)]
      refine .bind (.symbol (.pure ⟨⟨_, rfl⟩, ?_, ?_, by simp [Refused]⟩))
      · simpa [Event.Holds, Tree.mapNote, resolved, AnalysisState.symbol, stored, place] using
          sees.recorded declaration (mem_of_resolve? resolved)
      · simp [Event.unresolved?, Tree.mapNote, resolved]

theorem callArguments_reports (name : String) (place : Location) (parameters : List Nat)
    (arguments : List Tree) (state : AnalysisState) :
    Reports (callArguments name place parameters arguments) state fun _ problems =>
      AllResolved problems := by
  unfold callArguments
  split
  · exact .report rfl
  · generalize arguments.zip parameters = pairs
    induction pairs generalizing state with
    | nil => exact .pure rfl
    | cons pair rest induction =>
        refine .bind (Reports.bind (.symbol ?_))
        refine (requireCompatible_reports _ _ _ _).imp fun _ problems resolved => ?_
        exact (induction _).imp fun _ more => resolved.append

theorem call_reports (sees : Sees context state) (node callee : Tree)
    (arguments : List Tree) :
    Reports (call node callee arguments) state fun annotated problems =>
      (∃ note calleeNote,
        annotated = { node with note, children := { callee with note := calleeNote } :: arguments }) ∧
        problems.filterMap Problem.unresolved? = [Event.call context callee].filterMap
          Event.unresolved? := by
  have found := sees.globals callee.text
  unfold call
  refine .bind (.get ?_)
  cases latest : context.latest? 0 callee.text with
  | none =>
      rw [Scopes.lookupGlobal_of_missing (by simpa [latest] using found)]
      exact .bind (.report (.pure
        ⟨⟨node.note, callee.note, by cases callee; rfl⟩,
          by simp [Event.unresolved?, latest, Problem.unresolved?]⟩))
  | some declaration =>
      have resolved : [Event.call context callee].filterMap Event.unresolved? = [] := by
        simp [Event.unresolved?, latest]
      rw [Scopes.lookupGlobal_of_found (by simpa [latest] using found), resolved]
      refine .bind (.symbol ?_)
      split
      · exact .bind (.report (.pure ⟨⟨node.note, callee.note, by cases callee; rfl⟩, rfl⟩))
      · refine .bind ((callArguments_reports _ _ _ _ _).imp fun _ problems quiet => ?_)
        exact .pure ⟨⟨_, _, rfl⟩, quiet.append rfl⟩

theorem selectedField_reports (node object field : Tree) (state : AnalysisState) :
    Reports (selectedField node object field) state fun _ problems => AllResolved problems := by
  unfold selectedField
  dsimp only
  split
  · refine .bind (.get ?_)
    split
    · exact .bind (.report (.pure rfl))
    · refine .bind (.symbol ?_)
      split
      · exact .bind (.report (.pure rfl))
      · exact .pure rfl
  · exact .bind (.report (.pure rfl))

theorem select_reports (node object field : Tree) (state : AnalysisState) :
    Reports (select node object field) state fun annotated problems =>
      (∃ note fieldNote,
        annotated = { node with note, children := [object, { field with note := fieldNote }] }) ∧
        AllResolved problems := by
  unfold select
  dsimp only
  split
  · exact .pure ⟨⟨node.note, field.note, by cases field; rfl⟩, rfl⟩
  · refine .bind ((selectedField_reports _ _ _ _).imp fun id problems resolved => ?_)
    cases id with
    | none => exact .pure ⟨⟨node.note, field.note, by cases field; rfl⟩, resolved.append rfl⟩
    | some id => exact .bind (.symbol (.pure ⟨⟨_, _, rfl⟩, resolved.append rfl⟩))

theorem index_reports (node array position : Tree) (state : AnalysisState) :
    Reports (index node array position) state fun annotated problems =>
      (∃ note, annotated = { node with note, children := [array, position] } ∧
        note.symbol = node.note.symbol) ∧
        AllResolved problems := by
  unfold index
  refine .bind ((requireInteger_reports _ _ _).imp fun _ problems resolved => ?_)
  dsimp only
  split
  · exact .pure ⟨⟨_, rfl, rfl⟩, resolved.append rfl⟩
  · split
    · exact .pure ⟨⟨_, rfl, rfl⟩, resolved.append rfl⟩
    · split
      · exact .pure ⟨⟨_, rfl, rfl⟩, resolved.append rfl⟩
      · exact .bind (.report (.pure ⟨⟨_, rfl, rfl⟩, resolved.append rfl⟩))

theorem newStruct_reports (node type : Tree) (state : AnalysisState) :
    Reports (newStruct node type) state fun annotated problems =>
      (∃ note typeNote,
        annotated = { node with note, children := [{ type with note := typeNote }] } ∧
        note.symbol = node.note.symbol ∧ typeNote.symbol = type.note.symbol) ∧
        AllResolved problems := by
  unfold newStruct
  refine .bind ((declaredType_reports _ _ _).imp fun _ problems resolved => ?_)
  exact .pure ⟨⟨_, _, rfl, rfl, rfl⟩, resolved.append rfl⟩

theorem newArray_reports (node : Tree) (declared : ValueType) (type size : Tree)
    (state : AnalysisState) :
    Reports (newArray node declared type size) state fun annotated problems =>
      (∃ note typeNote,
        annotated = { node with note, children := [{ type with note := typeNote }, size] } ∧
        note.symbol = node.note.symbol ∧ typeNote.symbol = type.note.symbol) ∧
        AllResolved problems := by
  unfold newArray
  refine .bind ((requireInteger_reports _ _ _).imp fun _ problems resolved => ?_)
  exact .pure ⟨⟨_, _, rfl, rfl, rfl⟩, resolved.append rfl⟩

theorem newString_reports (node size : Tree) (state : AnalysisState) :
    Reports (newString node size) state fun annotated problems =>
      (∃ note, annotated = { node with note, children := [size] } ∧
        note.symbol = node.note.symbol) ∧ AllResolved problems := by
  unfold newString
  refine .bind ((requireInteger_reports _ _ _).imp fun _ problems resolved => ?_)
  exact .pure ⟨⟨_, rfl, rfl⟩, resolved.append rfl⟩

theorem assign_reports (node target value : Tree) (state : AnalysisState) :
    Reports (assign node target value) state fun annotated problems =>
      (∃ note, annotated = { node with note, children := [target, value] } ∧
        note.symbol = node.note.symbol) ∧
        AllResolved problems := by
  have rest : ∀ (state : AnalysisState) (problems : List Problem), AllResolved problems →
      Reports (do
        requireCompatible "assignment" target.note.type value
        return {
          node with
          note := node.note.addType target.note.type target.note.attributes.roles
          children := [target, value] }) state fun annotated more =>
        (∃ note, annotated = { node with note, children := [target, value] } ∧
          note.symbol = node.note.symbol) ∧
          AllResolved (problems ++ more) := by
    intro state problems resolved
    refine .bind ((requireCompatible_reports _ _ _ _).imp fun _ more quiet => ?_)
    exact .pure ⟨⟨_, rfl, rfl⟩, resolved.append (quiet.append rfl)⟩
  unfold assign
  dsimp only
  split
  · exact .bind (.report (rest _ [_] rfl))
  · exact rest _ [] rfl

theorem binary_reports (operator : BinaryOperator) (node left right : Tree)
    (state : AnalysisState) :
    Reports (binary operator node left right) state fun annotated problems =>
      (∃ note, annotated = { node with note, children := [left, right] } ∧
        note.symbol = node.note.symbol) ∧
        AllResolved problems := by
  unfold binary
  dsimp only
  split
  · refine .bind ((requireCompatible_reports _ _ _ _).imp fun _ problems resolved => ?_)
    exact .pure ⟨⟨_, rfl, rfl⟩, resolved.append rfl⟩
  · refine .bind ((requireInteger_reports _ _ _).imp fun _ problems resolved => ?_)
    refine .bind ((requireInteger_reports _ _ _).imp fun _ more quiet => ?_)
    exact .pure ⟨⟨_, rfl, rfl⟩, resolved.append (quiet.append rfl)⟩

/-! ## The walk -/

structure Resolves (fresh : Prop) (context : Context) (symbols : Array Symbol)
    (tree annotated : Tree) (problems : List Problem) : Prop where
  same : annotated.bare = tree.bare
  accounts : Accounts fresh symbols (uses context annotated) problems

private theorem resolves_leaf {symbols : Array Symbol} {node annotated : Tree}
    {problems : List Problem} (leaf : node.hasOperands = false)
    (other : node.kind ≠ .identifier) (same : annotated.bare = node.bare)
    (resolved : AllResolved problems)
    (reported : node.kind.isConstant = true ∨ problems.any (·.severity == .error) = true) :
    Resolves fresh context symbols node annotated problems := by
  refine ⟨same, ?_⟩
  have sameKind := ((Tree.bare_eq_iff _ _).mp same).1
  rw [← Tree.hasOperands_bare, ← same, Tree.hasOperands_bare] at leaf
  rw [uses_leaf context leaf, leafEvents, if_neg (by rwa [sameKind]), sameKind]
  cases constant : node.kind.isConstant with
  | true => exact .none resolved
  | false =>
      rw [constant] at reported
      exact .misplaced annotated problems resolved (reported.resolve_left (by simp))

theorem closed_reports (sees : Sees context state) {node : Tree}
    (leaf : node.hasOperands = false) (plain : fresh → Numbering.IsPlain node) :
    Reports (closed node) state (Resolves fresh context state.symbols node) := by
  unfold closed
  split
  · rename_i identifier
    refine (identifier_reports sees node fun given => (plain given).untouched).imp ?_
    rintro _ problems ⟨⟨note, rfl⟩, accounts⟩
    refine ⟨by cases node; simp [Tree.bare_mk], ?_⟩
    have sameLeaf : ({ node with note } : Tree).hasOperands = false := by
      rw [← leaf, ← Tree.hasOperands_bare, ← Tree.hasOperands_bare node]
      cases node
      simp [Tree.bare_mk]
    rwa [uses_leaf context sameLeaf, leafEvents, if_pos identifier]
  · exact .pure (resolves_leaf leaf (by simp_all) (by simp) rfl (.inl (by simp_all [Kind.isConstant])))
  · rename_i type kind children
    refine (newStruct_reports node type state).imp ?_
    rintro _ problems ⟨⟨note, typeNote, rfl, _⟩, resolved⟩
    refine resolves_leaf leaf (by simp_all) ?_ resolved (.inl (by simp_all [Kind.isConstant]))
    cases node
    cases type
    simp_all [Tree.bare_mk]
  all_goals
    exact .bind (.report (.pure (resolves_leaf leaf (by simp_all) (by simp) rfl (.inr rfl))))

theorem isCheckLaw_resolves : IsCheckLaw
    (fun state tree => (fresh → Numbering.IsPlain tree) ∧ Sees context state)
    (fun state tree annotated problems => Resolves fresh context state.symbols tree annotated
      problems)
    (fun state trees annotated problems => annotated.map Tree.bare = trees.map Tree.bare ∧
      Accounts fresh state.symbols (usesAll context annotated) problems)
    (fun _ _ _ problems => AllResolved problems) where
  operand here member problems :=
    ⟨fun given => (here.1 given).child (Tree.mem_children_of_mem_operands member),
      here.2.reporting problems⟩
  nil _ := ⟨rfl, .none rfl⟩
  cons resolves obey := ⟨by simp [obey.1, resolves.same], resolves.accounts.append obey.2⟩
  call {_ _ _ _ callee _ _ problems} here obey := by
    rcases obey with ⟨same, accounts⟩
    apply (call_reports (here.2.reporting problems) _ _ _).imp
    rintro _ more ⟨⟨note, calleeNote, rfl⟩, unresolved⟩
    refine ⟨?_, accounts.append ⟨by simp [Event.Holds], unresolved, by simp [Refused]⟩⟩
    cases callee
    simp [Tree.bare_mk, same]
  select {_ _ _ _ _ field _ _} _ resolves := by
    apply (select_reports _ _ _ _).imp
    rintro _ more ⟨⟨note, fieldNote, rfl⟩, resolved⟩
    refine ⟨?_, resolves.accounts.quiet resolved⟩
    cases field
    simp [Tree.bare_mk, resolves.same]
  index _ resolves resolvesPosition := by
    apply (index_reports _ _ _ _).imp
    rintro _ last ⟨⟨note, rfl, _⟩, resolved⟩
    exact ⟨by simp [Tree.bare_mk, resolves.same, resolvesPosition.same],
      (resolves.accounts.append resolvesPosition.accounts).quiet resolved⟩
  declared state type := declaredType_reports none type state
  newArray {_ _ _ _ type _ _ _ _ _} _ resolved resolves := by
    apply (newArray_reports _ _ _ _ _).imp
    rintro _ last ⟨⟨note, typeNote, rfl, _⟩, quiet⟩
    refine ⟨?_, ((Accounts.none resolved).append resolves.accounts).quiet quiet⟩
    cases type
    simp [Tree.bare_mk, resolves.same]
  newString _ resolves := by
    apply (newString_reports _ _ _).imp
    rintro _ more ⟨⟨note, rfl, _⟩, resolved⟩
    exact ⟨by simp [Tree.bare_mk, resolves.same], resolves.accounts.quiet resolved⟩
  assign _ resolves resolvesValue := by
    apply (assign_reports _ _ _ _).imp
    rintro _ last ⟨⟨note, rfl, _⟩, resolved⟩
    exact ⟨by simp [Tree.bare_mk, resolves.same, resolvesValue.same],
      (resolves.accounts.append resolvesValue.accounts).quiet resolved⟩
  binary _ resolves resolvesRight := by
    apply (binary_reports _ _ _ _ _).imp
    rintro _ last ⟨⟨note, rfl, _⟩, resolved⟩
    exact ⟨by simp [Tree.bare_mk, resolves.same, resolvesRight.same],
      (resolves.accounts.append resolvesRight.accounts).quiet resolved⟩
  unary _ resolves := by
    apply (requireInteger_reports _ _ _).imp
    intro _ more resolved
    exact ⟨by simp [Tree.bare_mk, resolves.same], resolves.accounts.quiet resolved⟩
  leaf here leaf := closed_reports here.2 leaf here.1

/-- Checking an expression gives every name in it the meaning that it has at the
place of the expression. -/
theorem check_reports (tree : Tree) (plain : fresh → Numbering.IsPlain tree)
    (sees : Sees context state) :
    Reports (check tree) state (Resolves fresh context state.symbols tree) :=
  isCheckLaw_resolves.expression ⟨plain, sees⟩

end OcLang.Expression
