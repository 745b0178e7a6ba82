import OcLang.Proofs.Analysis.StatementChecks
import OcLang.Proofs.Scoping.Resolution
import OcLang.Proofs.Typing.Declarations

namespace OcLang

open Check

/-! # Types of statements

The walk over a program without errors meets nodes that fit to the declarations
that it met before. -/

namespace Statement

variable {result : Option ValueType} {state : AnalysisState}

/-! ## Statements that hold no statements -/

theorem returned_fits (place : Location) (value : Tree) (state : AnalysisState) :
    Reports (returned result place value) state fun _ problems =>
      NoError problems → value.note.type.IsProper → Returns result value.note.type := by
  unfold returned
  cases result with
  | none =>
      apply Reports.report
      intro accepted
      contradiction
  | some type =>
      dsimp only
      split
      · apply Reports.report
        intro accepted
        contradiction
      · rename_i other
        apply (requireCompatible_meets "return" type value state).imp
        intro _ problems meets accepted properValue
        exact ⟨type, rfl, by simpa using other,
          fun properType => meets accepted properType properValue⟩

theorem simple_learns {node : Tree} (simple : node.isCompound = false)
    (plain : Numbering.IsPlain node) (state : AnalysisState) :
    Ends (Statement.simple result node) state fun annotated after =>
      Learns result annotated.walked annotated.returned state after := by
  have unchanged (problems : List Problem) (silent : node.kind.isSilent = true) :
      Learns result node.walked node.returned state (state.reporting problems) := by
    have other : node.kind ≠ .returnValue := by
      intro isReturn
      rw [isReturn] at silent
      contradiction
    apply Learns.of_suited (.reporting state problems)
    intro _ known knows
    exact ⟨knows.reporting problems, Tree.returned_eq_nil simple other,
      Tree.isSuited_of_silent silent simple⟩
  unfold Statement.simple
  split
  case h_1 isStruct => exact Declaration.checkStruct_learns result isStruct state
  case h_2 isVariable => exact Declaration.checkVariable_learns result plain isVariable state
  case h_3 isReturn =>
    dsimp only
    split
    · apply Ends.bind
      apply Ends.modify
      apply Ends.pure
      exact unchanged [_] (by rw [isReturn]; rfl)
    · apply Ends.pure
      exact unchanged [] (by rw [isReturn]; rfl)
  case h_4 value rest isReturn children =>
    rcases node with ⟨kind, location, text, note, below⟩
    simp only at isReturn children
    subst isReturn children
    apply Ends.bind
    apply (Expression.check_hasType value (plain.child (by simp)) _).ends
    intro value problems typed
    apply Ends.bind
    apply (returned_fits location value _).ends
    intro _ more returns
    apply Ends.pure
    have valued : Learns result value.walked [value] state
        ((state.reporting problems).reporting more) := by
      refine ⟨(Extends.reporting _ problems).trans (.reporting _ more), ?_⟩
      intro accepted known knows
      have acceptedValue := (Extends.reporting _ more).accepted accepted
      have typedValue := typed (AnalysisState.accepted_reporting acceptedValue) known knows
      have nothing : value.walked.filterMap Tree.declared? = [] :=
        List.filterMap_eq_nil_iff.mpr fun node inside => (typedValue.suited node inside).1
      rw [nothing, List.append_nil]
      refine ⟨(knows.reporting problems).reporting more,
        fun node inside => (typedValue.suited node inside).2, ?_⟩
      intro result member
      rw [List.mem_singleton.mp member]
      exact returns (AnalysisState.accepted_reporting accepted) typedValue.type
    exact .cons rfl (fun _ => trivial) valued
  case h_11 isField => exact .pure (unchanged [] (by rw [isField]; rfl))
  case h_12 isType => exact .pure (unchanged [] (by rw [isType]; rfl))
  case h_13 isMark => exact .pure (unchanged [] (by rw [isMark]; rfl))
  case h_14 isName => exact .pure (unchanged [] (by rw [isName]; rfl))
  case h_15 isList => exact .pure (unchanged [] (by rw [isList]; rfl))
  case h_16 =>
    apply (Expression.check_hasType node plain state).ends
    intro annotated problems typed
    apply Learns.of_suited (.reporting state problems)
    intro accepted known knows
    have typedHere := typed (AnalysisState.accepted_reporting accepted) known knows
    exact ⟨knows.reporting problems, typedHere.returnsNothing, typedHere.suited⟩
  all_goals exact .of_report rfl (.refl state)

/-! ## The walk -/

theorem leave_keeps (state : AnalysisState) :
    Ends leave state fun _ after => Keeps state after := by
  apply Ends.modify
  cases exit : state.scopes.exit with
  | ok scopes => exact ⟨.quiet _ _ _ _, fun _ _ tracks => tracks.left exit⟩
  | error fault => exact ⟨⟨.refl _, List.prefix_refl _⟩, fun _ _ tracks => { tracks with }⟩

theorem condition_learns {test : Tree} (plain : Numbering.IsPlain test) (state : AnalysisState) :
    Ends (condition test) state fun annotated after =>
      Learns result annotated.walked [] state after := by
  unfold condition
  apply Ends.bind
  apply (Expression.check_hasType test plain state).ends
  intro annotated problems typed
  apply Ends.bind
  apply (requireInteger_reports "condition" annotated _).ends
  intro _ more _
  apply Ends.pure
  have reporting := (Extends.reporting (state.reporting problems) more)
  apply Learns.of_suited ((Extends.reporting state problems).trans reporting)
  intro accepted known knows
  have fine := AnalysisState.accepted_reporting (reporting.accepted accepted)
  exact ⟨(knows.reporting problems).reporting more, rfl, (typed fine known knows).suited⟩

/-- A function is closed, which is logged. -/
theorem close_keeps (state : AnalysisState) :
    Ends (do leave; record .separator) state fun _ after => Keeps state after := by
  apply Ends.bind
  apply (leave_keeps state).imp
  intro _ left leaving
  exact .modify (leaving.trans (.logged left _))

theorem learns_function {location : Location} {text : String} {note : Note} {children : List Tree}
    (untyped : note.IsUntyped) {heading : Declaration.Heading} {signature : Signature}
    {body : Tree} {rest : List Tree} {before inside after : AnalysisState}
    (opens : Declaration.Opens ⟨.function, location, text, note, children⟩ heading signature
      before inside)
    (learns : Learns (some heading.type) (Tree.walkedAll body.children)
      (Tree.returnedAmong body.children) inside after) :
    let annotated := Declaration.closeFunction ⟨.function, location, text, note, children⟩
      heading (body :: rest)
    Learns result annotated.walked annotated.returned before after := by
  intro annotated
  have declared := opens.declared (body :: rest)
  have nodes : annotated.walked = annotated :: Tree.walkedAll body.children := by
    rcases body with ⟨kind, place, word, bodyNote, statements⟩
    rfl
  refine ⟨opens.extends_.trans learns.extends_, ?_⟩
  intro accepted known knows
  have acceptedInside := learns.extends_.accepted accepted
  rcases learns.learns accepted _ (opens.knows acceptedInside known knows) with
    ⟨knowsAfter, fitting, returning⟩
  rw [List.append_assoc, List.singleton_append] at knowsAfter fitting
  rw [nodes, List.filterMap_cons_some declared, List.forall_mem_cons]
  refine ⟨knowsAfter, ⟨⟨Option.isSome_iff_exists.mpr ⟨_, declared⟩, ?_⟩, fitting⟩, by
    simp [annotated, Declaration.closeFunction, Tree.returned]⟩
  have type : annotated.note.type = heading.type := Note.type_addType untyped.type _ _
  rw [type]
  exact ⟨opens.proper acceptedInside, returning⟩

theorem isCheckLaw_learns : IsCheckLaw Numbering.IsPlain
    (fun result state _ annotated after =>
      Learns result annotated.walked annotated.returned state after)
    (fun result state _ annotated after =>
      Learns result (Tree.walkedAll annotated) (Tree.returnedAmong annotated) state after)
    (fun state node _ _ opened inside => Declaration.Opening node state inside opened)
    (fun state _ annotated after => ∀ result, Learns result annotated.walked [] state after)
    (fun _ _ _ => True) where
  child plain member := plain.child member
  checked _ _ _ := trivial
  checkedAll _ _ _ := trivial
  nil _ state := .quiet (.reporting state [])
  cons learns _ learnsRest _ := learns.trans learnsRest
  root _ learns := learns.cons rfl fun _ => trivial
  block {_ state middle _ _ _ _ _} _ learns := by
    apply (leave_keeps middle).imp
    intro _ after left
    have whole := ((Learns.quiet (.entered state)).trans learns).trans (.quiet left)
    simp only [List.append_nil, List.nil_append] at whole
    exact whole.cons rfl fun _ => trivial
  opened {state _ _ _ _ declarator _ _} heading plain :=
    Declaration.openFunction_opens heading declarator (plain.child (by simp)) state
  nameless _ _ opening := by
    cases opening with
    | refused extends_ refused => exact .refused extends_ refused
  bodiless {_ _ inside _ _ _ _ _ _} _ opening := by
    rcases opening with _ | ⟨signature, opens⟩
    apply Ends.bind
    apply Ends.modify
    apply (close_keeps _).imp
    intro _ after closing
    have reporting : Extends inside after := (Extends.reporting inside [_]).trans closing.extends_
    exact .refused (opens.extends_.trans reporting) fun accepted =>
      AnalysisState.refused_reporting rfl (closing.extends_.accepted accepted)
  function {_ _ _ middle _ _ _ _ _ _ _ _ _ _ _ _ _} plain _ opening learns _ := by
    rcases opening with _ | ⟨signature, opens⟩
    apply (close_keeps middle).imp
    intro _ after closing
    have whole := learns.trans (.quiet closing)
    simp only [List.append_nil] at whole
    exact learns_function plain.isUntyped opens whole
  prototype {_ _ inside _ _ _ _ _ _ _} _ opening := by
    rcases opening with _ | ⟨signature, opens⟩
    apply (leave_keeps inside).imp
    intro _ after left
    apply Learns.of_declared (.function signature) (opens.declared _)
      (opens.extends_.trans left.extends_)
    intro accepted known knows
    have acceptedInside := left.extends_.accepted accepted
    exact ⟨left.knows accepted (opens.knows acceptedInside known knows), trivial⟩
  condition plain _ := condition_learns plain _
  control {_ _ _ _ kind _ _ _ _ first _ annotated} control _ tested learns _ := by
    rw [Tree.walked_control control, Tree.returned_control control]
    apply ((tested _).trans learns).cons
    · cases kind <;> simp [Kind.isControl] at control <;> rfl
    · intro known
      cases kind <;> simp [Kind.isControl] at control <;> trivial
  simple plain simple := simple_learns simple plain _

/-- What a program without errors holds is known behind it, and fits. -/
theorem check_learns (tree : Tree) (plain : Numbering.IsPlain tree) (state : AnalysisState) :
    Ends (check result tree) state fun annotated after =>
      Learns result annotated.walked annotated.returned state after :=
  isCheckLaw_learns.statement plain result state

end Statement

/-- In an accepted tree every declaration is known in the end, and all that is checked
against declarations fits. Values are returned by functions only. -/
theorem analyze_learns {tree : Tree} (fresh : tree.IsFresh)
    (accepted : (analyze tree).2.diagnostics.hasErrors = false) :
    let known := (analyze tree).1.walked.filterMap Tree.declared?
    Knows known ((Statement.check none (Numbering.number tree)).run {}).2 ∧
      (∀ node ∈ (analyze tree).1.walked, node.Fits known) ∧ (analyze tree).1.returned = [] := by
  have learns : Learns none (analyze tree).1.walked (analyze tree).1.returned {}
      ((Statement.check none (Numbering.number tree)).run {}).2 :=
    Statement.check_learns (Numbering.number tree) (Numbering.isPlain_number fresh) {}
  rcases learns.learns accepted [] .start with ⟨knows, fits, returns⟩
  refine ⟨knows, fits, ?_⟩
  rw [List.eq_nil_iff_forall_not_mem]
  intro value member
  rcases returns value member with ⟨type, none, _⟩
  contradiction

end OcLang
