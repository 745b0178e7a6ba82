import OcLang.Analysis
import OcLang.Proofs.Analysis.StatementChecks
import OcLang.Proofs.Scoping.Declarations

namespace OcLang.Statement

open Check Lexical

/-! # Names in statements -/

variable {fresh : Prop} {context : Context} {state : AnalysisState}

/-! ## Statements that hold no statements -/

theorem simpleEvents_expression {tree : Tree} (notVariable : tree.kind ≠ .variable)
    (notReturn : tree.kind ≠ .returnValue) (notStruct : tree.kind ≠ .struct)
    (speaks : tree.kind.isSilent = false) : simpleEvents context tree = uses context tree := by
  unfold simpleEvents
  split <;> simp_all

theorem afterSimple_expression {tree : Tree} (notStruct : tree.kind ≠ .struct)
    (notVariable : tree.kind ≠ .variable) : afterSimple context tree = context := by
  unfold afterSimple
  split <;> simp_all

theorem simpleEvents_silent {tree : Tree} (silent : tree.kind.isSilent = true) :
    simpleEvents context tree = [] := by
  unfold simpleEvents
  split <;> simp_all [Kind.isSilent]

theorem returned_reports (result : Option ValueType) (place : Location) (value : Tree)
    (state : AnalysisState) :
    Reports (returned result place value) state fun _ problems => AllResolved problems := by
  unfold returned
  split
  · exact .report rfl
  · split
    · exact .report rfl
    · exact requireCompatible_reports _ _ _ _

private theorem unchanged_follows (agrees : Agrees context state) {node : Tree}
    (events : simpleEvents context node = []) (place : afterSimple context node = context)
    (problems : List Problem) (resolved : AllResolved problems) :
    node.bare = node.bare ∧
      Follows fresh (simpleEvents context node) (afterSimple context node) state
        (state.reporting problems) := by
  rw [events, place]
  exact ⟨rfl, .quiet (.reporting state problems resolved) agrees⟩

theorem simple_follows (agrees : Agrees context state) (result : Option ValueType) (node : Tree)
    (plain : fresh → Numbering.IsPlain node) :
    Ends (simple result node) state fun annotated after =>
      annotated.bare = node.bare ∧
        Follows fresh (simpleEvents context annotated) (afterSimple context node) state after := by
  have malformed (events : simpleEvents context node = [])
      (place : afterSimple context node = context) :
      Ends (do malformed node.kind node.location; return node) state fun annotated after =>
        annotated.bare = node.bare ∧
          Follows fresh (simpleEvents context annotated) (afterSimple context node) state after :=
    .bind (.modify (.pure (unchanged_follows agrees events place [_] (by rfl))))
  have nothing (events : simpleEvents context node = [])
      (place : afterSimple context node = context) :
      Ends (return node : Check Tree) state fun annotated after =>
        annotated.bare = node.bare ∧
          Follows fresh (simpleEvents context annotated) (afterSimple context node) state after :=
    .pure (unchanged_follows agrees events place [] rfl)
  unfold simple
  split
  case h_1 isStruct =>
    refine (Declaration.checkStruct_follows fresh agrees node).imp ?_
    rintro annotated after ⟨same, follows⟩
    refine ⟨same, ?_⟩
    have sameKind := ((Tree.bare_eq_iff _ _).mp same).1
    simpa [simpleEvents, afterSimple, sameKind, isStruct] using follows
  case h_2 isVariable => exact Declaration.checkVariable_follows agrees node isVariable plain
  case h_3 isReturn =>
    have events : simpleEvents context node = [] :=
      simpleEvents_silent (by simp [isReturn, Kind.isSilent])
    have place : afterSimple context node = context := by simp [afterSimple, isReturn]
    dsimp only
    split
    · exact .bind (.modify (.pure (unchanged_follows agrees events place
        [_] (by rfl))))
    · exact nothing events place
  case h_4 value rest isReturn children =>
    have plainValue : fresh → Numbering.IsPlain value :=
      fun given => (plain given).child (by simp [children])
    refine .bind ((Expression.check_reports value plainValue agrees.toSees).ends ?_)
    intro value problems resolves
    refine .bind ((returned_reports _ _ _ _).ends fun _ more quiet => ?_)
    refine .pure ⟨?_, ?_⟩
    · cases node
      simp_all [Tree.bare_mk, resolves.same]
    · rw [show afterSimple context node = context by simp [afterSimple, isReturn]]
      simp only [simpleEvents, isReturn, AnalysisState.reporting_reporting]
      exact .reporting agrees (resolves.accounts.quiet quiet)
  case h_5 isReturn children =>
    have events : simpleEvents context node = [.misplaced node] := by
      cases node
      simp_all [simpleEvents, uses, leafEvents, Kind.isSilent, Kind.isConstant]
    rw [show afterSimple context node = context by simp [afterSimple, isReturn]]
    refine .bind (.modify (.pure ⟨rfl, ?_⟩))
    rw [events]
    exact .reporting agrees (.misplaced _ [_] (by rfl) (by rfl))
  case h_16 =>
    have notStruct : node.kind ≠ .struct := by assumption
    have notVariable : node.kind ≠ .variable := by assumption
    have notReturn : node.kind ≠ .returnValue := by
      intro isReturn
      cases children : node.children <;> simp_all
    refine (Expression.check_reports node plain agrees.toSees).ends ?_
    intro annotated problems resolves
    have sameKind := ((Tree.bare_eq_iff _ _).mp resolves.same).1
    refine ⟨resolves.same, ?_⟩
    have speaks : node.kind.isSilent = false := by
      cases kind : node.kind <;> simp_all [Kind.isSilent]
    rw [simpleEvents_expression (by rwa [sameKind]) (by rwa [sameKind]) (by rwa [sameKind])
      (by rwa [sameKind]), afterSimple_expression notStruct notVariable]
    exact .reporting agrees resolves.accounts
  all_goals first
    | exact malformed (simpleEvents_silent (by simp_all [Kind.isSilent])) (by simp_all [afterSimple])
    | exact nothing (simpleEvents_silent (by simp_all [Kind.isSilent])) (by simp_all [afterSimple])

/-! ## The walk -/

theorem after_congr {first second : Tree} (same : first.bare = second.bare) (context : Context) :
    after context first = after context second := by
  rw [← after_bare, same, after_bare]

variable (fresh)

theorem condition_follows (agrees : Agrees context state) {test : Tree}
    (plain : fresh → Numbering.IsPlain test) :
    Ends (condition test) state fun annotated after =>
      annotated.bare = test.bare ∧ Follows fresh (uses context annotated) context state after := by
  apply Ends.bind
  apply (Expression.check_reports test plain agrees.toSees).ends
  intro annotated problems resolves
  apply Ends.bind
  apply (requireInteger_reports _ _ _).ends
  intro _ more quiet
  have follows : Follows fresh (uses context annotated) context state
      (state.reporting (problems ++ more)) :=
    .reporting agrees (resolves.accounts.quiet quiet)
  rw [← AnalysisState.reporting_reporting] at follows
  exact .pure ⟨resolves.same, follows⟩

variable {fresh} in
theorem closed_follows (context : Context) {inner : Context} (scope : Nat) (agrees : Agrees inner state)
    (opened : inner.enclosing = scope :: context.enclosing) :
    Ends (do leave; record .separator) state fun _ after =>
      Follows fresh [] (context.close inner) state after := by
  apply Ends.bind
  apply (Follows.leave fresh context scope agrees opened).imp
  intro _ left follows
  apply Ends.modify
  exact follows.trans (.quiet (.logged left (left.log ++ [.separator])) follows.agrees)

/-- The walk gives every name in a statement the meaning that it has at its
place, and behind the statement the tables show the declarations in it. -/
theorem isCheckLaw_follows : IsCheckLaw (fun tree => fresh → Numbering.IsPlain tree)
    (fun _ state tree annotated after => ∀ context, Agrees context state →
      annotated.bare = tree.bare ∧
        Follows fresh (events context annotated) (Lexical.after context tree) state after)
    (fun _ state trees annotated after => ∀ context, Agrees context state →
      annotated.map Tree.bare = trees.map Tree.bare ∧
        Follows fresh (eventsAll context annotated) (afterAll context trees) state after)
    (fun state _ declarator parameters opened inside => ∀ context, Agrees context state →
      Declaration.Introduces fresh context declarator parameters state inside opened)
    (fun state test annotated after => ∀ context, Agrees context state →
      annotated.bare = test.bare ∧ Follows fresh (uses context annotated) context state after)
    (fun _ _ _ => True) where
  child plain member given := (plain given).child member
  checked _ _ _ := trivial
  checkedAll _ _ _ := trivial
  nil _ _ _ agrees := ⟨rfl, .refl agrees⟩
  cons follows _ followsRest _ context agrees := by
    rcases follows context agrees with ⟨same, follows⟩
    rcases followsRest _ follows.agrees with ⟨sameRest, followsRest⟩
    refine ⟨by simp [same, sameRest], ?_⟩
    simp only [eventsAll, afterAll, after_congr same]
    exact follows.trans followsRest
  root _ follows context agrees := by
    rcases follows context agrees with ⟨same, follows⟩
    exact ⟨by simp [Tree.bare_mk, same], follows⟩
  block {_ state middle _ _ _ _ _} _ follows := by
    intro context agrees
    have entered : Follows fresh [] context.enter state { state with scopes := state.scopes.enter } :=
      Follows.enter fresh agrees
    rcases follows _ entered.agrees with ⟨same, follows⟩
    have leaving := Follows.leave fresh context (context.opened + 1) follows.agrees
      (by rw [enclosing_afterAll]; rfl)
    refine ⟨by simp [Tree.bare_mk, same], ?_⟩
    simpa [events, Lexical.after] using (entered.trans follows).trans leaving
  opened _ _ _ agrees := Declaration.openFunction_follows fresh agrees _ _ _
  nameless heading _ opening context agrees := by
    rcases opening context agrees with ⟨declared, follows⟩
    rcases heading with rfl | rfl <;>
      exact ⟨rfl, by simpa [events, Lexical.after, declared] using follows⟩
  bodiless {_ _ inside place _ _ _ _ _} _ opening := by
    refine .all fun context => .all fun agrees => ?_
    rcases opening context agrees with _ | ⟨declared, sameDeclarator, named, sameName,
      sameParameters, opens⟩
    have resolved : AllResolved [.malformed place Kind.function.tag] := rfl
    have reporting : Follows fresh [] _ inside _ :=
      .quiet (.reporting inside _ resolved) opens.agrees
    apply Ends.bind
    apply Ends.modify
    apply (closed_follows context (context.opened + 1) reporting.agrees (by simp)).imp
    intro _ after closing
    refine ⟨by simp [Declaration.closeFunction, Tree.bare_mk, sameDeclarator, sameParameters], ?_⟩
    simpa [Declaration.closeFunction, events, Lexical.after, declared, named, bodyEvents,
      afterBody] using (opens.trans reporting).trans closing
  function {_ _ _ _ _ _ _ _ _ _ _ _ parameters _ _ _ heading} _ _ opening follows _ := by
    refine .all fun context => .all fun agrees => ?_
    rcases opening context agrees with _ | @⟨name, annotated, _, declared, sameDeclarator,
      named, sameName, sameParameters, opens⟩
    rcases follows _ opens.agrees with ⟨same, follows⟩
    -- What a heading binds does not depend on its annotations.
    have sameHeading : context.heading annotated heading.parameters =
        context.heading name parameters := by
      rw [← heading_bare context annotated, sameName, sameParameters, heading_bare]
    apply (closed_follows context (context.opened + 1) follows.agrees (by simp)).imp
    intro _ after closing
    refine ⟨by simp [Declaration.closeFunction, Tree.bare_mk, sameDeclarator, sameParameters,
      same], ?_⟩
    simpa [Declaration.closeFunction, events, Lexical.after, declared, named, sameHeading,
      bodyEvents, afterBody] using (opens.trans follows).trans closing
  prototype _ opening := by
    refine .all fun context => .all fun agrees => ?_
    rcases opening context agrees with _ | ⟨declared, sameDeclarator, named, sameName,
      sameParameters, opens⟩
    apply (Follows.leave fresh context (context.opened + 1) opens.agrees (by simp)).imp
    intro _ after leaving
    refine ⟨by simp [Declaration.closeFunction, Tree.bare_mk, sameDeclarator, sameParameters], ?_⟩
    simpa [Declaration.closeFunction, events, Lexical.after, declared, named] using
      opens.trans leaving
  condition plain _ agrees := condition_follows fresh agrees plain
  control control _ tested follows _ context agrees := by
    rcases tested context agrees with ⟨sameTest, tested⟩
    rcases follows context tested.agrees with ⟨same, follows⟩
    refine ⟨by simp [Tree.bare_mk, same, sameTest], ?_⟩
    rw [events_control context control, after_control context control]
    exact tested.trans follows
  simple {result _ tree} plain simple := by
    refine .all fun context => .all fun agrees => ?_
    rw [after_simple _ simple]
    apply (simple_follows agrees result tree plain).imp
    rintro annotated after ⟨same, follows⟩
    refine ⟨same, ?_⟩
    rwa [events_simple]
    rw [← Tree.isCompound_bare, same, Tree.isCompound_bare, simple]

theorem check_follows (tree : Tree) (result : Option ValueType)
    (plain : fresh → Numbering.IsPlain tree) (agrees : Agrees context state) :
    Ends (check result tree) state fun annotated after =>
      annotated.bare = tree.bare ∧
        Follows fresh (events context annotated) (Lexical.after context tree) state after :=
  (isCheckLaw_follows fresh).statement plain result state context agrees

end OcLang.Statement
