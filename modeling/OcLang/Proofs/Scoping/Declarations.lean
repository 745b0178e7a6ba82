import OcLang.Analysis.Declarations
import OcLang.Proofs.Scoping.Expressions
import OcLang.Proofs.Scoping.Steps

namespace OcLang.Declaration

open Check Lexical

/-! # Names in declarations

Checking a declaration makes its name mean the declared symbol from there on. -/

@[simp] theorem bare_annotateName (type : ValueType) (roles : Roles) (id : Nat)
    (declarator : Tree) : (annotateName type roles id declarator).bare = declarator.bare := by
  have sameChildren := Tree.map_children_mapDeclaredName Tree.bare
    (fun name => name.mapNote fun note => { note.addType type roles with symbol := some id })
    (fun name => Tree.bare_mapNote _ name) declarator
  rw [Tree.bare_eq_iff]
  exact ⟨rfl, rfl, rfl, sameChildren⟩

theorem declaredName?_annotateName (type : ValueType) (roles : Roles) (id : Nat)
    (declarator : Tree) :
    (annotateName type roles id declarator).declaredName? =
      declarator.declaredName?.map fun name =>
        name.mapNote fun note => { note.addType type roles with symbol := some id } := by
  refine Tree.declaredName?_mapDeclaredName _ ?_ declarator
  intro name
  rfl

/-! ## Structs -/

theorem checkField_stores (structName : String) (table : Table) (declarator : Tree)
    (state : AnalysisState) :
    Ends (checkField structName table declarator) state fun result after =>
      result.2.bare = declarator.bare ∧
        Stores (if declarator.declaredName?.isSome then 1 else 0) state after := by
  unfold checkField
  refine .bind ((declaredType_reports _ _ _).ends fun type problems resolved => ?_)
  have typed := Stores.reporting state problems resolved
  cases declared : declarator.declaredName? with
  | none =>
      refine .bind (.modify (.pure ⟨rfl, ?_⟩))
      exact typed.trans (.reporting _ [_] (by rfl))
  | some name =>
      refine .bind (.modifyGet ?_)
      have allocated := typed.trans (.allocated (state.reporting problems)
        { type, role := .field, location := name.location })
      dsimp only
      split
      · refine .bind (.bind (.get (.pure (.bind (.modify (.pure ⟨by simp, ?_⟩))))))
        exact allocated.trans (.reporting _ [_] (by rfl))
      · exact .pure ⟨by simp, allocated⟩

theorem checkFields_stores (structName : String) (table : Table) (declarators : List Tree)
    (state : AnalysisState) :
    Ends (checkFields structName table declarators) state fun result after =>
      result.2.map Tree.bare = declarators.map Tree.bare ∧
        Stores (declarators.countP (·.declaredName?.isSome)) state after := by
  induction declarators generalizing table state with
  | nil => exact .pure ⟨rfl, .reporting state [] rfl⟩
  | cons declarator rest induction =>
      refine .bind ((checkField_stores structName table declarator state).imp ?_)
      rintro ⟨table, first⟩ middle ⟨same, stores⟩
      refine .bind ((induction table middle).imp ?_)
      rintro ⟨table, others⟩ after ⟨sameRest, storesRest⟩
      refine .pure ⟨by simp [same, sameRest], ?_⟩
      rw [List.countP_cons, Nat.add_comm]
      exact stores.trans storesRest

theorem registerStruct_stores (name : String) (place : Location) (id : Nat)
    (state : AnalysisState) :
    Ends (registerStruct name place id) state fun _ after => Stores 0 state after := by
  unfold registerStruct
  have registered := Stores.known state (state.structs.insert name id)
  refine .bind (.get (.bind (.set ?_)))
  split
  · refine .bind (.modify (.bind (.modify (.modify ?_))))
    exact (registered.trans (.reporting _ [_] (by rfl))).trans
      ((Stores.logged _ _).trans (.logged _ _))
  · refine .bind (.modify (.modify ?_))
    exact registered.trans ((Stores.logged _ _).trans (.logged _ _))

theorem checkStruct_follows (fresh : Prop) {context : Context} {state : AnalysisState}
    (agrees : Agrees context state) (node : Tree) :
    Ends (checkStruct node) state fun annotated after =>
      annotated.bare = node.bare ∧
        Follows fresh (structEvents annotated) (context.storeStruct node.children) state after := by
  have unnamed : Ends (do report (.unnamedStruct node.location); return node) state
      fun annotated after =>
        annotated = node ∧ Follows fresh [.misplaced annotated] context state after :=
    .bind (.modify (.pure ⟨rfl, .reporting agrees (.misplaced _ [_] (by rfl) (by rfl))⟩))
  unfold checkStruct
  split
  · rename_i name declarators children
    simp only [children, Context.storeStruct]
    split
    · rename_i other
      rw [if_neg (by simpa using other)]
      refine unnamed.imp ?_
      rintro _ after ⟨rfl, follows⟩
      rw [structEvents, if_neg (by simpa [children] using other)]
      exact ⟨rfl, follows⟩
    · rename_i named
      rw [if_pos (by simpa using named)]
      refine .bind ((checkFields_stores name.text {} declarators state).imp ?_)
      rintro ⟨table, others⟩ middle ⟨same, stores⟩
      refine .bind (.modifyGet (.bind ((registerStruct_stores _ _ _ _).imp ?_)))
      intro _ after registered
      refine .pure ⟨?_, ?_⟩
      · cases node
        simp_all [Tree.bare_mk]
      · rw [structEvents, if_pos (by simpa [Tree.mapNote] using named)]
        exact .ofStores (stores.trans ((Stores.allocated _ _).trans registered)) agrees
  · rename_i children
    simp only [children, Context.storeStruct]
    refine unnamed.imp ?_
    rintro _ after ⟨rfl, follows⟩
    rw [structEvents, if_neg (by simp [children])]
    exact ⟨rfl, follows⟩

/-! ## Variables -/

section

variable {fresh : Prop} {context : Context} {state : AnalysisState}

theorem symbol_of_recorded {declaration : Declaration}
    (recorded : declaration.RecordedIn state.symbols) :
    (state.symbol declaration.symbol).isVariable = declaration.isVariable := by
  obtain ⟨symbol, stored, _, _, variableRole, _⟩ := recorded
  simp [AnalysisState.symbol, stored, variableRole]

/-- What a variable takes over from is the variable that has its name so far. -/
theorem replacedVariable_ends (agrees : Agrees context state) (role : Role)
    (variableRole : role.isVariable = true) (name : String)
    {holds : Option Nat → AnalysisState → Prop} (here : holds (context.replaced? role name) state) :
    Ends (replacedVariable name) state holds := by
  unfold replacedVariable
  refine .bind (.get (.pure ?_))
  have target : role.target = .innermost := by cases role <;> first | rfl | contradiction
  have bound := agrees.bound?_eq role name
  rw [target] at bound
  unfold Context.replaced? at here
  rw [if_pos variableRole] at here
  rw [bound]
  cases latest : context.latest? (context.scopeOf role) name with
  | none => simpa [latest] using here
  | some declaration =>
      have recorded := symbol_of_recorded (agrees.recorded declaration (mem_of_latest? latest))
      simp only [latest] at here
      cases isVariable : declaration.isVariable <;>
        simpa [recorded, isVariable, Option.filter] using here

theorem currentBlock_eq (agrees : Agrees context state) :
    state.scopes.currentBlock = context.innermost := by
  have enclosing := agrees.enclosing
  cases inner : state.scopes.inner <;>
    simp_all [Scopes.currentBlock, Context.innermost, ← enclosing]

variable (fresh) in
theorem declare_follows {before : AnalysisState} (agrees : Agrees context before) (role : Role)
    (name : Tree) (symbol : Symbol) {target : DeclarationTarget} (aimed : target = role.target)
    (place : symbol.location = name.location) (block : symbol.block = context.scopeOf role)
    (variableRole : symbol.isVariable = role.isVariable)
    (replaces : symbol.replaces? = context.replaced? role name.text)
    (symbols : state.symbols = before.symbols.push symbol)
    (scopes : state.scopes = before.scopes) :
    Ends (declare target name.text context.stored) state fun _ after =>
      Follows fresh [] (context.declare role name) state after := by
  subst aimed
  have bound : Follows fresh [] (context.declare role name) state
      { state with
        scopes := state.scopes.bind role.target name.text context.stored } := by
    refine ⟨agrees.declare place block variableRole replaces symbols ?_, .refl _, by simp, by simp,
      by simp [Refused], rfl⟩
    rw [scopes]
  unfold declare
  refine .bind (.get (.bind (.set ?_)))
  dsimp only
  split
  · exact bound
  · split
    · exact bound
    · refine .modify ?_
      exact bound.trans (.quiet (.reporting _ [_] (by rfl)) bound.agrees)

theorem recordSymbol_stores (name : String) (id : Nat) (state : AnalysisState) :
    Ends (recordSymbol name id) state fun _ after => Stores 0 state after :=
  .bind (.get (.modify (.logged state _)))

variable (fresh) in
/-- Behind the allocation of its symbol and whatever its initializer reports, a
variable or parameter is declared and logged. -/
theorem declareVariable_follows {before : AnalysisState} (agrees : Agrees context before)
    (role : Role) (name : Tree) (symbol : Symbol) (target : role.target = .innermost)
    (place : symbol.location = name.location) (block : symbol.block = context.scopeOf role)
    (variableRole : symbol.isVariable = role.isVariable)
    (replaces : symbol.replaces? = context.replaced? role name.text)
    (symbols : state.symbols = before.symbols.push symbol)
    (scopes : state.scopes = before.scopes) {Value : Type} {value : Value}
    {holds : Value → AnalysisState → Prop}
    (here : ∀ after, Follows fresh [] (context.declare role name) state after →
      holds value after) :
    Ends (do
      declare .innermost name.text context.stored
      recordSymbol name.text context.stored
      return value) state holds := by
  refine .bind ((declare_follows fresh agrees role name symbol target.symm place block variableRole
    replaces symbols scopes).imp fun _ middle declared => ?_)
  refine .bind ((recordSymbol_stores _ _ _).imp fun _ after logged => ?_)
  exact .pure (here after (declared.trans (.quiet logged declared.agrees)))

theorem checkVariable_follows (agrees : Agrees context state) (node : Tree)
    (isVariable : node.kind = .variable) (plain : fresh → Numbering.IsPlain node) :
    Ends (checkVariable node) state fun annotated after =>
      annotated.bare = node.bare ∧
        Follows fresh (simpleEvents context annotated) (afterSimple context node) state after := by
  obtain ⟨kind, location, text, note, children⟩ := node
  subst isVariable
  rcases children with _ | ⟨declarator, values⟩
  · exact .bind (.modify (.pure ⟨rfl, .reporting agrees (.misplaced _ [_] (by rfl) (by rfl))⟩))
  · refine .bind ((declaredType_reports _ _ _).ends fun type problems resolved => ?_)
    have typed := Stores.reporting state problems resolved
    cases declared : declarator.declaredName? with
    | none =>
        refine .bind (.modify (.pure ⟨rfl, ?_⟩))
        simp only [simpleEvents, afterSimple, declared]
        exact .quiet (typed.trans (.reporting _ [_] (by rfl))) agrees
    | some name =>
        have here : Agrees context (state.reporting problems) := typed.agrees agrees
        refine .bind (replacedVariable_ends here (.variable values.head?) rfl _ ?_)
        refine .bind (.get ?_)
        rw [currentBlock_eq here]
        refine .bind (.modifyGet ?_)
        dsimp only
        rw [here.stored]
        generalize form : SymbolRole.variable (context.replaced? (.variable values.head?) name.text)
          = role
        have variableRole : role.roles.isVariable = true := by rw [← form]; rfl
        have annotated := declaredName?_annotateName type role.roles context.stored declarator
        rw [declared] at annotated
        let symbol : Symbol := { type, role, location := name.location, block := context.innermost }
        have replaces : symbol.replaces? = context.replaced? (.variable values.head?) name.text := by
          simp [symbol, Symbol.replaces?, ← form]
        have allocated := typed.trans (.allocated (state.reporting problems) symbol)
        rw [show afterSimple context ⟨.variable, location, text, note, declarator :: values⟩ =
          context.declare (.variable values.head?) name by simp [afterSimple, declared]]
        cases values with
        | nil =>
            refine .bind (.pure ?_)
            refine declareVariable_follows fresh here (.variable none) name symbol rfl rfl rfl variableRole
              replaces (by rfl) (by rfl) fun after follows => ?_
            refine ⟨by simp [Tree.bare_mk], ?_⟩
            simp only [simpleEvents, Tree.declaredName?_mapNote, annotated]
            exact (follows.stored allocated).declared _ _ rfl rfl
        | cons value rest =>
            have sees := allocated.sees agrees.toSees
            have plainValue : fresh → Numbering.IsPlain value :=
              fun given => (plain given).child (by simp)
            refine .bind ((Expression.check_reports value plainValue sees).ends ?_)
            intro value found resolves
            refine .bind ((requireCompatible_reports _ _ _ _).ends fun _ more quiet => ?_)
            refine .bind (.pure ?_)
            refine declareVariable_follows fresh here (.variable value) name symbol rfl rfl rfl variableRole
              replaces (by rfl) (by rfl) fun after follows => ?_
            refine ⟨by simp [Tree.bare_mk, resolves.same], ?_⟩
            simp only [simpleEvents, Tree.declaredName?_mapNote, annotated, List.head?_cons,
              Option.toList_some, usesAll]
            have meets := follows.stored (.reporting _ more quiet)
            exact ((Follows.reported resolves.accounts meets).stored allocated).declared _ _ rfl rfl

/-! ## Functions -/

variable (fresh)

theorem checkParameter_follows (agrees : Agrees context state) (declarator : Tree) :
    Ends (checkParameter declarator) state fun annotated after =>
      annotated.bare = declarator.bare ∧
        Follows fresh (parameterEvents context [annotated])
          (context.declareParameters [declarator]) state after := by
  refine .bind ((declaredType_reports _ _ _).ends fun type problems resolved => ?_)
  have typed := Stores.reporting state problems resolved
  cases declared : declarator.declaredName? with
  | none =>
      refine .bind (.modify (.pure ⟨rfl, ?_⟩))
      simp only [parameterEvents, Context.declareParameters, declared]
      exact .quiet (typed.trans (.reporting _ [_] (by rfl))) agrees
  | some name =>
      have here : Agrees context (state.reporting problems) := typed.agrees agrees
      refine .bind (replacedVariable_ends here .parameter rfl _ ?_)
      refine .bind (.get ?_)
      rw [currentBlock_eq here]
      refine .bind (.modifyGet ?_)
      dsimp only
      rw [here.stored]
      generalize form : SymbolRole.parameter (context.replaced? .parameter name.text) = role
      have variableRole : role.roles.isVariable = true := by rw [← form]; rfl
      have annotated := declaredName?_annotateName type role.roles context.stored declarator
      rw [declared] at annotated
      let symbol : Symbol := { type, role, location := name.location, block := context.innermost }
      have replaces : symbol.replaces? = context.replaced? .parameter name.text := by
        simp [symbol, Symbol.replaces?, ← form]
      have allocated := typed.trans (.allocated (state.reporting problems) symbol)
      refine declareVariable_follows fresh here .parameter name symbol rfl rfl rfl variableRole replaces
        (by rfl) (by rfl) fun after follows => ?_
      refine ⟨by simp, ?_⟩
      simp only [parameterEvents, Context.declareParameters, declared,
        Tree.declaredName?_mapNote, annotated]
      exact (follows.stored allocated).declared _ _ rfl rfl

theorem checkParameters_follows (agrees : Agrees context state) (declarators : List Tree) :
    Ends (checkParameters declarators) state fun annotated after =>
      annotated.map Tree.bare = declarators.map Tree.bare ∧
        Follows fresh (parameterEvents context annotated)
          (context.declareParameters declarators) state after := by
  induction declarators generalizing context state with
  | nil => exact .pure ⟨rfl, .refl agrees⟩
  | cons declarator rest induction =>
      refine .bind ((checkParameter_follows fresh agrees declarator).imp ?_)
      rintro first middle ⟨same, follows⟩
      refine .bind ((induction follows.agrees).imp ?_)
      rintro others after ⟨sameRest, followsRest⟩
      refine .pure ⟨by simp [same, sameRest], ?_⟩
      have sameNext : context.declareParameters [first] =
          context.declareParameters [declarator] := by
        rw [← declareParameters_bare context [first], ← declareParameters_bare context [declarator]]
        simp [same]
      rw [parameterEvents_cons, declareParameters_cons context declarator, sameNext]
      exact follows.trans followsRest

/-- Behind its heading a function is known at file scope, and its parameters in
the scope of its body. -/
inductive Introduces (context : Context) (declarator parameterList : Tree)
    (before after : AnalysisState) : Option Heading → Prop where
  | nameless (declared : declarator.declaredName? = none)
      (follows : Follows fresh [] context before after) :
      Introduces context declarator parameterList before after none
  | opened {name annotated : Tree} {heading : Heading}
      (declared : declarator.declaredName? = some name)
      (sameDeclarator : heading.declarator.bare = declarator.bare)
      (named : heading.declarator.declaredName? = some annotated)
      (sameName : annotated.bare = name.bare)
      (sameParameters : heading.parameters.bare = parameterList.bare)
      (follows : Follows fresh (headingEvents context annotated heading.parameters)
        (context.heading name parameterList) before after) :
      Introduces context declarator parameterList before after (some heading)

theorem openFunction_follows (agrees : Agrees context state)
    (node declarator parameterList : Tree) :
    Ends (openFunction node declarator parameterList) state fun opened after =>
      Introduces fresh context declarator parameterList state after opened := by
  refine .bind ((declaredType_reports _ _ _).ends fun type problems resolved => ?_)
  have typed := Stores.reporting state problems resolved
  cases declared : declarator.declaredName? with
  | none =>
      refine .bind (.modify (.pure (.nameless declared ?_)))
      exact .quiet (typed.trans (.reporting _ [_] (by rfl))) agrees
  | some name =>
      have here : Agrees context (state.reporting problems) := typed.agrees agrees
      refine .bind (.get ?_)
      dsimp only
      generalize form : SymbolRole.function _ (node.kind == .prototype) = role
      refine .bind (.modifyGet ?_)
      dsimp only
      rw [here.stored]
      refine .bind (.bind (.get (.modify ?_)))
      let symbol : Symbol := { type, role, location := name.location }
      have allocated := typed.trans (.allocated (state.reporting problems) symbol)
      have annotated := declaredName?_annotateName type role.roles context.stored declarator
      rw [declared] at annotated
      have variableRole : symbol.isVariable = false := by
        simp [Symbol.isVariable, symbol, ← form, SymbolRole.roles]
      have replaces : symbol.replaces? = none := by simp [Symbol.replaces?, symbol, ← form]
      refine .bind ((declare_follows fresh here .function name symbol rfl rfl rfl variableRole replaces
        (by rfl) (by rfl)).imp ?_)
      intro _ known follows
      refine .bind ((Follows.enter fresh follows.agrees).imp ?_)
      intro _ inside entered
      refine .bind ((checkParameters_follows fresh entered.agrees _).imp ?_)
      rintro parameters after ⟨same, followsParameters⟩
      refine .bind (.modify (.pure (.opened declared (by simp) (by simpa using annotated) (by simp)
        (by cases parameterList; simp_all [Tree.bare_mk]) ?_)))
      have meets := (follows.stored (allocated.trans (.logged _ _))).declared .function
        (name.mapNote fun note =>
          { note.addType type role.roles with symbol := some context.stored }) rfl rfl
      have logged : Follows fresh [] _ _ _ := .quiet (.logged after (after.log ++ [.separator]))
        followsParameters.agrees
      have whole := ((meets.trans entered).trans followsParameters).trans logged
      have sameContext : context.declare .function (name.mapNote fun note =>
          { note.addType type role.roles with symbol := some context.stored }) =
          context.declare .function name := rfl
      simpa [headingEvents, Context.heading, sameContext] using whole

end

end OcLang.Declaration
