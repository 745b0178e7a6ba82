import OcLang.Proofs.Analysis.Growth
import OcLang.Proofs.Typing.Knowledge

namespace OcLang

open Check

/-! # Laws that the types of symbols obey

A symbol gets the type that its declarator describes, and the symbol of a struct
gets the type of the struct. What may be said of such types when they are read
may be said of all symbols, unless it is taken back. -/

/-! ## Types that are declared -/

def ValueType.marked (type : ValueType) (array : Bool) : ValueType :=
  if array then { type with flags := { type.flags with array := true } } else type

/-- What a declarator describes: a base type, or nothing if it has been refused. -/
inductive Describes (declarator : Tree) (problems : List Problem) : ValueType → Prop where
  | base (base : BaseType) (void : base = .void ↔ declarator.kind = .type .void) :
      Describes declarator problems
        ((OcType.plain base).valueType.marked declarator.hasArrayMark)
  | refused (refused : ¬NoError problems) :
      Describes declarator problems (({} : ValueType).marked declarator.hasArrayMark)

theorem declaredType_describes (enclosing : Option String) (declarator : Tree)
    (state : AnalysisState) :
    Reports (declaredType enclosing declarator) state fun declared problems =>
      Describes declarator problems declared := by
  have marking (base : ValueType) {state : AnalysisState} {problems : List Problem}
      (describes : Describes declarator problems (base.marked declarator.hasArrayMark)) :
      Reports (if declarator.hasArrayMark = true then
          pure { base with flags := { base.flags with array := true } }
        else pure base) state fun declared more =>
          Describes declarator (problems ++ more) declared := by
    rw [ValueType.marked] at describes
    split at describes <;> rename_i mark
    · rw [if_pos mark]
      exact .pure (by simpa using describes)
    · rw [if_neg mark]
      exact .pure (by simpa using describes)
  unfold declaredType
  dsimp only
  split
  case h_1 kind => exact .bind (.pure (marking _ (.base .void (by simp [kind]))))
  case h_2 kind | h_3 kind | h_4 kind =>
    exact .bind (.pure (marking _ (.base .int (by simp [kind]))))
  case h_5 kind => exact .bind (.pure (marking _ (.base .string (by simp [kind]))))
  case h_6 kind =>
    have other : BaseType.struct declarator.text = .void ↔ declarator.kind = .type .void := by
      simp [kind]
    apply Reports.bind
    apply Reports.get
    split
    · exact .bind (.pure (marking _ (.base _ other)))
    · exact .bind (.report (.bind (.pure (marking _ (.base _ other)))))
  case h_7 =>
    have refused : ¬NoError [.malformed declarator.location declarator.kind.tag] := by
      simp [NoError, Problem.severity]
    exact .bind (.report (.bind (.pure (marking _ (.refused refused)))))

/-! ## Laws -/

/-- Something that may be said of a type from some state on. It may be said of
what declarators describe and of structs. -/
structure TypeLaw where
  holds : AnalysisState → ValueType → Prop
  later : ∀ {before after : AnalysisState} {type : ValueType}, Extends before after →
    holds before type → holds after type
  declared : ∀ {declarator : Tree} {problems : List Problem} {type : ValueType}
    (state : AnalysisState), Describes declarator problems type →
      holds (state.reporting problems) type
  struct : ∀ (state : AnalysisState) (name : String),
    holds state { flags := { struct := true }, structName := some name }

def AnalysisState.Obeys (state : AnalysisState) (law : TypeLaw) : Prop :=
  ∀ symbol ∈ state.symbols, law.holds state symbol.type

/-- The law is obeyed behind some steps if it was before them. -/
structure Obeying (law : TypeLaw) (before after : AnalysisState) : Prop where
  extends_ : Extends before after
  obeys : before.Obeys law → after.Obeys law

namespace Obeying

variable {law : TypeLaw} {before middle after : AnalysisState}

theorem trans (first : Obeying law before middle) (second : Obeying law middle after) :
    Obeying law before after :=
  ⟨first.extends_.trans second.extends_, fun obeys => second.obeys (first.obeys obeys)⟩

theorem of_symbols (extends_ : Extends before after) (same : after.symbols = before.symbols) :
    Obeying law before after where
  extends_ := extends_
  obeys obeys symbol member := by
    rw [same] at member
    exact law.later extends_ (obeys symbol member)

theorem refl (state : AnalysisState) : Obeying law state state :=
  .of_symbols (.refl state) rfl

theorem reporting (state : AnalysisState) (problems : List Problem) :
    Obeying law state (state.reporting problems) :=
  .of_symbols (.reporting state problems) rfl

theorem allocated (state : AnalysisState) {symbol : Symbol} (holds : law.holds state symbol.type) :
    Obeying law state { state with symbols := state.symbols.push symbol } where
  extends_ := .allocated state symbol
  obeys obeys other member := by
    rcases Array.mem_push.mp member with earlier | rfl
    · exact law.later (.allocated state symbol) (obeys other earlier)
    · exact law.later (.allocated state other) holds

end Obeying

/-- Wherever the step is run, the law is obeyed behind it if it was before. -/
def TypeLaw.KeptBy {Value : Type} (law : TypeLaw) (step : Check Value) : Prop :=
  ∀ state : AnalysisState, Ends step state fun _ after => Obeying law state after

namespace TypeLaw.KeptBy

variable {law : TypeLaw} {Value Result : Type}

theorem pure (value : Value) : law.KeptBy (pure value) :=
  .refl

theorem bind {step : Check Value} {next : Value → Check Result} (first : law.KeptBy step)
    (rest : ∀ value, law.KeptBy (next value)) : law.KeptBy (step >>= next) :=
  fun state => (first state).trans (rest _ _)

theorem get {next : AnalysisState → Check Result} (rest : ∀ state, law.KeptBy (next state)) :
    law.KeptBy (MonadState.get >>= next) :=
  fun state => rest state state

theorem modify {change : AnalysisState → AnalysisState}
    (symbols : ∀ state, (change state).symbols = state.symbols)
    (diagnostics : ∀ state, (change state).diagnostics = state.diagnostics) :
    law.KeptBy (modify change) := by
  intro state
  apply Ends.modify
  apply Obeying.of_symbols _ (symbols state)
  exact ⟨(symbols state).symm ▸ .refl _, (diagnostics state).symm ▸ List.prefix_rfl⟩

theorem set {change : AnalysisState → AnalysisState} {next : AnalysisState → Check Result}
    (symbols : ∀ state, (change state).symbols = state.symbols)
    (diagnostics : ∀ state, (change state).diagnostics = state.diagnostics)
    (rest : ∀ state, law.KeptBy (next state)) :
    law.KeptBy (do
      let state ← MonadState.get
      MonadState.set (change state)
      next state) :=
  fun state => (modify symbols diagnostics state).trans (rest state _)

theorem of_reports {step : Check Value} {holds : AnalysisState → Value → List Problem → Prop}
    (reports : ∀ state, Reports step state (holds state)) : law.KeptBy step :=
  fun state => (reports state).ends fun _ problems _ => .reporting state problems

theorem of_onlyReports {step : Check Value} (only : OnlyReports step) : law.KeptBy step := by
  intro state
  have reports : Reports step state fun _ _ => True := only.reports trivial
  exact reports.ends fun _ problems _ => .reporting state problems

theorem declaring {enclosing : Option String} {declarator : Tree}
    {next : ValueType → Check Result}
    (rest : ∀ type state, law.holds state type →
      Ends (next type) state fun _ after => Obeying law state after) :
    law.KeptBy (declaredType enclosing declarator >>= next) := by
  intro state
  apply Ends.bind
  apply (declaredType_describes enclosing declarator state).ends
  intro type problems describes
  apply (rest type _ (law.declared state describes)).imp
  intro _ after obeying
  exact (Obeying.reporting state problems).trans obeying

theorem storing {symbol : Symbol} {next : Nat → Check Result} {state : AnalysisState}
    (holds : law.holds state symbol.type) (rest : ∀ id, law.KeptBy (next id)) :
    Ends (allocate symbol >>= next) state fun _ after => Obeying law state after := by
  apply Ends.bind
  apply Ends.modifyGet
  apply (rest _ _).imp
  intro _ after obeying
  exact (Obeying.allocated state holds).trans obeying

end TypeLaw.KeptBy

/-! ## The steps of the analysis -/

namespace TypeLaw

variable (law : TypeLaw)

theorem report_kept (problem : Problem) : law.KeptBy (report problem) :=
  fun state => .modify (.reporting state [problem])

theorem refused_kept (node : Tree) (problem : Problem) :
    law.KeptBy (do report problem; return node) :=
  .bind (law.report_kept problem) fun _ => .pure node

theorem record_kept (entry : LogEntry) : law.KeptBy (record entry) :=
  .modify (fun _ => rfl) fun _ => rfl

theorem symbol_kept (id : Nat) : law.KeptBy (symbol id) :=
  .get fun _ => .pure _

theorem enter_kept : law.KeptBy enter :=
  .modify (fun _ => rfl) fun _ => rfl

theorem leave_kept : law.KeptBy leave := by
  apply KeptBy.modify <;> intro state <;> split <;> rfl

theorem declare_kept (target : DeclarationTarget) (name : String) (id : Nat) :
    law.KeptBy (declare target name id) := by
  refine .set (fun _ => rfl) (fun _ => rfl) fun state => ?_
  split
  · exact .pure _
  · dsimp only
    split
    · exact .pure _
    · exact law.report_kept _

theorem recordSymbol_kept (name : String) (id : Nat) : law.KeptBy (recordSymbol name id) :=
  .get fun _ => law.record_kept _

/-! ### Expressions -/

theorem call_kept (node callee : Tree) (arguments : List Tree) :
    law.KeptBy (Expression.call node callee arguments) :=
  .of_onlyReports (Expression.call_onlyReports node callee arguments)

theorem expressions_kept (trees : List Tree) : law.KeptBy (Expression.checkAll trees) :=
  .of_onlyReports (Expression.checkAll_onlyReports trees)

theorem expression_kept (tree : Tree) : law.KeptBy (Expression.check tree) :=
  .of_onlyReports (Expression.check_onlyReports tree)

/-! ### Declarations -/

theorem checkField_kept (structName : String) (table : Table) (declarator : Tree) :
    law.KeptBy (Declaration.checkField structName table declarator) := by
  apply KeptBy.declaring
  intro type state holds
  split
  · exact KeptBy.bind (law.report_kept _) (fun _ => .pure _) state
  · apply KeptBy.storing holds
    intro id
    dsimp only
    split
    · exact .bind (law.symbol_kept _) fun _ => .bind (law.report_kept _) fun _ => .pure _
    · exact .bind (.pure _) fun _ => .pure _

theorem checkFields_kept (structName : String) (table : Table) (declarators : List Tree) :
    law.KeptBy (Declaration.checkFields structName table declarators) := by
  induction declarators generalizing table with
  | nil => exact .pure _
  | cons declarator rest induction =>
      exact .bind (law.checkField_kept _ _ _) fun _ => .bind (induction _) fun _ => .pure _

theorem registerStruct_kept (name : String) (place : Location) (id : Nat) :
    law.KeptBy (Declaration.registerStruct name place id) := by
  have logged : law.KeptBy (do record (.struct name id); record .separator) :=
    .bind (law.record_kept _) fun _ => law.record_kept _
  refine .set (fun _ => rfl) (fun _ => rfl) fun state => ?_
  split
  · exact .bind (law.report_kept _) fun _ => logged
  · exact logged

theorem checkStruct_kept (node : Tree) : law.KeptBy (Declaration.checkStruct node) := by
  unfold Declaration.checkStruct
  split
  · split
    · exact law.refused_kept _ _
    · apply KeptBy.bind (law.checkFields_kept _ _ _)
      intro fields state
      apply KeptBy.storing (law.struct state _)
      intro id
      exact .bind (law.registerStruct_kept _ _ _) fun _ => .pure _
  · exact law.refused_kept _ _

theorem checkVariable_kept (node : Tree) : law.KeptBy (Declaration.checkVariable node) := by
  have declared (name : String) (id : Nat) (node : Tree) : law.KeptBy (do
      declare .innermost name id
      recordSymbol name id
      return node) :=
    .bind (law.declare_kept _ _ _) fun _ => .bind (law.recordSymbol_kept _ _) fun _ => .pure _
  unfold Declaration.checkVariable
  split
  · exact law.refused_kept _ _
  · apply KeptBy.declaring
    intro type state holds
    split
    · exact law.refused_kept _ _ state
    · apply Ends.bind
      apply Ends.bind
      apply Ends.get
      apply Ends.pure
      apply Ends.bind
      apply Ends.get
      apply KeptBy.storing holds
      intro id
      dsimp only
      split
      · exact .bind (.pure _) fun _ => declared _ _ _
      · exact .bind (law.expression_kept _) fun _ =>
          .bind (.of_reports (requireCompatible_reports _ _ _)) fun _ =>
          .bind (.pure _) fun _ => declared _ _ _

theorem checkParameter_kept (declarator : Tree) :
    law.KeptBy (Declaration.checkParameter declarator) := by
  apply KeptBy.declaring
  intro type state holds
  split
  · exact law.refused_kept _ _ state
  · apply Ends.bind
    apply Ends.bind
    apply Ends.get
    apply Ends.pure
    apply Ends.bind
    apply Ends.get
    apply KeptBy.storing holds
    intro id
    exact .bind (law.declare_kept _ _ _) fun _ => .bind (law.recordSymbol_kept _ _) fun _ =>
      .pure _

theorem checkParameters_kept (declarators : List Tree) :
    law.KeptBy (Declaration.checkParameters declarators) := by
  induction declarators with
  | nil => exact .pure _
  | cons declarator rest induction =>
      exact .bind (law.checkParameter_kept _) fun _ => .bind induction fun _ => .pure _

theorem openFunction_kept (node declarator parameters : Tree) :
    law.KeptBy (Declaration.openFunction node declarator parameters) := by
  apply KeptBy.declaring
  intro type state holds
  split
  · exact KeptBy.bind (law.report_kept _) (fun _ => .pure _) state
  · apply Ends.bind
    apply Ends.get
    apply KeptBy.storing holds
    intro id
    exact .bind (law.recordSymbol_kept _ _) fun _ => .bind (law.declare_kept _ _ _) fun _ =>
      .bind law.enter_kept fun _ => .bind (law.checkParameters_kept _) fun _ =>
      .bind (law.record_kept _) fun _ => .pure _

/-! ### Statements -/

theorem condition_kept (test : Tree) : law.KeptBy (Statement.condition test) :=
  .of_onlyReports (Statement.condition_onlyReports test)

theorem isStepLaw : IsStepLaw fun _ step => law.KeptBy step where
  reports := .of_onlyReports
  bind := .bind
  struct := law.checkStruct_kept
  «variable» := law.checkVariable_kept
  opened := law.openFunction_kept
  enter := law.enter_kept
  leave := law.leave_kept
  separate := law.record_kept .separator

end TypeLaw

end OcLang
