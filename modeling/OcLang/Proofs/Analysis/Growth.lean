import OcLang.Proofs.Analysis.Steps

namespace OcLang

/-! # Later items leave earlier ones alone

A step of the analysis stores symbols, logs declarations and reports problems
behind those that there are. Nothing is taken back or changed, whatever is
declared again. What was found out about the first items of a file is therefore
the same whether more items follow or not. -/

structure AnalysisState.LeadsTo (before after : AnalysisState) : Prop where
  symbols : before.symbols.toList <+: after.symbols.toList
  log : before.log <+: after.log
  diagnostics : before.diagnostics.items <+: after.diagnostics.items

namespace AnalysisState.LeadsTo

variable {before middle after : AnalysisState}

theorem refl (state : AnalysisState) : state.LeadsTo state :=
  ⟨List.prefix_rfl, List.prefix_rfl, List.prefix_rfl⟩

theorem trans (first : before.LeadsTo middle) (second : middle.LeadsTo after) :
    before.LeadsTo after :=
  ⟨first.symbols.trans second.symbols, first.log.trans second.log,
    first.diagnostics.trans second.diagnostics⟩

end AnalysisState.LeadsTo

namespace Check

variable {Value Result : Type}

def OnlyAdds (step : Check Value) : Prop :=
  ∀ state : AnalysisState, state.LeadsTo (step.run state).2

namespace OnlyAdds

theorem pure (value : Value) : OnlyAdds (pure value) :=
  .refl

theorem bind {step : Check Value} {next : Value → Check Result} (first : OnlyAdds step)
    (rest : ∀ value, OnlyAdds (next value)) : OnlyAdds (step >>= next) :=
  fun state => (first state).trans (rest _ _)

theorem get {next : AnalysisState → Check Result} (rest : ∀ state, OnlyAdds (next state)) :
    OnlyAdds (MonadState.get >>= next) :=
  fun state => rest state state

theorem modify {change : AnalysisState → AnalysisState}
    (here : ∀ state : AnalysisState, state.LeadsTo (change state)) :
    OnlyAdds (modify change) :=
  here

theorem update {change : AnalysisState → AnalysisState} {next : AnalysisState → Check Result}
    (here : ∀ state : AnalysisState, state.LeadsTo (change state))
    (rest : ∀ state, OnlyAdds (next state)) :
    OnlyAdds (do
      let state ← MonadState.get
      MonadState.set (change state)
      next state) :=
  fun state => (here state).trans (rest state _)

end OnlyAdds

/-! ## The steps -/

theorem report_onlyAdds (problem : Problem) : OnlyAdds (report problem) :=
  .modify fun _ => ⟨List.prefix_rfl, List.prefix_rfl, List.prefix_append ..⟩

theorem record_onlyAdds (entry : LogEntry) : OnlyAdds (record entry) :=
  .modify fun _ => ⟨List.prefix_rfl, List.prefix_append .., List.prefix_rfl⟩

theorem recordSymbol_onlyAdds (name : String) (id : Nat) : OnlyAdds (recordSymbol name id) :=
  .get fun _ => record_onlyAdds _

theorem allocate_onlyAdds (symbol : Symbol) : OnlyAdds (allocate symbol) := by
  intro state
  refine ⟨?_, List.prefix_rfl, List.prefix_rfl⟩
  rw [show ((allocate symbol).run state).2.symbols = state.symbols.push symbol from rfl,
    Array.toList_push]
  exact List.prefix_append ..

theorem enter_onlyAdds : OnlyAdds enter :=
  .modify fun _ => ⟨List.prefix_rfl, List.prefix_rfl, List.prefix_rfl⟩

theorem leave_onlyAdds : OnlyAdds leave := by
  refine .modify fun state => ?_
  split <;> exact ⟨List.prefix_rfl, List.prefix_rfl, List.prefix_rfl⟩

theorem declare_onlyAdds (target : DeclarationTarget) (name : String) (id : Nat) :
    OnlyAdds (declare target name id) := by
  refine .update (fun _ => ⟨List.prefix_rfl, List.prefix_rfl, List.prefix_rfl⟩) fun state => ?_
  split
  · exact .pure _
  · dsimp only
    split
    · exact .pure _
    · exact report_onlyAdds _

theorem OnlyReports.onlyAdds {step : Check Value} (reports : OnlyReports step) :
    OnlyAdds step := by
  intro state
  obtain ⟨problems, after⟩ := reports state
  rw [after]
  refine ⟨List.prefix_rfl, List.prefix_rfl, ?_⟩
  rw [AnalysisState.items_reporting]
  exact List.prefix_append ..

end Check

open Check

/-! ## Declarations and statements -/

theorem Declaration.registerStruct_onlyAdds (name : String) (place : Location) (id : Nat) :
    OnlyAdds (registerStruct name place id) := by
  have logged : OnlyAdds (do record (.struct name id); record .separator) :=
    .bind (record_onlyAdds _) fun _ => record_onlyAdds _
  refine .update (fun _ => ⟨List.prefix_rfl, List.prefix_rfl, List.prefix_rfl⟩) fun state => ?_
  split
  · exact .bind (report_onlyAdds _) fun _ => logged
  · exact logged

theorem isStorageLaw_onlyAdds : IsStorageLaw fun _ step => OnlyAdds step where
  reports := OnlyReports.onlyAdds
  bind := OnlyAdds.bind
  get := OnlyAdds.get
  allocate := allocate_onlyAdds
  declare := declare_onlyAdds
  recordSymbol := recordSymbol_onlyAdds
  register := Declaration.registerStruct_onlyAdds
  enter := enter_onlyAdds
  leave := leave_onlyAdds
  separate := record_onlyAdds .separator

/-! ## Items in a row -/

section

variable (scope : Option Nat) (result : Option ValueType) (trees more : List Tree)

theorem Numbering.statements_append :
    statements scope (trees ++ more) = (do
      let trees ← statements scope trees
      let more ← statements scope more
      return trees ++ more) := by
  induction trees with
  | nil => rfl
  | cons tree rest induction =>
      funext opened
      simp only [List.cons_append, statements, induction]
      rfl

theorem Statement.checkAll_append :
    checkAll result (trees ++ more) = (do
      let trees ← checkAll result trees
      let more ← checkAll result more
      return trees ++ more) := by
  induction trees with
  | nil => rfl
  | cons tree rest induction =>
      funext state
      simp only [List.cons_append, checkAll, induction]
      rfl

theorem Numbering.length_statements (opened : Nat) :
    ((statements scope trees).run opened).1.length = trees.length := by
  induction trees generalizing opened with
  | nil => rfl
  | cons tree rest induction =>
      simp only [statements, run_bind, run_pure, List.length_cons, induction]

theorem Statement.length_checkAll (state : AnalysisState) :
    ((checkAll result trees).run state).1.length = trees.length := by
  induction trees generalizing state with
  | nil => rfl
  | cons tree rest induction =>
      simp only [checkAll, run_bind, run_pure, List.length_cons, induction]

end

structure Begins (count : Nat) (first second : Tree × Analysis) : Prop where
  items : second.1.children.take count = first.1.children
  symbols : first.2.symbols.toList <+: second.2.symbols.toList
  unchanged : ∀ id < first.2.symbols.size, second.2.symbol id = first.2.symbol id
  log : first.2.log <+: second.2.log
  diagnostics : first.2.diagnostics.items <+: second.2.diagnostics.items

theorem Analysis.symbol_of_prefix {first second : Analysis}
    (grown : first.symbols.toList <+: second.symbols.toList) {id : Nat}
    (known : id < first.symbols.size) : second.symbol id = first.symbol id := by
  obtain ⟨added, whole⟩ := grown
  simp only [Analysis.symbol, ← Array.getElem?_toList, ← whole]
  rw [List.getElem?_append_left (by simpa using known)]

/-- Items that follow change nothing that was found out about the items before. -/
theorem analyze_begins (location : Location) (text : String) (note : Note)
    (items later : List Tree) :
    Begins items.length (analyze ⟨.root, location, text, note, items⟩)
      (analyze ⟨.root, location, text, note, items ++ later⟩) := by
  -- Both walks run over the first items before they go on to the others.
  let numbered := (Numbering.statements none items).run 0
  let rest := ((Numbering.statements none later).run numbered.2).1
  let checked := (Statement.checkAll none numbered.1).run {}
  let whole := (Statement.checkAll none rest).run checked.2
  have numberedTree : Numbering.number ⟨.root, location, text, note, items ++ later⟩ =
      ⟨.root, location, text, note, numbered.1 ++ rest⟩ := by
    simp only [Numbering.number, Numbering.statement, Numbering.statements_append]
    rfl
  have alone : analyze ⟨.root, location, text, note, items⟩ =
      (⟨.root, location, text, note, checked.1⟩, Analysis.ofState checked.2) := by
    simp only [analyze, Numbering.number, Numbering.statement]
    rfl
  have together : analyze ⟨.root, location, text, note, items ++ later⟩ =
      (⟨.root, location, text, note, checked.1 ++ whole.1⟩, Analysis.ofState whole.2) := by
    simp only [analyze, numberedTree, Statement.check, Statement.checkAll_append]
    rfl
  have length : checked.1.length = items.length :=
    (Statement.length_checkAll _ _ _).trans (Numbering.length_statements _ _ _)
  have leads : checked.2.LeadsTo whole.2 :=
    isStorageLaw_onlyAdds.isStepLaw.checkAll rest none checked.2
  rw [alone, together]
  exact {
    items := List.take_left' length
    symbols := leads.symbols
    unchanged := fun _ known => Analysis.symbol_of_prefix leads.symbols known
    log := leads.log
    diagnostics := leads.diagnostics }

end OcLang
