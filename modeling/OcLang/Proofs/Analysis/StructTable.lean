import OcLang.Proofs.Analysis.Growth
import OcLang.Proofs.Scoping.Discipline

namespace OcLang

open Check

/-! # Which struct a name means

A struct is logged where it is entered into the table of structs, and nowhere else. So the log
tells what the table holds: the struct of each name that was logged last. -/

def LogEntry.struct? : LogEntry → Option (String × Nat)
  | .struct name id => some (name, id)
  | .symbol _ _ _ | .separator => none

def loggedStructs (log : List LogEntry) : List (String × Nat) :=
  log.filterMap LogEntry.struct?

def AnalysisState.IsFiled (state : AnalysisState) : Prop :=
  state.structs = ({} : Table).insertAll (loggedStructs state.log)

namespace Check

variable {Value Result : Type}

def FilesStructs (step : Check Value) : Prop :=
  ∀ state : AnalysisState, state.IsFiled → Ends step state fun _ after => after.IsFiled

namespace FilesStructs

theorem pure (value : Value) : FilesStructs (pure value) :=
  fun _ filed => filed

theorem bind {step : Check Value} {next : Value → Check Result} (first : FilesStructs step)
    (rest : ∀ value, FilesStructs (next value)) : FilesStructs (step >>= next) :=
  fun state filed => rest _ _ (first state filed)

theorem get {next : AnalysisState → Check Result} (rest : ∀ state, FilesStructs (next state)) :
    FilesStructs (MonadState.get >>= next) :=
  fun state => rest state state

theorem modify {change : AnalysisState → AnalysisState}
    (structs : ∀ state, (change state).structs = state.structs)
    (log : ∀ state, loggedStructs (change state).log = loggedStructs state.log) :
    FilesStructs (modify change) := by
  intro state filed
  show (change state).IsFiled
  rw [AnalysisState.IsFiled, structs, log, filed]

theorem of_onlyReports {step : Check Value} (reports : OnlyReports step) : FilesStructs step := by
  intro state filed
  obtain ⟨problems, after⟩ := reports state
  rw [Ends, after]
  exact filed

end FilesStructs

/-! ## The steps -/

theorem allocate_files (symbol : Symbol) : FilesStructs (allocate symbol) :=
  fun _ filed => filed

theorem record_files {entry : LogEntry} (other : entry.struct? = none) :
    FilesStructs (record entry) :=
  .modify (fun _ => rfl) fun state => by simp [loggedStructs, other]

theorem recordSymbol_files (name : String) (id : Nat) : FilesStructs (recordSymbol name id) :=
  .get fun _ => record_files rfl

theorem enter_files : FilesStructs enter :=
  .modify (fun _ => rfl) fun _ => rfl

theorem leave_files : FilesStructs leave := by
  apply FilesStructs.modify <;> intro state <;> split <;> rfl

theorem declare_files (target : DeclarationTarget) (name : String) (id : Nat) :
    FilesStructs (declare target name id) := by
  intro state filed
  refine .bind (.get (.bind (.set ?_)))
  split
  · exact filed
  · dsimp only
    split <;> exact filed

end Check

/-! ## Declarations and statements -/

theorem Declaration.registerStruct_files (name : String) (place : Location) (id : Nat) :
    FilesStructs (registerStruct name place id) := by
  intro state filed
  have logged {middle : AnalysisState} (structs : middle.structs = state.structs.insert name id)
      (log : middle.log = state.log) :
      Ends (do record (.struct name id); record .separator) middle fun _ after =>
        after.IsFiled := by
    refine .bind (.modify (.modify ?_))
    simp only [AnalysisState.IsFiled, loggedStructs] at filed ⊢
    rw [structs, log, filed, List.append_assoc, List.filterMap_append, Table.insertAll_append]
    rfl
  refine .bind (.get (.bind (.set ?_)))
  cases state.structs.find? name with
  | none => exact logged rfl rfl
  | some previous => exact .bind (.modify (logged rfl rfl))

theorem isStorageLaw_files : IsStorageLaw fun _ step => FilesStructs step where
  reports := .of_onlyReports
  bind := .bind
  get := .get
  allocate := allocate_files
  declare := declare_files
  recordSymbol := recordSymbol_files
  register := Declaration.registerStruct_files
  enter := enter_files
  leave := leave_files
  separate := record_files rfl

theorem find?_structs_analyze (tree : Tree) (name : String) :
    (analyze tree).2.structs.find? name =
      Table.latest? (loggedStructs (analyze tree).2.log) name := by
  have filed : (analyze tree).2.structs =
      ({} : Table).insertAll (loggedStructs (analyze tree).2.log) :=
    isStorageLaw_files.isStepLaw.check (Numbering.number tree) none {} rfl
  rw [filed, Table.find?_insertAll_empty]

end OcLang
