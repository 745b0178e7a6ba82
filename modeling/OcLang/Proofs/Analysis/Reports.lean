import OcLang.Analysis.Expressions
import OcLang.Proofs.Stepwise

namespace OcLang

/-! ## Steps that only report

Most steps of the analysis change nothing but the list of problems. Such a step
is described by its result and the problems that it adds. -/

namespace AnalysisState

def reporting (state : AnalysisState) (problems : List Problem) : AnalysisState :=
  { state with diagnostics := problems.foldl Diagnostics.push state.diagnostics }

@[simp] theorem reporting_nil (state : AnalysisState) : state.reporting [] = state := rfl

@[simp] theorem reporting_reporting (state : AnalysisState) (problems more : List Problem) :
    (state.reporting problems).reporting more = state.reporting (problems ++ more) := by
  simp [reporting]

section

variable (state : AnalysisState) (problems : List Problem)

@[simp] theorem symbols_reporting : (state.reporting problems).symbols = state.symbols := rfl

@[simp] theorem scopes_reporting : (state.reporting problems).scopes = state.scopes := rfl

@[simp] theorem structs_reporting : (state.reporting problems).structs = state.structs := rfl

@[simp] theorem symbol_reporting (id : Nat) :
    (state.reporting problems).symbol id = state.symbol id := rfl

theorem items_reporting :
    (state.reporting problems).diagnostics.items =
      state.diagnostics.items ++ problems.map fun problem => ⟨problem.severity, problem⟩ := by
  simp only [reporting]
  generalize state.diagnostics = diagnostics
  induction problems generalizing diagnostics with
  | nil => simp
  | cons problem rest induction => simp [induction, Diagnostics.push]

end

end AnalysisState

namespace Check

variable {Value Result : Type}

def Reports (step : Check Value) (state : AnalysisState)
    (holds : Value → List Problem → Prop) : Prop :=
  ∃ problems, (step.run state).2 = state.reporting problems ∧ holds (step.run state).1 problems

namespace Reports

variable {state : AnalysisState} {holds : Value → List Problem → Prop}

theorem pure {value : Value} (here : holds value []) : Reports (pure value) state holds :=
  ⟨[], rfl, here⟩

theorem bind {step : Check Value} {next : Value → Check Result}
    {holds : Result → List Problem → Prop}
    (first : Reports step state fun value problems =>
      Reports (next value) (state.reporting problems) fun result more =>
        holds result (problems ++ more)) :
    Reports (step >>= next) state holds := by
  obtain ⟨problems, reported, more, reportedMore, here⟩ := first
  refine ⟨problems ++ more, ?_, ?_⟩
  · rw [run_bind, reported, reportedMore, AnalysisState.reporting_reporting]
  · rw [run_bind, reported]
    exact here

theorem imp {step : Check Value} {weaker : Value → List Problem → Prop}
    (strong : Reports step state holds)
    (implies : ∀ value problems, holds value problems → weaker value problems) :
    Reports step state weaker := by
  obtain ⟨problems, reported, here⟩ := strong
  exact ⟨problems, reported, implies _ _ here⟩

theorem get {holds : AnalysisState → List Problem → Prop} (here : holds state []) :
    Reports get state holds :=
  ⟨[], rfl, here⟩

theorem symbol {holds : Symbol → List Problem → Prop} {id : Nat}
    (here : holds (state.symbol id) []) : Reports (Check.symbol id) state holds :=
  ⟨[], rfl, here⟩

theorem report {holds : Unit → List Problem → Prop} {problem : Problem}
    (here : holds () [problem]) : Reports (Check.report problem) state holds :=
  ⟨[problem], rfl, here⟩

theorem ends {step : Check Value} {weaker : Value → AnalysisState → Prop}
    (reports : Reports step state holds)
    (implies : ∀ value problems, holds value problems → weaker value (state.reporting problems)) :
    Ends step state weaker := by
  obtain ⟨problems, reported, here⟩ := reports
  have result := implies _ _ here
  rwa [← reported] at result

end Reports

end Check

/-! ## Unresolved names -/

def Problem.unresolved? : Problem → Option (Location × String)
  | .unresolvedName place name _ => some (place, name)
  | _ => none

def Diagnostics.unresolved (diagnostics : Diagnostics) : List (Location × String) :=
  diagnostics.errors.filterMap fun diagnostic => diagnostic.problem.unresolved?

theorem Diagnostics.unresolved_eq_nil {diagnostics : Diagnostics}
    (accepted : diagnostics.hasErrors = false) : diagnostics.unresolved = [] := by
  have none : diagnostics.errors = [] := by
    simpa [errors, hasErrors, List.filter_eq_nil_iff] using accepted
  rw [unresolved, none]
  rfl

theorem Problem.severity_of_unresolved (problem : Problem)
    (unresolved : problem.unresolved?.isSome = true) : problem.severity = .error := by
  cases problem <;> first | rfl | simp [Problem.unresolved?] at unresolved

theorem Diagnostics.unresolved_reporting (state : AnalysisState) (problems : List Problem) :
    (state.reporting problems).diagnostics.unresolved =
      state.diagnostics.unresolved ++ problems.filterMap Problem.unresolved? := by
  have reported : ((problems.map fun problem => (⟨problem.severity, problem⟩ : Diagnostic)).filter
      (·.severity == .error)).filterMap (fun diagnostic => diagnostic.problem.unresolved?) =
        problems.filterMap Problem.unresolved? := by
    induction problems with
    | nil => rfl
    | cons problem rest induction =>
        cases form : problem.unresolved? with
        | none =>
            cases severity : problem.severity <;> simp_all
        | some place =>
            have severity := problem.severity_of_unresolved (by simp [form])
            simp_all
  rw [unresolved, errors, AnalysisState.items_reporting, List.filter_append,
    List.filterMap_append, reported]
  rfl

theorem Diagnostics.hasErrors_reporting (state : AnalysisState) (problems : List Problem) :
    (state.reporting problems).diagnostics.hasErrors =
      (state.diagnostics.hasErrors || problems.any (·.severity == .error)) := by
  simp [hasErrors, AnalysisState.items_reporting, List.any_map, Function.comp_def]

namespace Check

def AllResolved (problems : List Problem) : Prop :=
  problems.filterMap Problem.unresolved? = []

theorem AllResolved.append {problems more : List Problem} (first : AllResolved problems)
    (second : AllResolved more) : AllResolved (problems ++ more) := by
  rw [AllResolved, List.filterMap_append, first, second]
  rfl

theorem requireInteger_reports (context : String) (value : Tree) (state : AnalysisState) :
    Reports (requireInteger context value) state fun _ problems => AllResolved problems := by
  unfold requireInteger
  split
  · exact .report rfl
  · exact .pure rfl

theorem requireCompatible_reports (context : String) (expected : ValueType) (value : Tree)
    (state : AnalysisState) :
    Reports (requireCompatible context expected value) state fun _ problems =>
      AllResolved problems := by
  unfold requireCompatible
  split
  · exact .report rfl
  · exact .pure rfl

theorem declaredType_reports (enclosing : Option String) (declarator : Tree)
    (state : AnalysisState) :
    Reports (declaredType enclosing declarator) state fun _ problems => AllResolved problems := by
  have marked : ∀ (base : ValueType) (state : AnalysisState) (problems : List Problem),
      AllResolved problems →
      Reports (if declarator.hasArrayMark = true then
          pure { base with flags := { base.flags with array := true } }
        else pure base) state fun _ more => AllResolved (problems ++ more) := by
    intro base state problems resolved
    split <;> exact .pure (resolved.append rfl)
  unfold declaredType
  dsimp only
  split
  case h_6 =>
    refine .bind (.get ?_)
    split
    · exact .bind (.pure (marked _ _ [] rfl))
    · exact .bind (.report (.bind (.pure (marked _ _ [_] rfl))))
  case h_7 => exact .bind (.report (.bind (.pure (marked _ _ [_] rfl))))
  all_goals exact .bind (.pure (marked _ _ [] rfl))

end Check

end OcLang
