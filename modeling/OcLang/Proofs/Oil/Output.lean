import OcLang.Outputs
import OcLang.Proofs.Oil.Variables
import OcLang.Proofs.Scoping.Resolution
import OcLang.Proofs.Tree.Shape

namespace OcLang

open Lexical

/-! ## The program behind the text

A compilation that succeeds gives the text of one program. -/

def Tree.program (root : Tree) : Oil.Program :=
  Oil.generate (analyze root).2 (analyze root).1

theorem hasErrors_of_promoted {diagnostics : Diagnostics}
    (accepted : diagnostics.promoteWarnings.hasErrors = false) : diagnostics.hasErrors = false := by
  cases items : diagnostics.items with
  | nil => simp [Diagnostics.hasErrors, items]
  | cons first rest => simp [Diagnostics.hasErrors, Diagnostics.promoteWarnings, items] at accepted

section

variable {warningsAsErrors : Bool} {root : Tree}

theorem oil_eq {text : String} (generated : (compile warningsAsErrors root).oil = some text) :
    text = root.program.render := by
  cases warningsAsErrors <;> simp only [compile, Bool.false_eq_true, if_true, if_false] at generated
  all_goals
    split at generated
    · simp at generated
    · exact (Option.some.inj generated).symm

/-- The program is generated unless there is an error. -/
theorem oil_of_accepted (accepted : (compile warningsAsErrors root).diagnostics.hasErrors = false) :
    (compile warningsAsErrors root).oil = some root.program.render := by
  have oil : (compile warningsAsErrors root).oil =
      if (compile warningsAsErrors root).diagnostics.hasErrors then none
      else some root.program.render := rfl
  rw [oil, accepted]
  rfl

theorem accepted_of_oil (generated : (compile warningsAsErrors root).oil.isSome = true) :
    (analyze root).2.diagnostics.hasErrors = false := by
  cases warningsAsErrors <;> simp only [compile, Bool.false_eq_true, if_true, if_false] at generated
  all_goals
    split at generated
    · simp at generated
  · rename_i accepted
    simpa using accepted
  · rename_i accepted
    exact hasErrors_of_promoted (by simpa using accepted)

/-- In an accepted tree every name has a meaning and no node is misplaced. -/
theorem events_of_accepted (accepted : (analyze root).2.diagnostics.hasErrors = false) :
    Oil.Resolved (analyze root).2.symbols (events {} (analyze root).1) ∧
      ¬Refused (events {} (analyze root).1) := by
  have follows := (analyze_follows False root False.elim).2
  constructor
  · have unresolved : (analyze root).2.diagnostics.unresolved =
        [] ++ (events {} (analyze root).1).filterMap Event.unresolved? := follows.unresolved
    rw [Diagnostics.unresolved_eq_nil accepted, eq_comm, List.nil_append,
      List.filterMap_eq_nil_iff] at unresolved
    exact fun event member => ⟨follows.holds event member, unresolved event member⟩
  · intro refused
    have errors : (analyze root).2.diagnostics.hasErrors = true := follows.errors (.inr refused)
    rw [accepted] at errors
    contradiction

end

/-- A text that is loaded as a whole program and compiled. -/
theorem exists_compiled {source : String} {holds : Tree → Bool}
    (found : ((Tree.load source).toOption.any fun root => root.kind == .root &&
      (compile false root).oil.isSome && holds root) = true) :
    ∃ root text, Tree.load source = .ok root ∧ root.kind = .root ∧
      (compile false root).oil = some text ∧ holds root = true := by
  obtain ⟨root, loaded, _, _, facts⟩ := Tree.exists_loaded found
  simp only [Bool.and_eq_true, beq_iff_eq] at facts
  rcases Option.isSome_iff_exists.mp facts.1.2 with ⟨text, generated⟩
  exact ⟨root, text, loaded, facts.1.1, generated, facts.2⟩

end OcLang
