import OcLang.Oil.Lower
import OcLang.Proofs.Scoping.Agreement

namespace OcLang.Oil

open Lexical

/-! ## Names of variables

A variable is named after the scope of its declaration, where it is declared and
where it is used. -/

section

variable {analysis : Analysis} {fresh : Prop} {context : Context}

theorem variableName_of_recorded {node : Tree} {declaration : Declaration}
    (refers : node.note.symbol = some declaration.symbol)
    (recorded : declaration.RecordedIn analysis.symbols) :
    variableName analysis node = .declared declaration.scope node.text := by
  obtain ⟨symbol, stored, _, block, _⟩ := recorded
  simp [variableName, refers, Analysis.symbol, stored, block]

theorem variableName_use {node : Tree} {meant : Declaration}
    (holds : (Event.use context node).Holds fresh analysis.symbols)
    (resolved : context.resolve? node.text = some meant) :
    variableName analysis node = .declared meant.scope node.text := by
  simp only [Event.Holds, resolved] at holds
  exact variableName_of_recorded holds.1 holds.2.2

theorem variableName_declaration {role : Role} {name : Tree}
    (holds : (Event.declaration context role name).Holds fresh analysis.symbols) :
    variableName analysis name = .declared (context.scopeOf role) name.text :=
  variableName_of_recorded holds.1 holds.2

theorem replacesVariable_declaration {role : Role} {name : Tree}
    (holds : (Event.declaration context role name).Holds fresh analysis.symbols) :
    replacesVariable analysis name = (context.replaced? role name.text).isSome := by
  obtain ⟨refers, symbol, stored, _, _, _, replaces⟩ := holds
  have found : analysis.symbols[context.stored]? = some symbol := stored
  simp [replacesVariable, refers, Analysis.symbol, found, replaces, Context.declaration]

end

def Resolved (symbols : Array Symbol) (events : List Event) : Prop :=
  ∀ event ∈ events, event.Holds False symbols ∧ event.unresolved? = none

theorem Resolved.append {symbols : Array Symbol} {events later : List Event} :
    Resolved symbols (events ++ later) ↔ Resolved symbols events ∧ Resolved symbols later :=
  List.forall_mem_append

end OcLang.Oil
