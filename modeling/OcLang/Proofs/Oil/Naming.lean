import OcLang.Proofs.Analysis.Lookups.Statements
import OcLang.Proofs.Oil.Spelling
import OcLang.Proofs.Oil.Variables
import OcLang.Proofs.Scoping.Order

namespace OcLang

open Lexical

/-! # Names of variables in the whole program

Within the program two variables are told apart by their names alone, because
the number of a scope is part of the name. -/

namespace Lexical

/-- What is declared at some place was declared by an event before. -/
theorem Traces.exists_declaration {declared later : List Declaration} {events : List Event}
    (traces : Traces declared events later) {event : Event} (member : event ∈ events)
    {context : Context} (here : context ∈ event.context?) {declaration : Declaration}
    (known : declaration ∈ context.declared) :
    declaration ∈ declared ∨
      ∃ other ∈ events, other.declaration? = some declaration := by
  induction events generalizing declared with
  | nil => simp at member
  | cons first rest induction =>
      rcases List.mem_cons.mp member with rfl | behind
      · rw [traces.1 context here] at known
        exact .inl known
      · rcases induction traces.2 behind with before | ⟨other, otherMember, declares⟩
        · rcases List.mem_append.mp before with now | earlier
          · exact .inr ⟨first, List.mem_cons_self, by simpa using now⟩
          · exact .inl earlier
        · exact .inr ⟨other, List.mem_cons_of_mem _ otherMember, declares⟩

theorem name_of_resolve? {context : Context} {name : String} {meant : Declaration}
    (resolved : context.resolve? name = some meant) : meant.name = name := by
  rcases List.exists_of_findSome?_eq_some resolved with ⟨scope, _, latest⟩
  have found := List.find?_some latest
  simp only [decide_eq_true_eq] at found
  exact found.2

inductive NamesVariable (events : List Event) : Tree → Prop where
  | declared {context : Context} {role : Role} {name : Tree}
      (member : .declaration context role name ∈ events) (variableRole : role.isVariable = true) :
      NamesVariable events name
  | used {context : Context} {node : Tree} {meant : Declaration}
      (member : .use context node ∈ events) (resolved : context.resolve? node.text = some meant)
      (isVariable : meant.isVariable = true) : NamesVariable events node

end Lexical

namespace Oil

section

variable {analysis : Analysis} {events : List Event}

/-- A node that names a variable refers to the symbol of a variable, and is
spelled with the number of the scope that the symbol lies in. -/
theorem variableName_of_namesVariable
    (holds : ∀ event ∈ events, event.Holds False analysis.symbols) {node : Tree}
    (names : NamesVariable events node) :
    ∃ id symbol, node.note.symbol = some id ∧ analysis.symbols[id]? = some symbol ∧
      symbol.isVariable = true ∧
      variableName analysis node = .declared symbol.block node.text := by
  have recorded {declaration : Declaration} (refers : node.note.symbol = some declaration.symbol)
      (recorded : declaration.RecordedIn analysis.symbols)
      (isVariable : declaration.isVariable = true) :
      ∃ id symbol, node.note.symbol = some id ∧ analysis.symbols[id]? = some symbol ∧
        symbol.isVariable = true ∧
        variableName analysis node = .declared symbol.block node.text := by
    have spelled := variableName_of_recorded refers recorded
    rcases recorded with ⟨symbol, stored, _, block, variableRole, _⟩
    exact ⟨_, symbol, refers, stored, variableRole.trans isVariable, block ▸ spelled⟩
  cases names with
  | declared member variableRole =>
      have here := holds _ member
      exact recorded here.1 here.2 variableRole
  | used member resolved isVariable =>
      have here := holds _ member
      simp only [Event.Holds, resolved] at here
      exact recorded here.1 here.2.2 isVariable

end

def scope? (analysis : Analysis) (node : Tree) : Option Nat :=
  node.note.symbol.map fun id => (analysis.symbol id).block

section

variable {analysis : Analysis} {events : List Event}

theorem spelling_eq_iff (holds : ∀ event ∈ events, event.Holds False analysis.symbols)
    {first second : Tree} (namesFirst : NamesVariable events first)
    (namesSecond : NamesVariable events second) :
    (variableName analysis first).spelling = (variableName analysis second).spelling ↔
      first.text = second.text ∧ scope? analysis first = scope? analysis second := by
  rcases variableName_of_namesVariable holds namesFirst with ⟨id, symbol, refers, stored, _, name⟩
  rcases variableName_of_namesVariable holds namesSecond with
    ⟨otherId, other, refersOther, storedOther, _, otherName⟩
  have scope : scope? analysis first = some symbol.block := by
    simp [scope?, refers, Analysis.symbol, stored]
  have otherScope : scope? analysis second = some other.block := by
    simp [scope?, refersOther, Analysis.symbol, storedOther]
  rw [name, otherName, scope, otherScope, Option.some.injEq]
  constructor
  · intro same
    exact (VariableName.spelling_injective same).symm
  · rintro ⟨sameText, sameScope⟩
    rw [sameText, sameScope]

theorem variableName_of_meaning (holds : ∀ event ∈ events, event.Holds False analysis.symbols)
    {context place : Context} {role : Role} {node name : Tree}
    (used : .use context node ∈ events) (declared : .declaration place role name ∈ events)
    (resolved : context.resolve? node.text = some (place.declaration role name)) :
    name.note.symbol = node.note.symbol ∧
      variableName analysis node = variableName analysis name := by
  have use := holds _ used
  have declaration := holds _ declared
  have sameText : node.text = name.text := (name_of_resolve? resolved).symm
  constructor
  · simp only [Event.Holds, resolved] at use
    rw [declaration.1, use.1]
    rfl
  · rw [variableName_use use resolved, variableName_declaration declaration, sameText]
    rfl

end

structure SpellsByScope (annotated : Tree) (analysis : Analysis) : Prop where
  bound : ∀ node, NamesVariable (events {} annotated) node →
    ∃ id symbol, node.note.symbol = some id ∧ analysis.symbols[id]? = some symbol ∧
      symbol.isVariable = true
  spelled : ∀ first second, NamesVariable (events {} annotated) first →
    NamesVariable (events {} annotated) second →
    ((variableName analysis first).spelling = (variableName analysis second).spelling ↔
      first.text = second.text ∧ scope? analysis first = scope? analysis second)
  uses : ∀ context node meant, .use context node ∈ events {} annotated →
    context.resolve? node.text = some meant → meant.isVariable = true →
    ∃ context role name, .declaration context role name ∈ events {} annotated ∧
      context.declaration role name = meant ∧ name.note.symbol = node.note.symbol ∧
      variableName analysis node = variableName analysis name

/-- At every step of the analysis the tables of the open scopes hold symbols of
these scopes, and the program calls the variables after them. -/
theorem analyze_spellsByScope (tree : Tree) :
    Strict.analyze tree = some (analyze tree) ∧
      SpellsByScope (analyze tree).1 (analyze tree).2 := by
  have follows := (analyze_follows False tree False.elim).2
  have holds : ∀ event ∈ events {} (analyze tree).1, event.Holds False (analyze tree).2.symbols :=
    follows.holds
  refine ⟨analyze_goesThrough tree, ?_, ?_, ?_⟩
  · intro node names
    rcases variableName_of_namesVariable holds names with ⟨id, symbol, refers, stored, isVariable, _⟩
    exact ⟨id, symbol, refers, stored, isVariable⟩
  · intro first second namesFirst namesSecond
    exact spelling_eq_iff holds namesFirst namesSecond
  · intro context node meant member resolved isVariable
    have declared := (events_traces (analyze tree).1 {}).exists_declaration member rfl
      (mem_of_resolve? resolved)
    rcases declared with nothing | ⟨event, eventMember, declares⟩
    · simp at nothing
    · cases event with
      | declaration place role name =>
          have meaning : place.declaration role name = meant := Option.some.inj declares
          exact ⟨place, role, name, eventMember, meaning,
            variableName_of_meaning holds member eventMember (meaning ▸ resolved)⟩
      | _ => simp [Event.declaration?] at declares

end Oil

end OcLang
