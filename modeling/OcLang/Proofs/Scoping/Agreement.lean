import OcLang.Analysis.State
import OcLang.Proofs.Analysis.Reports
import OcLang.Proofs.Scoping.Lexical

namespace OcLang

open Lexical

/-! # The tables of the analysis and lexical scoping

The analysis keeps a stack of tables that change as it walks through a tree.
`Sees` says that the tables hold, at a place in the tree, just what the
declarations and scopes of the place say. `Agrees` adds that the numbers still
to be given out are the same. Each step that the walk takes keeps the
agreement. -/

def Lexical.Declaration.RecordedIn (declaration : Declaration) (symbols : Array Symbol) : Prop :=
  ∃ symbol, symbols[declaration.symbol]? = some symbol ∧
    symbol.location = declaration.place ∧ symbol.block = declaration.scope ∧
    symbol.isVariable = declaration.isVariable ∧ symbol.replaces? = declaration.replaces

def Table.Shows (table : Table) (context : Context) (scope : Nat) : Prop :=
  ∀ name, table.find? name = (context.latest? scope name).map (·.symbol)

structure Sees (context : Context) (state : AnalysisState) : Prop where
  enclosing : state.scopes.inner.map (·.block) = context.enclosing
  globals : state.scopes.globals.Shows context 0
  inner : ∀ scope ∈ state.scopes.inner, scope.table.Shows context scope.block
  recorded : ∀ declaration ∈ context.declared, declaration.RecordedIn state.symbols

structure Agrees (context : Context) (state : AnalysisState) : Prop
    extends Sees context state where
  stored : state.symbols.size = context.stored
  opened : state.scopes.opened = context.opened
  ordered : context.Ordered

theorem Agrees.start : Agrees {} {} where
  enclosing := rfl
  globals := fun _ => rfl
  inner := by simp
  recorded := by simp
  stored := rfl
  opened := rfl
  ordered := .start

namespace Sees

variable {context : Context} {state : AnalysisState}

theorem reporting (sees : Sees context state) (problems : List Problem) :
    Sees context (state.reporting problems) :=
  { sees with }

private theorem findSome?_tables {scopes : List Scope}
    (tables : ∀ scope ∈ scopes, scope.table.Shows context scope.block) (name : String) :
    (scopes.findSome? fun scope => scope.table.find? name) =
      ((scopes.map (·.block)).findSome? fun scope => context.latest? scope name).map
        (·.symbol) := by
  induction scopes with
  | nil => rfl
  | cons scope outer induction =>
      have shown := tables scope (by simp) name
      cases latest : context.latest? scope.block name with
      | some declaration => simp [shown, latest]
      | none =>
          simpa [List.findSome?_cons, shown, latest] using
            induction fun scope member => tables scope (by simp [member])

theorem find?_eq (sees : Sees context state) (name : String) :
    state.scopes.find? name = (context.resolve? name).map (·.symbol) := by
  rw [Scopes.find?, Context.resolve?, Context.scopes, findSome?_tables sees.inner, sees.enclosing,
    sees.globals name, List.findSome?_append]
  cases context.enclosing.findSome? fun scope => context.latest? scope name with
  | some declaration => rfl
  | none => cases latest : context.latest? 0 name <;> simp [List.findSome?, latest]

end Sees

/-! ## What the analysis owes to an event -/

namespace Lexical

/-- A use that has a meaning refers to the symbol of its declaration. A use
without meaning leaves a fresh node without symbol and type. A declared name
refers to its own symbol. -/
def Event.Holds (fresh : Prop) (symbols : Array Symbol) : Event → Prop
  | .use context node =>
      match context.resolve? node.text with
      | some meant =>
          node.note.symbol = some meant.symbol ∧
            node.note.declaredAt = some meant.place ∧ meant.RecordedIn symbols
      | none =>
          fresh → node.note.symbol = none ∧ node.note.attributes = {} ∧ node.note.structName = none
  | .call _ _ => True
  | .declaration context role name =>
      name.note.symbol = some context.stored ∧ (context.declaration role name).RecordedIn symbols
  | .misplaced _ => True

def Event.unresolved? : Event → Option (Location × String)
  | .use context node =>
      if (context.resolve? node.text).isNone then some (node.location, node.text) else none
  | .call context callee =>
      if (context.latest? 0 callee.text).isNone then some (callee.location, callee.text) else none
  | .declaration _ _ _ | .misplaced _ => none

def Refused (events : List Event) : Prop :=
  ∃ node, .misplaced node ∈ events

theorem Refused.append {events later : List Event} :
    Refused (events ++ later) ↔ Refused events ∨ Refused later := by
  simp [Refused, exists_or]

/-- The events hold, the problems name the uses without meaning, and there is an
error if some node is misplaced. -/
structure Accounts (fresh : Prop) (symbols : Array Symbol) (events : List Event)
    (problems : List Problem) : Prop where
  holds : ∀ event ∈ events, event.Holds fresh symbols
  unresolved : problems.filterMap Problem.unresolved? = events.filterMap Event.unresolved?
  refused : Refused events → problems.any (·.severity == .error) = true

namespace Accounts

variable {fresh : Prop} {symbols : Array Symbol} {events later : List Event}
  {problems more : List Problem}

theorem none (resolved : Check.AllResolved problems) : Accounts fresh symbols [] problems :=
  ⟨by simp, resolved, by simp [Refused]⟩

theorem misplaced (node : Tree) (problems : List Problem)
    (resolved : Check.AllResolved problems)
    (reported : problems.any (·.severity == .error) = true) :
    Accounts fresh symbols [.misplaced node] problems :=
  ⟨by simp [Event.Holds], resolved, fun _ => reported⟩

theorem append (first : Accounts fresh symbols events problems)
    (second : Accounts fresh symbols later more) :
    Accounts fresh symbols (events ++ later) (problems ++ more) where
  holds event member := (List.mem_append.mp member).elim (first.holds event) (second.holds event)
  unresolved := by rw [List.filterMap_append, List.filterMap_append, first.unresolved,
    second.unresolved]
  refused given := by
    rw [List.any_append, Bool.or_eq_true]
    exact (Refused.append.mp given).imp first.refused second.refused

theorem quiet (first : Accounts fresh symbols events problems)
    (resolved : Check.AllResolved more) : Accounts fresh symbols events (problems ++ more) := by
  simpa using first.append (.none resolved)

end Accounts

theorem mem_of_latest? {context : Context} {scope : Nat} {name : String}
    {declaration : Declaration} (latest : context.latest? scope name = some declaration) :
    declaration ∈ context.declared :=
  List.mem_of_find?_eq_some latest

theorem mem_of_resolve? {context : Context} {name : String} {declaration : Declaration}
    (resolved : context.resolve? name = some declaration) : declaration ∈ context.declared := by
  obtain ⟨scope, _, latest⟩ := List.exists_of_findSome?_eq_some resolved
  exact mem_of_latest? latest

end Lexical

end OcLang
