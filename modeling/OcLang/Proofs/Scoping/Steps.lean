import OcLang.Proofs.Scoping.Agreement

namespace OcLang

open Lexical

/-! # Steps that keep the agreement

Symbols are only ever added, so what was said about a symbol stays true. -/

def Grows (before after : Array Symbol) : Prop :=
  ∀ (id : Nat) (symbol : Symbol), before[id]? = some symbol → after[id]? = some symbol

namespace Grows

variable {first second third : Array Symbol}

theorem refl (symbols : Array Symbol) : Grows symbols symbols := fun _ _ found => found

theorem trans (grows : Grows first second) (more : Grows second third) : Grows first third :=
  fun id symbol found => more id symbol (grows id symbol found)

theorem push (symbols : Array Symbol) (symbol : Symbol) : Grows symbols (symbols.push symbol) := by
  intro id other found
  have bound := (Array.getElem?_eq_some_iff.mp found).1
  grind

theorem recorded (grows : Grows first second) {declaration : Declaration}
    (recorded : declaration.RecordedIn first) : declaration.RecordedIn second := by
  obtain ⟨symbol, stored, rest⟩ := recorded
  exact ⟨symbol, grows _ _ stored, rest⟩

theorem holds (grows : Grows first second) {fresh : Prop} {event : Event}
    (holds : event.Holds fresh first) : event.Holds fresh second := by
  cases event with
  | use context node =>
      cases resolved : context.resolve? node.text with
      | none => simpa [Event.Holds, resolved] using holds
      | some meant =>
          simp only [Event.Holds, resolved] at holds ⊢
          exact ⟨holds.1, holds.2.1, grows.recorded holds.2.2⟩
  | call => trivial
  | declaration => exact ⟨holds.1, grows.recorded holds.2⟩
  | misplaced => trivial

end Grows

/-! ## Steps that store symbols

Structs and fields have symbols, but are no names of any scope. -/

/-- So many symbols are stored, no scope or unresolved name is touched, and no
error is taken back. -/
structure Stores (count : Nat) (before after : AnalysisState) : Prop where
  scopes : after.scopes = before.scopes
  fault : after.fault = before.fault
  grows : Grows before.symbols after.symbols
  size : after.symbols.size = before.symbols.size + count
  unresolved : after.diagnostics.unresolved = before.diagnostics.unresolved
  errors : before.diagnostics.hasErrors = true → after.diagnostics.hasErrors = true

namespace Stores

variable {before middle after : AnalysisState} {count more : Nat}

theorem trans (first : Stores count before middle) (second : Stores more middle after) :
    Stores (count + more) before after where
  scopes := second.scopes.trans first.scopes
  fault := second.fault.trans first.fault
  grows := first.grows.trans second.grows
  size := by rw [second.size, first.size, Nat.add_assoc]
  unresolved := second.unresolved.trans first.unresolved
  errors found := second.errors (first.errors found)

theorem reporting (state : AnalysisState) (problems : List Problem)
    (resolved : Check.AllResolved problems) : Stores 0 state (state.reporting problems) where
  scopes := rfl
  fault := rfl
  grows := .refl _
  size := rfl
  unresolved := by rw [Diagnostics.unresolved_reporting, resolved, List.append_nil]
  errors found := by simp [Diagnostics.hasErrors_reporting, found]

theorem logged (state : AnalysisState) (log : List LogEntry) : Stores 0 state { state with log } :=
  ⟨rfl, rfl, .refl _, rfl, rfl, id⟩

theorem known (state : AnalysisState) (structs : Table) :
    Stores 0 state { state with structs } :=
  ⟨rfl, rfl, .refl _, rfl, rfl, id⟩

theorem allocated (state : AnalysisState) (symbol : Symbol) :
    Stores 1 state { state with symbols := state.symbols.push symbol } :=
  ⟨rfl, rfl, .push _ _, by simp, rfl, id⟩

theorem sees (stores : Stores count before after) {context : Context}
    (sees : Sees context before) : Sees context after where
  enclosing := by rw [stores.scopes, sees.enclosing]
  globals := by rw [stores.scopes]; exact sees.globals
  inner := by rw [stores.scopes]; exact sees.inner
  recorded declaration member := stores.grows.recorded (sees.recorded declaration member)

theorem agrees (stores : Stores count before after) {context : Context}
    (agrees : Agrees context before) :
    Agrees { context with stored := context.stored + count } after where
  toSees := { stores.sees agrees.toSees with }
  stored := by rw [stores.size, agrees.stored]
  opened := by rw [stores.scopes, agrees.opened]
  ordered := { agrees.ordered with }

end Stores

/-! ## Declarations -/

def Lexical.Role.target : Role → DeclarationTarget
  | .function => .file
  | .parameter | .variable _ => .innermost

namespace Table.Shows

variable {table : Table} {context : Context} {scope : Nat} {role : Role} {name : Tree}

theorem insert (shown : table.Shows context scope) (here : scope = context.scopeOf role) :
    (table.insert name.text context.stored).Shows (context.declare role name) scope := by
  intro other
  rw [Table.find?_insert, context.latest?_declare, shown other]
  by_cases same : other = name.text <;> simp [same, here, Context.declaration]

theorem elsewhere (shown : table.Shows context scope) (other : scope ≠ context.scopeOf role) :
    table.Shows (context.declare role name) scope := by
  intro sought
  rw [context.latest?_declare, if_neg fun both => other both.2, shown sought]

end Table.Shows

namespace Agrees

variable {context : Context} {before after : AnalysisState}

theorem bound?_eq (agrees : Agrees context before) (role : Role) (name : String) :
    before.scopes.bound? role.target name =
      (context.latest? (context.scopeOf role) name).map (·.symbol) := by
  have enclosing := agrees.enclosing
  have globals := agrees.globals name
  cases inner : before.scopes.inner with
  | nil =>
      cases role <;>
        simp_all [Scopes.bound?, Role.target, Context.scopeOf, Context.innermost, ← enclosing]
  | cons scope outer =>
      have shown := agrees.inner scope (by simp [inner]) name
      cases role <;>
        simp_all [Scopes.bound?, Role.target, Context.scopeOf, Context.innermost, ← enclosing]

private theorem shows_bind (agrees : Agrees context before) (role : Role) (name : Tree)
    {scopes : Scopes}
    (bound : scopes = before.scopes.bind role.target name.text context.stored) :
    scopes.inner.map (·.block) = context.enclosing ∧ scopes.opened = context.opened ∧
      scopes.globals.Shows (context.declare role name) 0 ∧
      ∀ scope ∈ scopes.inner, scope.table.Shows (context.declare role name) scope.block := by
  have enclosing := agrees.enclosing
  have atFile (bound : scopes = { before.scopes with
      globals := before.scopes.globals.insert name.text context.stored })
      (file : context.scopeOf role = 0) :
      scopes.inner.map (·.block) = context.enclosing ∧ scopes.opened = context.opened ∧
        scopes.globals.Shows (context.declare role name) 0 ∧
        ∀ scope ∈ scopes.inner, scope.table.Shows (context.declare role name) scope.block := by
    subst bound
    refine ⟨enclosing, agrees.opened, agrees.globals.insert file.symm, fun scope member => ?_⟩
    have inside : scope.block ∈ context.enclosing := by
      rw [← enclosing]
      exact List.mem_map_of_mem member
    have positive := agrees.ordered.enclosing_pos inside
    exact (agrees.inner scope member).elsewhere (by omega)
  by_cases isFunction : role = .function
  · subst isFunction
    exact atFile (by rw [bound]; rfl) rfl
  · have target : role.target = .innermost := by cases role <;> first | rfl | contradiction
    have here : context.scopeOf role = context.innermost := by
      cases role <;> first | rfl | contradiction
    rw [target] at bound
    cases inner : before.scopes.inner with
    | nil =>
        refine atFile (by simp [bound, Scopes.bind, inner]) ?_
        simp [here, Context.innermost, ← enclosing, inner]
    | cons scope outer =>
        have innermost : context.scopeOf role = scope.block := by
          simp [here, Context.innermost, ← enclosing, inner]
        have nested := agrees.ordered.nested
        simp only [Scopes.bind, inner] at bound
        simp only [Context.scopes, ← enclosing, inner, List.map_cons, List.cons_append,
          List.pairwise_cons] at nested
        subst bound
        refine ⟨by simp [← enclosing, inner], agrees.opened, ?_, ?_⟩
        · have positive := nested.1 0 (by simp)
          exact agrees.globals.elsewhere (by omega)
        · intro other member
          rcases List.mem_cons.mp member with rfl | outside
          · exact (agrees.inner scope (by simp [inner])).insert innermost.symm
          · have outward := nested.1 other.block
              (List.mem_append_left _ (List.mem_map_of_mem outside))
            exact (agrees.inner other (by simp [inner, outside])).elsewhere (by omega)

theorem declare (agrees : Agrees context before) {role : Role} {name : Tree} {symbol : Symbol}
    (place : symbol.location = name.location) (block : symbol.block = context.scopeOf role)
    (variableRole : symbol.isVariable = role.isVariable)
    (replaces : symbol.replaces? = context.replaced? role name.text)
    (symbols : after.symbols = before.symbols.push symbol)
    (scopes : after.scopes = before.scopes.bind role.target name.text context.stored) :
    Agrees (context.declare role name) after := by
  obtain ⟨enclosing, opened, globals, inner⟩ := agrees.shows_bind role name scopes
  exact {
    enclosing, opened, globals, inner
    recorded := by
      intro declaration member
      rcases List.mem_cons.mp member with rfl | earlier
      · refine ⟨symbol, ?_, place, block, variableRole, replaces⟩
        simp [symbols, Context.declaration, ← agrees.stored]
      · rw [symbols]
        exact (Grows.push _ _).recorded (agrees.recorded declaration earlier)
    stored := by simp [symbols, agrees.stored, Context.declare]
    ordered := agrees.ordered.declare role name }

theorem enter (agrees : Agrees context before) :
    Agrees context.enter { before with scopes := before.scopes.enter } where
  enclosing := by simp [Scopes.enter, Context.enter, agrees.enclosing, agrees.opened]
  globals := agrees.globals
  inner := by
    intro scope member
    rcases List.mem_cons.mp member with rfl | outer
    · intro name
      rw [agrees.opened, agrees.ordered.latest?_enter]
      rfl
    · exact agrees.inner scope outer
  recorded := agrees.recorded
  stored := agrees.stored
  opened := by simp [Scopes.enter, Context.enter, agrees.opened]
  ordered := agrees.ordered.enter

/-- The scope that is left has been opened, so that leaving it is no fault. -/
theorem leave {inner : Context} (scope : Nat) (agrees : Agrees inner before)
    (opened : inner.enclosing = scope :: context.enclosing) :
    ∃ scopes, before.scopes.exit = .ok scopes ∧
      Agrees (context.close inner) { before with scopes } := by
  have enclosing := agrees.enclosing
  rw [opened] at enclosing
  cases stack : before.scopes.inner with
  | nil => simp [stack] at enclosing
  | cons first outer =>
      refine ⟨{ before.scopes with inner := outer }, by simp [Scopes.exit, stack], ?_⟩
      exact {
        enclosing := by simp_all [Context.close]
        globals := agrees.globals
        inner := fun scope member => agrees.inner scope (by simp [stack, member])
        recorded := agrees.recorded
        stored := agrees.stored
        opened := agrees.opened
        ordered := agrees.ordered.leave scope opened }

end Agrees

/-! ## Parts of the walk -/

/-- Between two states of the walk certain names have been met, and the tables
now agree with a certain place. A misplaced node leaves an error. -/
structure Follows (fresh : Prop) (events : List Event) (context : Context)
    (before after : AnalysisState) : Prop where
  agrees : Agrees context after
  grows : Grows before.symbols after.symbols
  holds : ∀ event ∈ events, event.Holds fresh after.symbols
  unresolved : after.diagnostics.unresolved =
    before.diagnostics.unresolved ++ events.filterMap Event.unresolved?
  errors : before.diagnostics.hasErrors = true ∨ Refused events →
    after.diagnostics.hasErrors = true
  fault : after.fault = before.fault

namespace Follows

variable {fresh : Prop} {events later : List Event} {context next : Context}
  {before middle after : AnalysisState} {count : Nat}

theorem trans (first : Follows fresh events context before middle)
    (second : Follows fresh later next middle after) :
    Follows fresh (events ++ later) next before after where
  agrees := second.agrees
  grows := first.grows.trans second.grows
  holds event member := (List.mem_append.mp member).elim
    (fun earlier => second.grows.holds (first.holds event earlier)) (second.holds event)
  unresolved := by
    rw [second.unresolved, first.unresolved, List.filterMap_append, List.append_assoc]
  errors := by
    rw [Refused.append, ← or_assoc]
    exact fun found => second.errors (found.imp first.errors id)
  fault := second.fault.trans first.fault

theorem stored (stores : Stores count before middle)
    (rest : Follows fresh events context middle after) :
    Follows fresh events context before after where
  agrees := rest.agrees
  grows := stores.grows.trans rest.grows
  holds := rest.holds
  unresolved := by rw [rest.unresolved, stores.unresolved]
  errors found := rest.errors (found.imp stores.errors id)
  fault := rest.fault.trans stores.fault

theorem reported {problems : List Problem} (accounts : Accounts fresh before.symbols events problems)
    (rest : Follows fresh later context (before.reporting problems) after) :
    Follows fresh (events ++ later) context before after where
  agrees := rest.agrees
  grows := rest.grows
  holds event member := (List.mem_append.mp member).elim
    (fun earlier => rest.grows.holds (accounts.holds event earlier)) (rest.holds event)
  unresolved := by
    rw [rest.unresolved, Diagnostics.unresolved_reporting, accounts.unresolved,
      List.filterMap_append, List.append_assoc]
  errors := by
    rw [Refused.append, ← or_assoc]
    refine fun found => rest.errors (found.imp (fun earlier => ?_) id)
    rw [Diagnostics.hasErrors_reporting, Bool.or_eq_true]
    exact earlier.imp id accounts.refused
  fault := rest.fault

theorem declared {role : Role} {name : Tree}
    (follows : Follows fresh events (context.declare role name) before after)
    (other : Role) (annotated : Tree)
    (same : context.declaration other annotated = context.declaration role name)
    (symbol : annotated.note.symbol = some context.stored) :
    Follows fresh (events ++ [.declaration context other annotated])
      (context.declare role name) before after where
  agrees := follows.agrees
  grows := follows.grows
  holds event member := by
    rcases List.mem_append.mp member with earlier | here
    · exact follows.holds event earlier
    · rw [List.mem_singleton.mp here]
      refine ⟨symbol, ?_⟩
      rw [same]
      exact follows.agrees.recorded _ List.mem_cons_self
  unresolved := by
    rw [follows.unresolved, List.filterMap_append]
    simp [Event.unresolved?]
  errors := by
    rw [Refused.append]
    exact fun found => follows.errors (found.imp id fun refused => by
      rcases refused with here | none
      · exact here
      · simp [Refused] at none)
  fault := follows.fault

theorem ofStores (stores : Stores count before after) (agrees : Agrees context before) :
    Follows fresh [] { context with stored := context.stored + count } before after where
  agrees := stores.agrees agrees
  grows := stores.grows
  holds := by simp
  unresolved := by simp [stores.unresolved]
  errors found := stores.errors (found.resolve_right (by simp [Refused]))
  fault := stores.fault

theorem quiet (stores : Stores 0 before after) (agrees : Agrees context before) :
    Follows fresh [] context before after :=
  ofStores stores agrees

theorem refl (agrees : Agrees context before) : Follows fresh [] context before before :=
  quiet (.reporting before [] rfl) agrees

theorem reporting {problems : List Problem} (agrees : Agrees context before)
    (accounts : Accounts fresh before.symbols events problems) :
    Follows fresh events context before (before.reporting problems) where
  agrees := { agrees with toSees := agrees.toSees.reporting problems }
  grows := .refl _
  holds := accounts.holds
  unresolved := by rw [Diagnostics.unresolved_reporting, accounts.unresolved]
  errors := by
    rw [Diagnostics.hasErrors_reporting, Bool.or_eq_true]
    exact fun found => found.imp id accounts.refused
  fault := rfl

variable (fresh)

theorem enter (agrees : Agrees context before) :
    Ends Check.enter before fun _ after => Follows fresh [] context.enter before after :=
  .modify ⟨agrees.enter, .refl _, by simp, by simp, by simp [Refused], rfl⟩

theorem leave (context : Context) {inner : Context} (scope : Nat) (agrees : Agrees inner before)
    (opened : inner.enclosing = scope :: context.enclosing) :
    Ends Check.leave before fun _ after =>
      Follows fresh [] (context.close inner) before after := by
  obtain ⟨scopes, exit, closed⟩ := agrees.leave scope opened
  unfold Check.leave
  refine .modify ?_
  rw [exit]
  exact ⟨closed, .refl _, by simp, by simp, by simp [Refused], rfl⟩

end Follows

end OcLang
