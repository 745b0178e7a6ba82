import OcLang.Proofs.Analysis.Bookkeeping

namespace OcLang

/-! # Functions and their parameters

The symbol of a function names its parameters before they are stored. Behind every statement
they have been stored, in a scope of their own. -/

def Symbol.ParametersLieIn (symbol : Symbol) (symbols : Array Symbol) (block : Nat) : Prop :=
  ∀ id ∈ symbol.parameters, ∃ parameter,
    symbols[id]? = some parameter ∧ parameter.isParameter = true ∧ parameter.block = block

theorem Symbol.parameters_of_isParameter {symbol : Symbol}
    (isParameter : symbol.isParameter = true) : symbol.parameters = [] := by
  unfold Symbol.isParameter at isParameter
  unfold parameters parameters?
  cases role : symbol.role <;> simp_all [SymbolRole.roles]

structure IsSettled (symbols : Array Symbol) : Prop where
  settled : ∀ function ∈ symbols, ∃ block, block ≠ 0 ∧ function.ParametersLieIn symbols block
  apart : ∀ (first second : Nat) (function other : Symbol), symbols[first]? = some function →
    symbols[second]? = some other → first ≠ second →
      ∀ id ∈ function.parameters, ∀ otherId ∈ other.parameters, ∀ parameter otherParameter,
        symbols[id]? = some parameter → symbols[otherId]? = some otherParameter →
          parameter.block ≠ otherParameter.block

section

variable {symbols : Array Symbol} {more : List Symbol}

theorem Grows.append (symbols : Array Symbol) (more : List Symbol) :
    Grows symbols (symbols ++ more.toArray) := by
  intro id symbol stored
  obtain ⟨bound, rfl⟩ := Array.getElem?_eq_some_iff.mp stored
  rw [Array.getElem?_append_left bound, Array.getElem?_eq_getElem bound]

theorem stored_append {id : Nat} {symbol : Symbol}
    (stored : (symbols ++ more.toArray)[id]? = some symbol) :
    symbols[id]? = some symbol ∨ symbols.size ≤ id ∧ more[id - symbols.size]? = some symbol := by
  rcases Nat.lt_or_ge id symbols.size with old | new
  · exact .inl (by rwa [Array.getElem?_append_left old] at stored)
  · exact .inr ⟨new, by rwa [Array.getElem?_append_right new, List.getElem?_toArray] at stored⟩

namespace IsSettled

theorem start : IsSettled #[] where
  settled := by simp
  apart := by simp

/-- A parameter of a function that was there before is an old symbol. -/
theorem parameter_eq (settled : IsSettled symbols) {grown : Array Symbol}
    (grows : Grows symbols grown) {function parameter : Symbol} (member : function ∈ symbols)
    {id : Nat} (listed : id ∈ function.parameters) (stored : grown[id]? = some parameter) :
    symbols[id]? = some parameter := by
  obtain ⟨block, _, lies⟩ := settled.settled function member
  obtain ⟨old, wasStored, _⟩ := lies id listed
  rw [wasStored, ← stored, grows _ _ wasStored]

theorem disjoint (settled : IsSettled symbols) {first second : Nat} {function other : Symbol}
    (isFirst : symbols[first]? = some function) (isSecond : symbols[second]? = some other)
    (different : first ≠ second) {id otherId : Nat} (listed : id ∈ function.parameters)
    (otherListed : otherId ∈ other.parameters) :
    id ≠ otherId ∧ symbols[id]?.map (·.block) ≠ symbols[otherId]?.map (·.block) := by
  obtain ⟨_, _, lies⟩ := settled.settled function (Array.mem_of_getElem? isFirst)
  obtain ⟨_, _, otherLies⟩ := settled.settled other (Array.mem_of_getElem? isSecond)
  obtain ⟨parameter, stored, _⟩ := lies id listed
  obtain ⟨otherParameter, otherStored, _⟩ := otherLies otherId otherListed
  have blocks := settled.apart first second function other isFirst isSecond different id listed
    otherId otherListed parameter otherParameter stored otherStored
  refine ⟨?_, by simpa [stored, otherStored] using blocks⟩
  rintro rfl
  exact blocks (congrArg (·.block) (Option.some_inj.mp (stored.symm.trans otherStored)))

theorem extend (settled : IsSettled symbols) {opened : Nat}
    (known : ∀ symbol ∈ symbols, symbol.block ≤ opened) {grown : Array Symbol}
    (grows : Grows symbols grown)
    (new : ∀ (id : Nat) symbol, grown[id]? = some symbol → symbol.parameters = [] ∨
      symbols[id]? = some symbol ∨
        id = symbols.size ∧ symbol.ParametersLieIn grown (opened + 1)) : IsSettled grown where
  settled function member := by
    obtain ⟨id, stored⟩ := Array.mem_iff_getElem?.mp member
    rcases new id function stored with none | old | ⟨_, lies⟩
    · refine ⟨1, Nat.one_ne_zero, fun id listed => ?_⟩
      rw [none] at listed
      contradiction
    · obtain ⟨block, positive, lies⟩ := settled.settled function (Array.mem_of_getElem? old)
      refine ⟨block, positive, fun id listed => ?_⟩
      obtain ⟨parameter, stored, kind⟩ := lies id listed
      exact ⟨parameter, grows _ _ stored, kind⟩
    · exact ⟨opened + 1, Nat.succ_ne_zero _, lies⟩
  apart first second function other isFirst isSecond different id listed otherId otherListed
      parameter otherParameter stored otherStored := by
    have oldBlock {function parameter : Symbol} {first id : Nat}
        (old : symbols[first]? = some function) (listed : id ∈ function.parameters)
        (stored : grown[id]? = some parameter) :
        symbols[id]? = some parameter ∧ parameter.block ≤ opened := by
      have was := settled.parameter_eq grows (Array.mem_of_getElem? old) listed stored
      exact ⟨was, known parameter (Array.mem_of_getElem? was)⟩
    have newBlock {function parameter : Symbol} {id : Nat}
        (lies : function.ParametersLieIn grown (opened + 1)) (listed : id ∈ function.parameters)
        (stored : grown[id]? = some parameter) : parameter.block = opened + 1 := by
      obtain ⟨same, isStored, _, here⟩ := lies id listed
      rwa [← Option.some_inj.mp (isStored.symm.trans stored)]
    rcases new first function isFirst with none | old | ⟨rfl, lies⟩
    · rw [none] at listed
      contradiction
    · have was := oldBlock old listed stored
      rcases new second other isSecond with none | otherOld | ⟨rfl, otherLies⟩
      · rw [none] at otherListed
        contradiction
      · exact settled.apart first second function other old otherOld different id listed otherId
          otherListed parameter otherParameter was.1 (oldBlock otherOld otherListed otherStored).1
      · have is := newBlock otherLies otherListed otherStored
        omega
    · have is := newBlock lies listed stored
      rcases new second other isSecond with none | otherOld | ⟨rfl, -⟩
      · rw [none] at otherListed
        contradiction
      · have was := oldBlock otherOld otherListed otherStored
        omega
      · exact absurd rfl different

variable {opened : Nat} (known : ∀ symbol ∈ symbols, symbol.block ≤ opened)

include known

/-- Symbols without parameters do no harm. -/
theorem append (settled : IsSettled symbols)
    (plain : ∀ symbol ∈ more, symbol.parameters = []) : IsSettled (symbols ++ more.toArray) := by
  refine settled.extend known (.append _ _) fun id symbol stored => ?_
  rcases stored_append stored with old | ⟨_, new⟩
  · exact .inr (.inl old)
  · exact .inl (plain symbol (List.mem_of_getElem? new))

theorem heading (settled : IsSettled symbols) {function : Symbol}
    (announced : function.parameters = List.range' (symbols.size + 1) more.length)
    (stored : ∀ parameter ∈ more, parameter.isParameter = true ∧ parameter.block = opened + 1) :
    IsSettled (symbols ++ (function :: more).toArray) := by
  have lies : function.ParametersLieIn (symbols ++ (function :: more).toArray) (opened + 1) := by
    intro id listed
    rw [announced, List.mem_range'_1] at listed
    have bound : id - symbols.size - 1 < more.length := by omega
    refine ⟨more[id - symbols.size - 1], ?_, stored _ (List.getElem_mem bound)⟩
    rw [Array.getElem?_append_right (by omega), List.getElem?_toArray,
      List.getElem?_cons, if_neg (by omega), List.getElem?_eq_getElem bound]
  refine settled.extend known (.append _ _) fun id symbol isStored => ?_
  rcases stored_append isStored with old | ⟨least, new⟩
  · exact .inr (.inl old)
  · rw [List.getElem?_cons] at new
    split at new <;> rename_i position
    · obtain rfl := Option.some_inj.mp new
      exact .inr (.inr ⟨by omega, lies⟩)
    · exact .inl (Symbol.parameters_of_isParameter (stored symbol (List.mem_of_getElem? new)).1)

end IsSettled

end

/-! ## The symbols that changes store -/

def Change.isFunction : Change → Bool
  | .function _ _ _ => true
  | _ => false

namespace Ledger

theorem apply_plain (ledger : Ledger) {change : Change} (plain : change.isFunction = false) :
    ∃ more : List Symbol, (ledger.apply change).symbols = ledger.symbols ++ more.toArray ∧
      ∀ symbol ∈ more, symbol.parameters = [] := by
  cases change with
  | function => contradiction
  | enter | separate => exact ⟨[], by simp [apply], by simp⟩
  | leave => exact ⟨[], by cases left : ledger.scopes.exit <;> simp [apply, left], by simp⟩
  | parameter naming =>
      exact ⟨[ledger.localSymbol .parameter naming], by simp [apply, introduce], by
        simp [localSymbol, Symbol.parameters, Symbol.parameters?]⟩
  | «variable» naming =>
      exact ⟨[ledger.localSymbol .variable naming], by simp [apply, introduce], by
        simp [localSymbol, Symbol.parameters, Symbol.parameters?]⟩
  | struct name place fields =>
      refine ⟨ledger.structSymbols name place fields, ledger.symbols_storeStruct .., ?_⟩
      intro symbol member
      rcases mem_structSymbols member with field | ⟨table, struct⟩ <;>
        simp [Symbol.parameters, Symbol.parameters?, *]

theorem opened_introduce (ledger : Ledger) (target : DeclarationTarget) (name : String)
    (symbol : Symbol) :
    (ledger.introduce target name symbol).scopes.opened = ledger.scopes.opened := by
  simp only [introduce]
  rcases Scopes.bind_cases ledger.scopes target name ledger.symbols.size with
    ⟨_, bound⟩ | ⟨_, _, _, _, bound⟩ <;> rw [bound]

theorem currentBlock_introduce (ledger : Ledger) (target : DeclarationTarget) (name : String)
    (symbol : Symbol) :
    (ledger.introduce target name symbol).scopes.currentBlock = ledger.scopes.currentBlock := by
  simp only [introduce]
  rcases Scopes.bind_cases ledger.scopes target name ledger.symbols.size with
    ⟨_, bound⟩ | ⟨scope, outer, form, _, bound⟩ <;> rw [bound]
  · rfl
  · simp [Scopes.currentBlock, form]

theorem run_parameters (ledger : Ledger) (namings : List TypedName) :
    ∃ more : List Symbol,
      (ledger.run (namings.map .parameter)).symbols = ledger.symbols ++ more.toArray ∧
        more.length = namings.length ∧ ∀ parameter ∈ more,
          parameter.isParameter = true ∧ parameter.block = ledger.scopes.currentBlock := by
  induction namings generalizing ledger with
  | nil => exact ⟨[], by simp, rfl, by simp⟩
  | cons naming rest induction =>
      obtain ⟨more, stored, length, each⟩ := induction (ledger.apply (.parameter naming))
      rw [apply, currentBlock_introduce] at each
      refine ⟨ledger.localSymbol .parameter naming :: more, ?_, by rw [List.length_cons, length,
        List.length_cons], List.forall_mem_cons.mpr ⟨⟨rfl, rfl⟩, each⟩⟩
      rw [List.map_cons, run_cons, stored]
      simp [apply, introduce]

structure IsWhole (ledger : Ledger) : Prop where
  kept : ledger.IsKept
  settled : IsSettled ledger.symbols

namespace IsWhole

variable {ledger : Ledger}

theorem start : IsWhole {} :=
  ⟨.start, .start⟩

theorem apply (whole : ledger.IsWhole) {change : Change} (plain : change.isFunction = false) :
    (ledger.apply change).IsWhole := by
  obtain ⟨more, stored, none⟩ := ledger.apply_plain plain
  refine ⟨whole.kept.apply change, ?_⟩
  rw [stored]
  exact whole.settled.append whole.kept.blocks none

theorem run (whole : ledger.IsWhole) {changes : List Change}
    (plain : ∀ change ∈ changes, change.isFunction = false) : (ledger.run changes).IsWhole := by
  induction changes generalizing ledger with
  | nil => exact whole
  | cons change rest induction =>
      rw [List.forall_mem_cons] at plain
      exact induction (whole.apply plain.1) plain.2

theorem heading (whole : ledger.IsWhole) (naming : TypedName) (isPrototype : Bool)
    (parameters : Tree) :
    (ledger.run (Tree.headingChanges naming isPrototype parameters)).IsWhole := by
  let namings := parameters.children.filterMap Tree.naming?
  let function := ledger.functionSymbol naming isPrototype namings.length
  let inside := (ledger.introduce .file naming.name function).apply .enter
  obtain ⟨more, stored, length, each⟩ := inside.run_parameters namings
  refine ⟨whole.kept.run _, ?_⟩
  have symbols : (ledger.run (Tree.headingChanges naming isPrototype parameters)).symbols =
      ledger.symbols ++ (function :: more).toArray := by
    have behind : (ledger.run (Tree.headingChanges naming isPrototype parameters)).symbols =
        (inside.run (namings.map .parameter)).symbols := by
      simp only [Tree.headingChanges, List.cons_append, run_cons, run_append]
      rfl
    rw [behind, stored]
    simp [inside, Ledger.apply, introduce]
  have opened : inside.scopes.currentBlock = ledger.scopes.opened + 1 :=
    congrArg (· + 1) (ledger.opened_introduce ..)
  rw [symbols]
  refine whole.settled.heading whole.kept.blocks ?_ ?_
  · rw [length]
    rfl
  · rwa [opened] at each

private theorem changesAll {trees : List Tree}
    (each : ∀ tree ∈ trees, ∀ ledger : Ledger, ledger.IsWhole → (ledger.run tree.changes).IsWhole)
    (whole : ledger.IsWhole) : (ledger.run (Tree.changesAll trees)).IsWhole := by
  induction trees generalizing ledger with
  | nil => exact whole
  | cons tree rest induction =>
      rw [List.forall_mem_cons] at each
      rw [Tree.changesAll, run_append]
      exact induction each.2 (each.1 ledger whole)

theorem changes (tree : Tree) (whole : ledger.IsWhole) : (ledger.run tree.changes).IsWhole := by
  induction tree using Tree.statementInduction generalizing ledger with
  | root location text note children induction =>
      rw [Tree.changes]
      exact changesAll (fun child member _ => induction child member) whole
  | block location text note children induction =>
      rw [Tree.changes, List.cons_append, run_cons, run_append]
      have entered : (ledger.apply .enter).IsWhole := whole.apply rfl
      have inside := changesAll (fun child member _ => induction child member) entered
      exact inside.run (by simp [Change.isFunction])
  | function location text note declarator parameters rest induction =>
      rw [Tree.changes]
      cases declarator.naming? with
      | none => exact whole
      | some naming =>
          have inside := whole.heading naming false parameters
          rw [run_append, run_append]
          refine run ?_ (by simp [Change.isFunction])
          rcases rest with _ | ⟨⟨kind, place, word, bodyNote, children⟩, rest⟩
          · exact inside
          · exact changesAll (fun child member _ => induction _ List.mem_cons_self child member)
              inside
  | prototype location text note declarator parameters rest =>
      rw [Tree.changes]
      cases declarator.naming? with
      | none => exact whole
      | some naming =>
          rw [run_append]
          exact (whole.heading naming true parameters).run (by simp [Change.isFunction])
  | control kind location text note test bodies control induction =>
      rw [Tree.changes_control control]
      exact changesAll (fun body member _ => induction body member) whole
  | simple tree simple =>
      rw [Tree.changes_simple simple]
      refine whole.run ?_
      unfold Tree.simpleChanges
      split
      · split <;> simp [Change.isFunction]
      · simp [Change.isFunction]
      · simp

end IsWhole

end Ledger

/-! ## Ledgers only grow -/

namespace Ledger

structure LeadsTo (before after : Ledger) : Prop where
  symbols : Grows before.symbols after.symbols
  log : before.log <+: after.log

theorem apply_leadsTo (ledger : Ledger) (change : Change) :
    ledger.LeadsTo (ledger.apply change) := by
  cases change with
  | enter => exact ⟨.refl _, List.prefix_rfl⟩
  | leave =>
      simp only [apply]
      split <;> exact ⟨.refl _, List.prefix_rfl⟩
  | separate => exact ⟨.refl _, List.prefix_append ..⟩
  | struct name place fields =>
      exact ⟨(Grows.append _ _).trans (.push _ _), List.prefix_append ..⟩
  | _ => exact ⟨.push _ _, List.prefix_append ..⟩

theorem run_leadsTo (ledger : Ledger) (changes : List Change) :
    ledger.LeadsTo (ledger.run changes) := by
  induction changes generalizing ledger with
  | nil => exact ⟨.refl _, List.prefix_rfl⟩
  | cons change rest induction =>
      have first := ledger.apply_leadsTo change
      have others := induction (ledger.apply change)
      exact ⟨first.symbols.trans others.symbols, first.log.trans others.log⟩

namespace IsKept

variable {ledger after : Ledger} (kept : ledger.IsKept)

include kept

/-- What the open tables hold can still be told later. -/
theorem tables (leads : ledger.LeadsTo after) :
    ledger.scopes.globals = scopeTable after.symbols ledger.log 0 ∧
      ∀ scope ∈ ledger.scopes.inner,
        scope.table = scopeTable after.symbols ledger.log scope.block := by
  have same (block : Nat) := scopeTable_grows kept.arranged.fit leads.symbols block
  exact ⟨kept.globals.trans (same 0).symm,
    fun scope member => (kept.inner scope member).trans (same _).symm⟩

theorem declares {change : Change} {naming : TypedName}
    (kind : change = .variable naming ∨ change = .parameter naming)
    (leads : (ledger.apply change).LeadsTo after) :
    ∃ symbol, after.symbols[ledger.symbols.size]? = some symbol ∧
      ∀ earlier, symbol.replaces? = some earlier ↔
        symbol.TakesOver after.symbols (ledger.scopes.bound? .innermost naming.name) earlier := by
  obtain ⟨role, isLocal, applied⟩ : ∃ role : Option Nat → SymbolRole,
      (role = .variable ∨ role = .parameter) ∧ ledger.apply change =
        ledger.introduce .innermost naming.name (ledger.localSymbol role naming) := by
    rcases kind with rfl | rfl
    · exact ⟨.variable, .inl rfl, rfl⟩
    · exact ⟨.parameter, .inr rfl, rfl⟩
  have grows := leads.symbols
  rw [applied] at grows
  refine ⟨_, grows _ _ Array.getElem?_push_size, fun earlier => ?_⟩
  rw [kept.replaces?_localSymbol isLocal, Symbol.takesOver_grows ((Grows.push _ _).trans grows)]
  intro held
  rw [kept.bound?_eq] at held
  obtain ⟨_, old, stored, _⟩ := find?_scopeTable held
  exact ⟨old, stored⟩

end IsKept

end Ledger

/-! ## The whole analysis -/

def TakenOver (symbols : Array Symbol) (log : List LogEntry) (id earlier : Nat) (symbol : Symbol) :
    Prop :=
  ∃ before name depth after, log = before ++ .symbol name id depth :: after ∧
    symbol.TakesOver symbols ((scopeTable symbols before symbol.block).find? name) earlier

namespace IsArranged

variable {symbols : Array Symbol} {log : List LogEntry}

theorem increasing (arranged : IsArranged symbols log) :
    (log.filterMap LogEntry.id?).Pairwise (· < ·) := by
  rw [arranged.ids]
  exact List.pairwise_lt_range.filter _

theorem mem_ids_iff (arranged : IsArranged symbols log) (id : Nat) :
    id ∈ log.filterMap LogEntry.id? ↔
      ∃ symbol, symbols[id]? = some symbol ∧ symbol.isField = false := by
  rw [arranged.ids, shownIds, List.mem_filter, List.mem_range]
  constructor
  · rintro ⟨bound, shown⟩
    simpa [bound] using shown
  · rintro ⟨symbol, stored, shown⟩
    exact ⟨(Array.getElem?_eq_some_iff.mp stored).1, by simp [stored, shown]⟩

theorem logged (arranged : IsArranged symbols log) {id : Nat} {symbol : Symbol}
    (stored : symbols[id]? = some symbol) (isVariable : symbol.isVariable = true) :
    ∃ name depth, .symbol name id depth ∈ log := by
  have ordinary : symbol.isField = false ∧ symbol.fields? = none := by
    simp only [Symbol.isVariable, Symbol.isField, Symbol.fields?] at isVariable ⊢
    cases role : symbol.role <;> simp_all [SymbolRole.roles]
  have shown := (arranged.mem_ids_iff id).mpr ⟨symbol, stored, ordinary.1⟩
  obtain ⟨entry, member, number⟩ := List.mem_filterMap.mp shown
  cases entry with
  | symbol name other depth =>
      obtain rfl : other = id := by simpa [LogEntry.id?] using number
      exact ⟨name, depth, member⟩
  | struct name other =>
      obtain rfl : other = id := by simpa [LogEntry.id?] using number
      obtain ⟨same, isStored, isStruct⟩ := arranged.fit _ member
      obtain rfl : same = symbol := Option.some_inj.mp (isStored.symm.trans stored)
      simp [ordinary.2] at isStruct
  | separator => contradiction

theorem replaces_iff (arranged : IsArranged symbols log) {id : Nat} {symbol : Symbol}
    (stored : symbols[id]? = some symbol) (earlier : Nat) :
    symbol.replaces? = some earlier ↔ TakenOver symbols log id earlier symbol := by
  constructor
  · intro replaced
    have isVariable : symbol.isVariable = true := by
      simp only [Symbol.replaces?, Symbol.isVariable] at replaced ⊢
      cases role : symbol.role <;> simp_all [SymbolRole.roles]
    obtain ⟨name, depth, member⟩ := arranged.logged stored isVariable
    obtain ⟨before, after, split⟩ := List.append_of_mem member
    exact ⟨before, name, depth, after, split,
      (arranged.replaces before name id depth after split symbol stored earlier).mp replaced⟩
  · rintro ⟨before, name, depth, after, split, takesOver⟩
    exact (arranged.replaces before name id depth after split symbol stored earlier).mpr takesOver

/-- What is taken over from was logged before, and lies in the same scope. -/
theorem replaced (arranged : IsArranged symbols log) {id : Nat} {symbol : Symbol}
    (stored : symbols[id]? = some symbol) {earlier : Nat}
    (replaced : symbol.replaces? = some earlier) :
    earlier < id ∧ ∃ old, symbols[earlier]? = some old ∧ old.block = symbol.block := by
  obtain ⟨before, name, depth, after, split, _, held, _⟩ :=
    (arranged.replaces_iff stored earlier).mp replaced
  obtain ⟨⟨earlierDepth, member⟩, old, wasStored, here⟩ := find?_scopeTable held
  have increasing := arranged.increasing
  rw [split, List.filterMap_append, List.pairwise_append] at increasing
  have before : earlier < id :=
    increasing.2.2 earlier (List.mem_filterMap.mpr ⟨_, member, rfl⟩) id (by simp [LogEntry.id?])
  exact ⟨before, old, wasStored, here⟩

end IsArranged

theorem IsArranged.mem_scopeTable {symbols : Array Symbol} {log : List LogEntry}
    (arranged : IsArranged symbols log) {block : Nat} {entry : String × Nat}
    (member : entry ∈ (scopeTable symbols log block).entries) :
    ∃ symbol, symbols[entry.2]? = some symbol ∧ symbol.block = block ∧
      (symbol.isFunction = true ∨ symbol.isVariable = true) := by
  obtain ⟨⟨depth, logged⟩, symbol, stored, here⟩ := OcLang.mem_scopeTable member
  obtain ⟨same, isStored, kind⟩ := arranged.fit _ logged
  obtain rfl : same = symbol := Option.some_inj.mp (isStored.symm.trans stored)
  exact ⟨same, stored, here, kind⟩

structure Arranged (tree : Tree) (analysis : Analysis) : Prop where
  booked : let ledger := ({} : Ledger).run tree.changes
    analysis.symbols = ledger.symbols ∧ analysis.globals = ledger.scopes.globals ∧
      analysis.log = ledger.log
  increasing : (analysis.log.filterMap LogEntry.id?).Pairwise (· < ·)
  logged : ∀ id, id ∈ analysis.log.filterMap LogEntry.id? ↔
    ∃ symbol, analysis.symbols[id]? = some symbol ∧ symbol.isField = false
  globals : ∀ entry ∈ analysis.globals.entries, ∃ symbol,
    analysis.symbols[entry.2]? = some symbol ∧ symbol.block = 0 ∧
      (symbol.isFunction = true ∨ symbol.isVariable = true)
  parameters : ∀ function ∈ analysis.symbols, ∃ block, block ≠ 0 ∧
    function.ParametersLieIn analysis.symbols block
  apart : ∀ (first second : Nat) (function other : Symbol),
    analysis.symbols[first]? = some function → analysis.symbols[second]? = some other →
      first ≠ second → ∀ id ∈ function.parameters, ∀ otherId ∈ other.parameters, id ≠ otherId ∧
        analysis.symbols[id]?.map (·.block) ≠ analysis.symbols[otherId]?.map (·.block)
  fields : ∀ symbol ∈ analysis.symbols, ∀ table ∈ symbol.fields?,
    table.HoldsFields analysis.symbols
  replaces : ∀ (id : Nat) (symbol : Symbol), analysis.symbols[id]? = some symbol →
    ∀ earlier, symbol.replaces? = some earlier ↔
      TakenOver analysis.symbols analysis.log id earlier symbol
  replaced : ∀ (id : Nat) (symbol : Symbol), analysis.symbols[id]? = some symbol →
    ∀ earlier ∈ symbol.replaces?, earlier < id ∧
      ∃ old, analysis.symbols[earlier]? = some old ∧ old.block = symbol.block
  /-- At every point of the walk the log so far tells what the open tables hold. -/
  tables : ∀ before, before <+: tree.changes →
    let ledger := ({} : Ledger).run before
    ledger.log <+: analysis.log ∧
      ledger.scopes.globals = scopeTable analysis.symbols ledger.log 0 ∧
      ∀ scope ∈ ledger.scopes.inner,
        scope.table = scopeTable analysis.symbols ledger.log scope.block
  declared : ∀ before change after naming, tree.changes = before ++ change :: after →
    (change = .variable naming ∨ change = .parameter naming) →
      let ledger := ({} : Ledger).run before
      ∃ symbol, analysis.symbols[ledger.symbols.size]? = some symbol ∧
        ∀ earlier, symbol.replaces? = some earlier ↔
          symbol.TakesOver analysis.symbols (ledger.scopes.bound? .innermost naming.name) earlier

/-- Whatever the form of a tree, the parts of its analysis belong together. -/
theorem analyze_arranged (tree : Tree) : Arranged tree (analyze tree).2 := by
  have booked := analyze_books tree
  have whole := Ledger.IsWhole.start.changes tree
  have leads (before after : List Change) (all : tree.changes = before ++ after) :
      (({} : Ledger).run before).LeadsTo (({} : Ledger).run tree.changes) := by
    rw [all, Ledger.run_append]
    exact Ledger.run_leadsTo _ after
  generalize all : ({} : Ledger).run tree.changes = ledger at booked whole leads
  obtain ⟨symbols, globals, log⟩ := booked
  have arranged := whole.kept.arranged
  exact {
    booked := by rw [all]; exact ⟨symbols, globals, log⟩
    increasing := by rw [log]; exact arranged.increasing
    logged := by rw [log, symbols]; exact arranged.mem_ids_iff
    globals := by
      rw [globals, symbols, whole.kept.globals]
      exact fun _ member => arranged.mem_scopeTable member
    parameters := by rw [symbols]; exact whole.settled.settled
    apart := by
      rw [symbols]
      exact fun _ _ _ _ isFirst isSecond different _ listed _ otherListed =>
        whole.settled.disjoint isFirst isSecond different listed otherListed
    fields := by rw [symbols]; exact arranged.fields
    replaces := by rw [symbols, log]; exact fun _ _ stored => arranged.replaces_iff stored
    replaced := by rw [symbols]; exact fun _ _ stored _ => arranged.replaced stored
    tables := by
      rintro before ⟨after, all⟩
      have later := leads before after all.symm
      rw [symbols, log]
      exact ⟨later.log, (Ledger.IsKept.start.run before).tables later⟩
    declared := by
      intro before change after naming all kind
      rw [symbols]
      refine (Ledger.IsKept.start.run before).declares kind ?_
      simpa using leads (before ++ [change]) after (by simpa using all) }

end OcLang
