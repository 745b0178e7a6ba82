import OcLang.Proofs.Analysis.Invariant
import OcLang.Proofs.Analysis.Ledger
import OcLang.Proofs.Scoping.Discipline

namespace OcLang

/-! # How stored symbols, tables and log belong together

Symbols are stored, bound, logged and linked to the variables they take over from in different
orders by different declarations. However they are mixed, the log lists the symbols in the order
of their numbers, and the tables of the scopes can be read off the log. -/

namespace Symbol

def isField (symbol : Symbol) : Bool :=
  symbol.role.roles.isField

def isParameter (symbol : Symbol) : Bool :=
  symbol.role.roles.isParameter

def TakesOver (symbol : Symbol) (symbols : Array Symbol) (held : Option Nat) (earlier : Nat) :
    Prop :=
  symbol.isVariable = true ∧ held = some earlier ∧
    ∃ old, symbols[earlier]? = some old ∧ old.isVariable = true

theorem takesOver_grows {symbol : Symbol} {symbols more : Array Symbol} {held : Option Nat}
    {earlier : Nat} (grows : Grows symbols more)
    (known : held = some earlier → ∃ old, symbols[earlier]? = some old) :
    symbol.TakesOver more held earlier ↔ symbol.TakesOver symbols held earlier := by
  refine and_congr_right fun _ => and_congr_right fun found => ?_
  obtain ⟨old, stored⟩ := known found
  rw [stored, grows _ _ stored]

end Symbol

namespace LogEntry

def Fits (symbols : Array Symbol) : LogEntry → Prop
  | .symbol _ id _ =>
      ∃ symbol, symbols[id]? = some symbol ∧ (symbol.isFunction = true ∨ symbol.isVariable = true)
  | .struct _ id => ∃ symbol, symbols[id]? = some symbol ∧ symbol.fields?.isSome = true
  | .separator => True

def binding? (symbols : Array Symbol) (block : Nat) : LogEntry → Option (String × Nat)
  | .symbol name id _ =>
      if symbols[id]?.any (·.block = block) then some (name, id) else none
  | .struct _ _ | .separator => none

section

variable {symbols more : Array Symbol} {entry : LogEntry}

theorem Fits.grows (fits : entry.Fits symbols) (grows : Grows symbols more) :
    entry.Fits more := by
  cases entry with
  | separator => trivial
  | symbol | struct =>
      obtain ⟨symbol, stored, kind⟩ := fits
      exact ⟨symbol, grows _ _ stored, kind⟩

theorem binding?_grows (fits : entry.Fits symbols) (grows : Grows symbols more) (block : Nat) :
    entry.binding? more block = entry.binding? symbols block := by
  cases entry with
  | symbol name id depth =>
      obtain ⟨symbol, stored, _⟩ := fits
      simp only [binding?, stored, grows _ _ stored]
  | struct | separator => rfl

theorem binding?_eq_some {block : Nat} {name : String} {id : Nat}
    (bound : entry.binding? symbols block = some (name, id)) :
    (∃ depth, entry = .symbol name id depth) ∧
      ∃ symbol, symbols[id]? = some symbol ∧ symbol.block = block := by
  cases entry with
  | symbol other number depth =>
      simp only [binding?, Option.any_eq_true, decide_eq_true_eq, Option.ite_none_right_eq_some,
        Option.some.injEq, Prod.mk.injEq] at bound
      obtain ⟨here, rfl, rfl⟩ := bound
      exact ⟨⟨depth, rfl⟩, here⟩
  | struct | separator => contradiction

end

end LogEntry

/-! ## The tables that a log tells of -/

def scopeTable (symbols : Array Symbol) (log : List LogEntry) (block : Nat) : Table :=
  ({} : Table).insertAll (log.filterMap (LogEntry.binding? symbols block))

theorem Table.mem_entries_insertAll {table : Table} {bindings : List (String × Nat)}
    {entry : String × Nat} (member : entry ∈ (table.insertAll bindings).entries) :
    entry ∈ bindings ∨ entry ∈ table.entries := by
  induction bindings generalizing table with
  | nil => exact .inr member
  | cons binding rest induction =>
      rcases induction member with later | earlier
      · exact .inl (List.mem_cons_of_mem _ later)
      · rcases mem_entries_insert earlier with rfl | old
        · exact .inl List.mem_cons_self
        · exact .inr old

section

variable {symbols more : Array Symbol} {log : List LogEntry} {block : Nat}

theorem mem_scopeTable {name : String} {id : Nat}
    (member : (name, id) ∈ (scopeTable symbols log block).entries) :
    (∃ depth, .symbol name id depth ∈ log) ∧
      ∃ symbol, symbols[id]? = some symbol ∧ symbol.block = block := by
  rcases Table.mem_entries_insertAll member with bound | none
  · obtain ⟨entry, logged, bound⟩ := List.mem_filterMap.mp bound
    obtain ⟨⟨depth, rfl⟩, here⟩ := LogEntry.binding?_eq_some bound
    exact ⟨⟨depth, logged⟩, here⟩
  · contradiction

theorem find?_scopeTable {name : String} {id : Nat}
    (found : (scopeTable symbols log block).find? name = some id) :
    (∃ depth, .symbol name id depth ∈ log) ∧
      ∃ symbol, symbols[id]? = some symbol ∧ symbol.block = block :=
  mem_scopeTable (Table.mem_entries_of_find? found)

/-- Symbols that are stored later are in no table yet. -/
theorem scopeTable_grows (fit : ∀ entry ∈ log, entry.Fits symbols) (grows : Grows symbols more)
    (block : Nat) : scopeTable more log block = scopeTable symbols log block := by
  unfold scopeTable
  rw [List.filterMap_congr fun entry member =>
    LogEntry.binding?_grows (fit entry member) grows block]

theorem scopeTable_append_silent {entries : List LogEntry}
    (silent : entries.filterMap (LogEntry.binding? symbols block) = []) :
    scopeTable symbols (log ++ entries) block = scopeTable symbols log block := by
  rw [scopeTable, List.filterMap_append, silent, List.append_nil, scopeTable]

theorem scopeTable_append_symbol {name : String} {id depth : Nat} {symbol : Symbol}
    (stored : symbols[id]? = some symbol) :
    scopeTable symbols (log ++ [.symbol name id depth]) block =
      if symbol.block = block then (scopeTable symbols log block).insert name id
      else scopeTable symbols log block := by
  split <;> rename_i here <;>
    simp [scopeTable, List.filterMap_append, LogEntry.binding?, stored, here]

end

/-! ## Symbols and log -/

def shownIds (symbols : Array Symbol) : List Nat :=
  (List.range symbols.size).filter fun id => symbols[id]?.any (!·.isField)

theorem shownIds_push (symbols : Array Symbol) (symbol : Symbol) :
    shownIds (symbols.push symbol) =
      shownIds symbols ++ if symbol.isField then [] else [symbols.size] := by
  have earlier : (List.range symbols.size).filter
      (fun id => (symbols.push symbol)[id]?.any (!·.isField)) = shownIds symbols := by
    apply List.filter_congr
    intro id member
    rw [Array.getElem?_push, if_neg (List.mem_range.mp member).ne]
  rw [shownIds, Array.size_push, List.range_succ, List.filter_append, earlier]
  cases field : symbol.isField <;> simp [field]

def Table.HoldsFields (table : Table) (symbols : Array Symbol) : Prop :=
  ∀ entry ∈ table.entries,
    ∃ field, symbols[entry.2]? = some field ∧ field.isField = true ∧ field.block = 0

structure IsArranged (symbols : Array Symbol) (log : List LogEntry) : Prop where
  ids : log.filterMap LogEntry.id? = shownIds symbols
  fit : ∀ entry ∈ log, entry.Fits symbols
  fields : ∀ symbol ∈ symbols, ∀ table ∈ symbol.fields?, table.HoldsFields symbols
  /-- The table that held the earlier variable is read off what was logged before. -/
  replaces : ∀ before name id depth after, log = before ++ .symbol name id depth :: after →
    ∀ symbol, symbols[id]? = some symbol → ∀ earlier, symbol.replaces? = some earlier ↔
      symbol.TakesOver symbols ((scopeTable symbols before symbol.block).find? name) earlier

namespace IsArranged

variable {symbols : Array Symbol} {log : List LogEntry}

theorem start : IsArranged #[] [] where
  ids := rfl
  fit := by simp
  fields := by simp
  replaces := by simp

/-- What was held earlier is not affected by what is stored later. -/
theorem replaces_grows (arranged : IsArranged symbols log) {more : Array Symbol}
    (grows : Grows symbols more) {before after : List LogEntry} {name : String} {id depth : Nat}
    (split : log = before ++ .symbol name id depth :: after) {symbol : Symbol}
    (stored : more[id]? = some symbol) (earlier : Nat) :
    symbol.replaces? = some earlier ↔ symbol.TakesOver more
      ((scopeTable more before symbol.block).find? name) earlier := by
  have fits := arranged.fit
  rw [split, List.forall_mem_append, List.forall_mem_cons] at fits
  obtain ⟨old, wasStored, _⟩ := fits.2.1
  have same : old = symbol := Option.some_inj.mp ((grows _ _ wasStored).symm.trans stored)
  subst same
  rw [arranged.replaces before name id depth after split old wasStored earlier,
    scopeTable_grows fits.1 grows, Symbol.takesOver_grows grows]
  intro held
  obtain ⟨_, holder, known, _⟩ := find?_scopeTable held
  exact ⟨holder, known⟩

/-- What has been logged is not affected by what is stored later. -/
theorem extend (arranged : IsArranged symbols log) {more : Array Symbol} {entries : List LogEntry}
    (grows : Grows symbols more)
    (ids : shownIds symbols ++ entries.filterMap LogEntry.id? = shownIds more)
    (fit : ∀ entry ∈ entries, entry.Fits more)
    (fields : ∀ symbol ∈ more, symbol ∈ symbols ∨
      ∀ table ∈ symbol.fields?, table.HoldsFields more)
    (replaces : ∀ before name id depth after, entries = before ++ .symbol name id depth :: after →
      ∀ symbol, more[id]? = some symbol → ∀ earlier, symbol.replaces? = some earlier ↔
        symbol.TakesOver more ((scopeTable more (log ++ before) symbol.block).find? name)
          earlier) :
    IsArranged more (log ++ entries) where
  ids := by rw [List.filterMap_append, arranged.ids, ids]
  fit := List.forall_mem_append.mpr
    ⟨fun entry member => (arranged.fit entry member).grows grows, fit⟩
  fields symbol member table here entry inside := by
    rcases fields symbol member with old | new
    · obtain ⟨field, stored, kind⟩ := arranged.fields symbol old table here entry inside
      exact ⟨field, grows _ _ stored, kind⟩
    · exact new table here entry inside
  replaces before name id depth after split symbol stored earlier := by
    rcases List.append_eq_append_iff.mp split with ⟨middle, rfl, inEntries⟩ | ⟨middle, inLog, rest⟩
    · exact replaces middle name id depth after inEntries symbol stored earlier
    · rcases middle with _ | ⟨first, middle⟩
      · rw [List.append_nil] at inLog
        subst inLog
        simpa using replaces [] name id depth after rest.symm symbol stored earlier
      · rw [List.cons_append, List.cons.injEq] at rest
        obtain ⟨rfl, rfl⟩ := rest
        exact arranged.replaces_grows grows inLog stored earlier

/-- An entry that shows no symbol leaves the tables as they are. -/
theorem separate (arranged : IsArranged symbols log) :
    IsArranged symbols (log ++ [.separator]) := by
  refine arranged.extend (.refl symbols) (by simp [LogEntry.id?]) (by simp [LogEntry.Fits])
    (fun _ => .inl) ?_
  intro before name id depth after split
  rcases before with _ | ⟨first, _ | ⟨second, before⟩⟩ <;> simp at split

theorem storeField (arranged : IsArranged symbols log) {symbol : Symbol}
    (isField : symbol.role = .field) : IsArranged (symbols.push symbol) log := by
  have isShown : symbol.isField = true := by simp [Symbol.isField, isField, SymbolRole.roles]
  have extended : IsArranged (symbols.push symbol) (log ++ []) := by
    refine arranged.extend (.push symbols symbol) ?_ (by simp) ?_ (by simp)
    · rw [shownIds_push, if_pos isShown]
      rfl
    · intro other member
      refine (Array.mem_push.mp member).imp_right ?_
      rintro rfl table isTable
      simp [Symbol.fields?, isField] at isTable
  rwa [List.append_nil] at extended

theorem storeStruct (arranged : IsArranged symbols log) (name : String) (place : Location)
    {fields : Table} (held : fields.HoldsFields symbols) :
    IsArranged (symbols.push (.ofStruct name place fields))
      (log ++ [.struct name symbols.size, .separator]) := by
  refine arranged.extend (.push symbols _) ?_ ?_ ?_ ?_
  · rw [shownIds_push]
    rfl
  · simp [LogEntry.Fits, Symbol.ofStruct, Symbol.fields?]
  · intro other member
    refine (Array.mem_push.mp member).imp_right ?_
    rintro rfl table isTable entry inside
    obtain rfl : fields = table := by simpa [Symbol.ofStruct, Symbol.fields?] using isTable
    obtain ⟨field, stored, kind⟩ := held entry inside
    exact ⟨field, Grows.push _ _ _ _ stored, kind⟩
  · intro before other id depth after split
    rcases before with _ | ⟨first, _ | ⟨second, _ | ⟨third, before⟩⟩⟩ <;> simp at split

theorem introduce (arranged : IsArranged symbols log) (name : String) (depth : Nat)
    {symbol : Symbol} (kind : symbol.isFunction = true ∨ symbol.isVariable = true)
    (replaces : ∀ earlier, symbol.replaces? = some earlier ↔
      symbol.TakesOver symbols ((scopeTable symbols log symbol.block).find? name) earlier) :
    IsArranged (symbols.push symbol) (log ++ [.symbol name symbols.size depth]) := by
  have ordinary : symbol.isField = false ∧ symbol.fields? = none := by
    simp only [Symbol.isFunction, Symbol.isVariable, Symbol.isField, Symbol.fields?] at kind ⊢
    cases role : symbol.role <;> simp_all [SymbolRole.roles]
  refine arranged.extend (.push symbols _) ?_ ?_ ?_ ?_
  · rw [shownIds_push, ordinary.1]
    rfl
  · simpa [LogEntry.Fits] using kind
  · intro other member
    refine (Array.mem_push.mp member).imp_right ?_
    rintro rfl table isTable
    simp [ordinary.2] at isTable
  · intro before other id deep after split current stored earlier
    rcases before with _ | ⟨first, before⟩
    · simp only [List.nil_append, List.cons.injEq, LogEntry.symbol.injEq] at split
      obtain ⟨⟨rfl, rfl, rfl⟩, -⟩ := split
      obtain rfl : symbol = current := by simpa using stored
      rw [replaces, List.append_nil, scopeTable_grows arranged.fit (.push _ _),
        Symbol.takesOver_grows (.push _ _)]
      intro held
      obtain ⟨_, holder, known, _⟩ := find?_scopeTable held
      exact ⟨holder, known⟩
    · simp at split

end IsArranged

/-! ## Tables and log -/

theorem Scopes.bind_cases (scopes : Scopes) (target : DeclarationTarget) (name : String)
    (id : Nat) :
    (scopes.blockOf target = 0 ∧
      scopes.bind target name id = { scopes with globals := scopes.globals.insert name id }) ∨
    ∃ scope outer, scopes.inner = scope :: outer ∧ scopes.blockOf target = scope.block ∧
      scopes.bind target name id =
        { scopes with inner := { scope with table := scope.table.insert name id } :: outer } := by
  rcases scopes with ⟨globals, _ | ⟨scope, outer⟩, opened⟩ <;> cases target
  · exact .inl ⟨rfl, rfl⟩
  · exact .inl ⟨rfl, rfl⟩
  · exact .inl ⟨rfl, rfl⟩
  · exact .inr ⟨scope, outer, rfl, rfl, rfl⟩

structure Ledger.IsKept (ledger : Ledger) : Prop where
  arranged : IsArranged ledger.symbols ledger.log
  globals : ledger.scopes.globals = scopeTable ledger.symbols ledger.log 0
  inner : ∀ scope ∈ ledger.scopes.inner,
    scope.table = scopeTable ledger.symbols ledger.log scope.block
  nested : (ledger.scopes.inner.map Scope.block ++ [0]).Pairwise (· > ·)
  begun : ∀ scope ∈ ledger.scopes.inner, scope.block ≤ ledger.scopes.opened
  blocks : ∀ symbol ∈ ledger.symbols, symbol.block ≤ ledger.scopes.opened

namespace Ledger.IsKept

variable {ledger : Ledger}

theorem start : IsKept {} where
  arranged := .start
  globals := rfl
  inner := by simp
  nested := by simp
  begun := by simp
  blocks := by simp

theorem block_pos (kept : ledger.IsKept) {scope : Scope}
    (member : scope ∈ ledger.scopes.inner) : 0 < scope.block :=
  (List.pairwise_append.mp kept.nested).2.2 _ (List.mem_map_of_mem member) 0
    (List.mem_singleton_self 0)

/-- Nothing lies in a scope that is still to be opened. -/
theorem scopeTable_unopened (kept : ledger.IsKept) {block : Nat}
    (unopened : ledger.scopes.opened < block) :
    scopeTable ledger.symbols ledger.log block = {} := by
  have none : ledger.log.filterMap (LogEntry.binding? ledger.symbols block) = [] := by
    apply List.filterMap_eq_nil_iff.mpr
    intro entry logged
    apply Option.eq_none_iff_forall_ne_some.mpr
    rintro ⟨name, id⟩ bound
    obtain ⟨_, symbol, stored, here⟩ := LogEntry.binding?_eq_some bound
    have opened := kept.blocks symbol (Array.mem_of_getElem? stored)
    omega
  rw [scopeTable, none]
  rfl

theorem enter (kept : ledger.IsKept) : (ledger.apply .enter).IsKept where
  arranged := kept.arranged
  globals := kept.globals
  inner := by
    refine List.forall_mem_cons.mpr ⟨?_, kept.inner⟩
    exact (kept.scopeTable_unopened (Nat.lt_succ_self _)).symm
  nested := by
    refine List.pairwise_cons.mpr ⟨?_, kept.nested⟩
    intro block member
    rcases List.mem_append.mp member with inside | file
    · obtain ⟨scope, isOpen, rfl⟩ := List.mem_map.mp inside
      exact Nat.lt_succ_of_le (kept.begun scope isOpen)
    · rw [List.mem_singleton.mp file]
      exact Nat.succ_pos _
  begun := List.forall_mem_cons.mpr
    ⟨Nat.le_refl _, fun scope member => Nat.le_succ_of_le (kept.begun scope member)⟩
  blocks symbol member := Nat.le_succ_of_le (kept.blocks symbol member)

theorem leave (kept : ledger.IsKept) : (ledger.apply .leave).IsKept := by
  rcases ledger with ⟨symbols, ⟨globals, inner, opened⟩, log⟩
  cases inner with
  | nil => exact kept
  | cons scope outer => exact {
      kept with
      inner := (List.forall_mem_cons.mp kept.inner).2
      nested := (List.pairwise_cons.mp kept.nested).2
      begun := (List.forall_mem_cons.mp kept.begun).2 }

/-- Symbols that are stored without a name leave the tables as they are. -/
theorem store (kept : ledger.IsKept) {symbol : Symbol} {entries : List LogEntry}
    (arranged : IsArranged (ledger.symbols.push symbol) (ledger.log ++ entries))
    (silent : ∀ symbols block, entries.filterMap (LogEntry.binding? symbols block) = [])
    (unplaced : symbol.block = 0) :
    IsKept { ledger with
      symbols := ledger.symbols.push symbol
      log := ledger.log ++ entries } := by
  have same (block : Nat) : scopeTable (ledger.symbols.push symbol) (ledger.log ++ entries) block =
      scopeTable ledger.symbols ledger.log block := by
    rw [scopeTable_append_silent (silent _ _), scopeTable_grows kept.arranged.fit (.push _ _)]
  exact {
    kept with
    arranged
    globals := by rw [same, kept.globals]
    inner := fun scope member => by rw [same, kept.inner scope member]
    blocks := fun other member => by
      rcases Array.mem_push.mp member with old | rfl
      · exact kept.blocks other old
      · rw [unplaced]
        exact Nat.zero_le _ }

theorem storeFields (kept : ledger.IsKept) (fields : List TypedName) :
    (ledger.storeFields fields).IsKept := by
  induction fields generalizing ledger with
  | nil => rwa [storeFields_nil]
  | cons naming rest induction =>
      have field : IsArranged (ledger.symbols.push (fieldSymbol naming)) (ledger.log ++ []) := by
        rw [List.append_nil]
        exact kept.arranged.storeField rfl
      have first := kept.store field (fun _ _ => rfl) rfl
      have stored := induction first
      simpa [Ledger.storeFields] using stored

/-- The fields are the symbols that were stored just before their struct. -/
theorem fieldTable_holdsFields (ledger : Ledger) (fields : List TypedName) :
    (fieldTable ledger.symbols.size {} fields).HoldsFields (ledger.storeFields fields).symbols := by
  have numbered (stored : Nat) (table : Table) (entry : String × Nat)
      (member : entry ∈ (fieldTable stored table fields).entries) :
      entry ∈ table.entries ∨ stored ≤ entry.2 ∧ entry.2 < stored + fields.length := by
    induction fields generalizing stored table with
    | nil => exact .inl member
    | cons naming rest induction =>
        rw [List.length_cons]
        rcases induction _ _ member with earlier | later
        · rcases Table.mem_entries_insert earlier with rfl | old
          · exact .inr (by simp)
          · exact .inl old
        · exact .inr (by omega)
  intro entry member
  rcases numbered _ _ entry member with none | ⟨least, most⟩
  · contradiction
  · have bound : entry.2 - ledger.symbols.size < fields.length := by omega
    refine ⟨fieldSymbol fields[entry.2 - ledger.symbols.size], ?_, rfl, rfl⟩
    simp only [Ledger.storeFields, Array.getElem?_append_right least]
    simp [bound]

theorem storeStruct (kept : ledger.IsKept) (name : String) (place : Location)
    (fields : List TypedName) : (ledger.storeStruct name place fields).IsKept := by
  have stored := kept.storeFields fields
  exact stored.store
    (stored.arranged.storeStruct name place (fieldTable_holdsFields ledger fields))
    (fun _ _ => rfl) rfl

theorem separate (kept : ledger.IsKept) : (ledger.apply .separate).IsKept := by
  have same (block : Nat) : scopeTable ledger.symbols (ledger.log ++ [.separator]) block =
      scopeTable ledger.symbols ledger.log block := scopeTable_append_silent rfl
  exact {
    kept with
    arranged := kept.arranged.separate
    globals := kept.globals.trans (same 0).symm
    inner := fun scope member => (kept.inner scope member).trans (same _).symm }

theorem bound?_eq (kept : ledger.IsKept) (target : DeclarationTarget) (name : String) :
    ledger.scopes.bound? target name =
      (scopeTable ledger.symbols ledger.log (ledger.scopes.blockOf target)).find? name := by
  have inner := kept.inner
  have globals := kept.globals
  rcases ledger with ⟨symbols, ⟨_, _ | ⟨scope, outer⟩, opened⟩, log⟩
  · cases target <;> exact congrArg (·.find? name) globals
  · cases target with
    | file => exact congrArg (·.find? name) globals
    | innermost => exact congrArg (·.find? name) (List.forall_mem_cons.mp inner).1

theorem replaced?_eq_some (kept : ledger.IsKept) (name : String) (earlier : Nat) :
    ledger.replaced? name = some earlier ↔
      ledger.scopes.bound? .innermost name = some earlier ∧
        ∃ old, ledger.symbols[earlier]? = some old ∧ old.isVariable = true := by
  rw [replaced?, Option.filter_eq_some_iff]
  refine and_congr_right fun held => ?_
  rw [kept.bound?_eq] at held
  obtain ⟨_, old, stored, _⟩ := find?_scopeTable held
  simp [stored]

theorem introduce (kept : ledger.IsKept) {target : DeclarationTarget} {name : String}
    {symbol : Symbol} (kind : symbol.isFunction = true ∨ symbol.isVariable = true)
    (here : symbol.block = ledger.scopes.blockOf target)
    (replaces : ∀ earlier, symbol.replaces? = some earlier ↔
      symbol.TakesOver ledger.symbols (ledger.scopes.bound? target name) earlier) :
    (ledger.introduce target name symbol).IsKept := by
  have arranged : IsArranged (ledger.introduce target name symbol).symbols
      (ledger.introduce target name symbol).log := by
    refine kept.arranged.introduce name _ kind ?_
    rwa [here, ← kept.bound?_eq]
  have tables (block : Nat) : scopeTable (ledger.introduce target name symbol).symbols
      (ledger.introduce target name symbol).log block =
        if symbol.block = block then
          (scopeTable ledger.symbols ledger.log block).insert name ledger.symbols.size
        else scopeTable ledger.symbols ledger.log block := by
    simp only [Ledger.introduce]
    rw [scopeTable_append_symbol Array.getElem?_push_size,
      scopeTable_grows kept.arranged.fit (.push _ _)]
  rcases Scopes.bind_cases ledger.scopes target name ledger.symbols.size with
    ⟨file, bound⟩ | ⟨scope, outer, form, innermost, bound⟩
  -- A name at file scope leaves the open scopes alone; any other changes the innermost one only.
  · have blocks (other : Symbol) (member : other ∈ ledger.symbols.push symbol) :
        other.block ≤ ledger.scopes.opened := by
      rcases Array.mem_push.mp member with old | rfl
      · exact kept.blocks other old
      · rw [here, file]
        exact Nat.zero_le _
    have apart (other : Scope) (member : other ∈ ledger.scopes.inner) :
        symbol.block ≠ other.block := by
      have positive := kept.block_pos member
      omega
    exact {
      arranged
      globals := by
        rw [tables, if_pos (here.trans file), ← kept.globals]
        simp only [Ledger.introduce, bound]
      inner := by
        simp only [Ledger.introduce, bound] at tables ⊢
        intro other member
        rw [tables, if_neg (apart other member), kept.inner other member]
      nested := by
        simpa only [Ledger.introduce, bound] using kept.nested
      begun := by
        simpa only [Ledger.introduce, bound] using kept.begun
      blocks := by
        simpa only [Ledger.introduce, bound] using blocks }
  · have isOpen : scope ∈ ledger.scopes.inner := by
      rw [form]
      exact List.mem_cons_self
    have blocks (other : Symbol) (member : other ∈ ledger.symbols.push symbol) :
        other.block ≤ ledger.scopes.opened := by
      rcases Array.mem_push.mp member with old | rfl
      · exact kept.blocks other old
      · rw [here, innermost]
        exact kept.begun scope isOpen
    have nested := kept.nested
    have inner := kept.inner
    have begun := kept.begun
    rw [form, List.map_cons, List.cons_append] at nested
    rw [form, List.forall_mem_cons] at inner begun
    have apart (other : Scope) (member : other ∈ outer) : symbol.block ≠ other.block := by
      have later := (List.pairwise_cons.mp nested).1 other.block
        (List.mem_append_left _ (List.mem_map_of_mem member))
      omega
    exact {
      arranged
      globals := by
        have positive := kept.block_pos isOpen
        rw [tables, if_neg (by omega), ← kept.globals]
        simp only [Ledger.introduce, bound]
      inner := by
        simp only [Ledger.introduce, bound] at tables ⊢
        refine List.forall_mem_cons.mpr ⟨?_, fun other member => ?_⟩
        · rw [tables, if_pos (here.trans innermost), inner.1]
        · rw [tables, if_neg (apart other member), inner.2 other member]
      nested := by
        simp only [Ledger.introduce, bound]
        exact nested
      begun := by
        simp only [Ledger.introduce, bound]
        exact List.forall_mem_cons.mpr begun
      blocks := by
        simpa only [Ledger.introduce, bound] using blocks }

section

variable {role : Option Nat → SymbolRole} (kind : role = .variable ∨ role = .parameter)

include kind

omit ledger in
theorem isVariable_localSymbol (ledger : Ledger) (naming : TypedName) :
    (ledger.localSymbol role naming).isVariable = true := by
  rcases kind with rfl | rfl <;> rfl

theorem replaces?_localSymbol (kept : ledger.IsKept) (naming : TypedName) (earlier : Nat) :
    (ledger.localSymbol role naming).replaces? = some earlier ↔
      (ledger.localSymbol role naming).TakesOver ledger.symbols
        (ledger.scopes.bound? .innermost naming.name) earlier := by
  have replaces : (ledger.localSymbol role naming).replaces? = ledger.replaced? naming.name := by
    rcases kind with rfl | rfl <;> rfl
  rw [replaces, kept.replaced?_eq_some, Symbol.TakesOver, isVariable_localSymbol kind]
  simp

theorem introduceLocal (kept : ledger.IsKept) (naming : TypedName) :
    (ledger.introduce .innermost naming.name (ledger.localSymbol role naming)).IsKept :=
  kept.introduce (.inr (isVariable_localSymbol kind ledger naming)) rfl
    (kept.replaces?_localSymbol kind naming)

end

theorem apply (kept : ledger.IsKept) (change : Change) : (ledger.apply change).IsKept := by
  cases change with
  | enter => exact kept.enter
  | leave => exact kept.leave
  | separate => exact kept.separate
  | function naming isPrototype parameters =>
      refine kept.introduce (.inl rfl) rfl fun earlier => ?_
      constructor
      · intro replaced
        contradiction
      · rintro ⟨isVariable, -⟩
        contradiction
  | parameter naming => exact kept.introduceLocal (.inr rfl) naming
  | «variable» naming => exact kept.introduceLocal (.inl rfl) naming
  | struct name place fields => exact kept.storeStruct name place fields

theorem run (kept : ledger.IsKept) (changes : List Change) : (ledger.run changes).IsKept := by
  induction changes generalizing ledger with
  | nil => exact kept
  | cons change rest induction => exact induction (kept.apply change)

end Ledger.IsKept

end OcLang
