import OcLang.Proofs.Analysis.Strict
import OcLang.Proofs.Scoping.Steps

namespace OcLang

/-! # Numbers that have been given out

A number gets into the tables, into the log, and into other symbols only after
its symbol was stored. The parameters of a function are the one exception: the
function refers to them while they are still to be stored. -/

/-! ## Where numbers occur -/

namespace Table

def ids (table : Table) : List Nat :=
  table.entries.map (·.2)

section

variable {table : Table} {name : String} {id : Nat}

theorem mem_ids_of_find? (found : table.find? name = some id) : id ∈ table.ids :=
  List.mem_map_of_mem (mem_entries_of_find? found)

theorem mem_ids_insert {other : Nat} (member : other ∈ (table.insert name id).ids) :
    other = id ∨ other ∈ table.ids := by
  rcases List.mem_map.mp member with ⟨entry, inside, rfl⟩
  rcases mem_entries_insert inside with rfl | earlier
  · exact .inl rfl
  · exact .inr (List.mem_map_of_mem earlier)

end

namespace LiesIn

variable {table : Table} {symbols more : Array Symbol} {block : Nat}

theorem grows (lies : table.LiesIn symbols block) (grows : Grows symbols more) :
    table.LiesIn more block := by
  intro entry member
  rcases Option.map_eq_some_iff.mp (lies entry member) with ⟨symbol, stored, here⟩
  rw [grows _ _ stored, Option.map_some, here]

theorem insert (lies : table.LiesIn symbols block) {name : String} {id : Nat} {symbol : Symbol}
    (stored : symbols[id]? = some symbol) (here : symbol.block = block) :
    (table.insert name id).LiesIn symbols block := by
  intro entry member
  rcases mem_entries_insert member with rfl | earlier
  · rw [stored, Option.map_some, here]
  · exact lies entry earlier

theorem find? (lies : table.LiesIn symbols block) {name : String} {id : Nat}
    (found : table.find? name = some id) :
    ∃ symbol, symbols[id]? = some symbol ∧ symbol.block = block :=
  Option.map_eq_some_iff.mp (lies (name, id) (mem_entries_of_find? found))

end LiesIn

end Table

def Symbol.links (symbol : Symbol) : List Nat :=
  match symbol.role with
  | .variable replaces | .parameter replaces => replaces.toList
  | .field => []
  | .struct fields => fields.ids
  | .function parameters _ => parameters

namespace Symbol

variable (symbol : Symbol) {id : Nat}

theorem mem_links_of_parameter (member : id ∈ symbol.parameters) : id ∈ symbol.links := by
  unfold parameters parameters? at member
  unfold links
  cases role : symbol.role <;> simp_all

theorem mem_links_of_field {name : String}
    (selected : symbol.fields?.bind (·.find? name) = some id) : id ∈ symbol.links := by
  rcases Option.bind_eq_some_iff.mp selected with ⟨table, fields, found⟩
  unfold fields? at fields
  unfold links
  cases role : symbol.role <;> simp_all [Table.mem_ids_of_find? found]

end Symbol

def LogEntry.id? : LogEntry → Option Nat
  | .symbol _ id _ | .struct _ id => some id
  | .separator => none

/-! ## Sound states -/

def Scopes.blockOf (scopes : Scopes) : DeclarationTarget → Nat
  | .file => 0
  | .innermost => scopes.currentBlock

namespace AnalysisState

/-- All numbers have been given out, except for so many that are given out next. -/
structure IsSound (pending : Nat) (state : AnalysisState) : Prop where
  tables : state.IsScoped
  structs : ∀ id ∈ state.structs.ids, id < state.symbols.size
  log : ∀ entry ∈ state.log, ∀ id ∈ entry.id?, id < state.symbols.size
  links : ∀ symbol ∈ state.symbols, ∀ id ∈ symbol.links, id < state.symbols.size + pending

namespace IsSound

variable {pending : Nat} {state : AnalysisState}

theorem start : IsSound 0 {} where
  tables := ⟨by simp [Table.LiesIn], by simp⟩
  structs := by simp [Table.ids]
  log := by simp
  links := by simp

theorem reporting (sound : state.IsSound pending) (problems : List Problem) :
    (state.reporting problems).IsSound pending :=
  { sound with tables := ⟨sound.tables.globals, sound.tables.inner⟩ }

theorem logged (sound : state.IsSound pending) (entry : LogEntry)
    (stored : ∀ id ∈ entry.id?, id < state.symbols.size) :
    IsSound pending { state with log := state.log ++ [entry] } where
  tables := ⟨sound.tables.globals, sound.tables.inner⟩
  structs := sound.structs
  log := by
    intro other member
    rcases List.mem_append.mp member with earlier | here
    · exact sound.log other earlier
    · rw [List.mem_singleton.mp here]
      exact stored
  links := sound.links

theorem registered (sound : state.IsSound pending) (name : String) {id : Nat}
    (stored : id < state.symbols.size) :
    IsSound pending { state with structs := state.structs.insert name id } where
  tables := ⟨sound.tables.globals, sound.tables.inner⟩
  structs := by
    intro other member
    rcases Table.mem_ids_insert member with rfl | earlier
    · exact stored
    · exact sound.structs other earlier
  log := sound.log
  links := sound.links

theorem allocated (sound : state.IsSound pending) {symbol : Symbol} {remaining : Nat}
    (announced : ∀ id ∈ symbol.links, id < state.symbols.size + 1 + remaining)
    (enough : pending ≤ remaining + 1) :
    IsSound remaining { state with symbols := state.symbols.push symbol } where
  tables :=
    ⟨sound.tables.globals.grows (.push _ _),
      fun scope member => (sound.tables.inner scope member).grows (.push _ _)⟩
  structs := by
    intro id member
    have earlier := sound.structs id member
    rw [Array.size_push]
    omega
  log := by
    intro entry member id logged
    have earlier := sound.log entry member id logged
    rw [Array.size_push]
    omega
  links := by
    intro other member id link
    rw [Array.size_push]
    rcases Array.mem_push.mp member with earlier | rfl
    · have known := sound.links other earlier id link
      omega
    · exact announced id link

theorem bound (sound : state.IsSound pending) {target : DeclarationTarget} (name : String)
    {id : Nat} {symbol : Symbol} (stored : state.symbols[id]? = some symbol)
    (here : symbol.block = state.scopes.blockOf target) :
    IsSound pending { state with scopes := state.scopes.bind target name id } where
  tables := by
    have globals (file : state.scopes.blockOf target = 0) :
        (state.scopes.globals.insert name id).LiesIn state.symbols 0 :=
      sound.tables.globals.insert stored (here.trans file)
    have inner := sound.tables.inner
    cases target with
    | file => exact ⟨globals rfl, inner⟩
    | innermost =>
        cases form : state.scopes.inner with
        | nil =>
            have file : state.scopes.blockOf .innermost = 0 := by
              simp [Scopes.blockOf, Scopes.currentBlock, form]
            rw [form] at inner
            simp only [Scopes.bind, form]
            exact ⟨globals file, by simp⟩
        | cons scope outer =>
            have innermost : symbol.block = scope.block := by
              simpa [Scopes.blockOf, Scopes.currentBlock, form] using here
            simp only [Scopes.bind, form]
            rw [form, List.forall_mem_cons] at inner
            exact ⟨sound.tables.globals,
              List.forall_mem_cons.mpr ⟨inner.1.insert stored innermost, inner.2⟩⟩
  structs := sound.structs
  log := sound.log
  links := sound.links

theorem entered (sound : state.IsSound pending) :
    IsSound pending { state with scopes := state.scopes.enter } :=
  { sound with
    tables := ⟨sound.tables.globals,
      List.forall_mem_cons.mpr ⟨by simp [Table.LiesIn], sound.tables.inner⟩⟩ }

theorem left (sound : state.IsSound pending) {scope : Scope} {outer : List Scope}
    (form : state.scopes.inner = scope :: outer) :
    IsSound pending { state with scopes := { state.scopes with inner := outer } } := by
  have inner := sound.tables.inner
  rw [form, List.forall_mem_cons] at inner
  exact { sound with tables := ⟨sound.tables.globals, inner.2⟩ }

/-! ### Names find symbols -/

section

variable {name : String} {id : Nat}

theorem find?_stored (sound : state.IsSound pending) (found : state.scopes.find? name = some id) :
    ∃ symbol, state.symbols[id]? = some symbol := by
  rw [Scopes.find?, Option.or_eq_some_iff] at found
  rcases found with inside | outside
  · rcases List.exists_of_findSome?_eq_some inside with ⟨scope, member, here⟩
    rcases (sound.tables.inner scope member).find? here with ⟨symbol, stored, _⟩
    exact ⟨symbol, stored⟩
  · rcases sound.tables.globals.find? outside.2 with ⟨symbol, stored, _⟩
    exact ⟨symbol, stored⟩

theorem globals_stored (sound : state.IsSound pending)
    (found : state.scopes.globals.find? name = some id) :
    ∃ symbol, state.symbols[id]? = some symbol := by
  rcases sound.tables.globals.find? found with ⟨symbol, stored, _⟩
  exact ⟨symbol, stored⟩

theorem bound?_stored (sound : state.IsSound pending) {target : DeclarationTarget}
    (found : state.scopes.bound? target name = some id) :
    ∃ symbol, state.symbols[id]? = some symbol := by
  unfold Scopes.bound? at found
  split at found
  · rename_i scope outer form
    have member : scope ∈ state.scopes.inner := by
      rw [form]
      exact List.mem_cons_self
    rcases (sound.tables.inner scope member).find? found with ⟨symbol, stored, _⟩
    exact ⟨symbol, stored⟩
  · exact sound.globals_stored found

theorem structs_stored (sound : state.IsSound pending)
    (found : state.structs.find? name = some id) : ∃ symbol, state.symbols[id]? = some symbol :=
  ⟨_, Array.getElem?_eq_getElem (sound.structs id (Table.mem_ids_of_find? found))⟩

theorem link_stored (sound : state.IsSound 0) {other : Nat} {symbol : Symbol}
    (stored : state.symbols[other]? = some symbol) (link : id ∈ symbol.links) :
    ∃ linked, state.symbols[id]? = some linked :=
  ⟨_, Array.getElem?_eq_getElem (sound.links symbol (Array.mem_of_getElem? stored) id link)⟩

end

end IsSound

end AnalysisState

end OcLang
