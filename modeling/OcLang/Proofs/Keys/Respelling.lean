import OcLang.Analysis
import OcLang.Proofs.Tree.Nodewise

namespace OcLang

/-! # Other spellings

A tree and everything that the analysis keeps can be spelled in another way: the
same structure, with another text for each name. Where two names are spelled
alike just when they were before, everything that only compares names finds the
same as before. -/

/-! ## Respelling -/

def ValueType.respell (spell : String → String) (type : ValueType) : ValueType :=
  { type with structName := type.structName.map spell }

def Note.respell (spell : String → String) (note : Note) : Note :=
  { note with structName := note.structName.map spell }

def Tree.respell (spell : String → String) (tree : Tree) : Tree :=
  tree.mapNodes spell (Note.respell spell)

def Table.respell (spell : String → String) (table : Table) : Table :=
  { entries := table.entries.map fun entry => (spell entry.1, entry.2) }

def SymbolRole.respell (spell : String → String) : SymbolRole → SymbolRole
  | .struct fields => .struct (fields.respell spell)
  | role => role

def Symbol.respell (spell : String → String) (symbol : Symbol) : Symbol :=
  { symbol with type := symbol.type.respell spell, role := symbol.role.respell spell }

def Scope.respell (spell : String → String) (scope : Scope) : Scope :=
  { scope with table := scope.table.respell spell }

def Scopes.respell (spell : String → String) (scopes : Scopes) : Scopes :=
  { scopes with
    globals := scopes.globals.respell spell
    inner := scopes.inner.map (Scope.respell spell) }

def LogEntry.respell (spell : String → String) : LogEntry → LogEntry
  | .symbol name id depth => .symbol (spell name) id depth
  | .struct name id => .struct (spell name) id
  | .separator => .separator

def AnalysisState.respell (spell : String → String) (state : AnalysisState) : AnalysisState :=
  { state with
    symbols := state.symbols.map (Symbol.respell spell)
    scopes := state.scopes.respell spell
    structs := state.structs.respell spell
    log := state.log.map (LogEntry.respell spell) }

def Analysis.respell (spell : String → String) (analysis : Analysis) : Analysis :=
  { analysis with
    symbols := analysis.symbols.map (Symbol.respell spell)
    globals := analysis.globals.respell spell
    structs := analysis.structs.respell spell
    log := analysis.log.map (LogEntry.respell spell) }

/-! ## There and back -/

section

variable {spell back : String → String} (inverse : ∀ name, back (spell name) = name)

include inverse

theorem map_map_of_inverse (name : Option String) : (name.map spell).map back = name := by
  cases name <;> simp [inverse]

theorem ValueType.respell_respell (type : ValueType) :
    (type.respell spell).respell back = type := by
  simp only [respell, map_map_of_inverse inverse]

theorem Note.respell_respell (note : Note) : (note.respell spell).respell back = note := by
  simp only [respell, map_map_of_inverse inverse]

theorem Tree.respell_respell (tree : Tree) : (tree.respell spell).respell back = tree := by
  induction tree using Tree.induction with
  | node tree induction =>
      obtain ⟨kind, location, text, note, children⟩ := tree
      have below : children.map (fun child => (child.respell spell).respell back) = children :=
        (List.map_congr_left induction).trans (List.map_id _)
      simpa [respell, mapNodes_mk, Function.comp_def, inverse, Note.respell_respell inverse]
        using below

theorem Table.respell_respell (table : Table) : (table.respell spell).respell back = table := by
  simp [respell, Function.comp_def, inverse]

theorem Symbol.respell_respell (symbol : Symbol) :
    (symbol.respell spell).respell back = symbol := by
  obtain ⟨type, role, location, block⟩ := symbol
  cases role <;>
    simp [respell, SymbolRole.respell, ValueType.respell_respell inverse,
      Table.respell_respell inverse]

theorem LogEntry.respell_respell (entry : LogEntry) :
    (entry.respell spell).respell back = entry := by
  cases entry <;> simp [respell, inverse]

theorem Analysis.respell_respell (analysis : Analysis) :
    (analysis.respell spell).respell back = analysis := by
  simp [respell, Function.comp_def, Symbol.respell_respell inverse,
    Table.respell_respell inverse, LogEntry.respell_respell inverse]

end

/-! ## What does not read names -/

section

variable (spell : String → String)

@[simp] theorem Note.attributes_respell (note : Note) :
    (note.respell spell).attributes = note.attributes := rfl

@[simp] theorem Note.symbol_respell (note : Note) :
    (note.respell spell).symbol = note.symbol := rfl

@[simp] theorem Note.type_respell (note : Note) :
    (note.respell spell).type = note.type.respell spell := rfl

@[simp] theorem Note.isTyped_respell (note : Note) :
    (note.respell spell).isTyped = note.isTyped := rfl

@[simp] theorem Note.respell_add (note : Note) (attributes : Attributes) :
    (note.add attributes).respell spell = (note.respell spell).add attributes := rfl

@[simp] theorem Note.respell_addType (note : Note) (type : ValueType) (roles : Roles) :
    (note.addType type roles).respell spell =
      (note.respell spell).addType (type.respell spell) roles := rfl

@[simp] theorem ValueType.flags_respell (type : ValueType) :
    (type.respell spell).flags = type.flags := rfl

@[simp] theorem ValueType.structName_respell (type : ValueType) :
    (type.respell spell).structName = type.structName.map spell := rfl

@[simp] theorem ValueType.isTyped_respell (type : ValueType) :
    (type.respell spell).isTyped = type.isTyped := rfl

@[simp] theorem SymbolRole.roles_respell (role : SymbolRole) :
    (role.respell spell).roles = role.roles := by
  cases role <;> rfl

namespace Symbol

variable (symbol : Symbol)

@[simp] theorem type_respell : (symbol.respell spell).type = symbol.type.respell spell := rfl

@[simp] theorem location_respell : (symbol.respell spell).location = symbol.location := rfl

@[simp] theorem role_respell : (symbol.respell spell).role = symbol.role.respell spell := rfl

@[simp] theorem isVariable_respell : (symbol.respell spell).isVariable = symbol.isVariable := by
  simp [isVariable]

@[simp] theorem isFunction_respell : (symbol.respell spell).isFunction = symbol.isFunction := by
  simp [isFunction]

@[simp] theorem isPrototype_respell :
    (symbol.respell spell).isPrototype = symbol.isPrototype := by
  obtain ⟨type, role, location, block⟩ := symbol
  cases role <;> rfl

@[simp] theorem parameters_respell : (symbol.respell spell).parameters = symbol.parameters := by
  obtain ⟨type, role, location, block⟩ := symbol
  cases role <;> rfl

@[simp] theorem fields?_respell :
    (symbol.respell spell).fields? = symbol.fields?.map (Table.respell spell) := by
  obtain ⟨type, role, location, block⟩ := symbol
  cases role <;> rfl

end Symbol

namespace Tree

@[simp] theorem respell_mk (kind : Kind) (location : Location) (text : String) (note : Note)
    (children : List Tree) :
    respell spell ⟨kind, location, text, note, children⟩ =
      ⟨kind, location, spell text, note.respell spell, children.map (respell spell)⟩ :=
  mapNodes_mk spell _ kind location text note children

variable (tree : Tree)

@[simp] theorem kind_respell : (tree.respell spell).kind = tree.kind :=
  mapNodes_kind spell _ tree

@[simp] theorem location_respell : (tree.respell spell).location = tree.location :=
  mapNodes_location spell _ tree

@[simp] theorem text_respell : (tree.respell spell).text = spell tree.text :=
  mapNodes_text spell _ tree

@[simp] theorem note_respell : (tree.respell spell).note = tree.note.respell spell :=
  mapNodes_note spell _ tree

@[simp] theorem children_respell :
    (tree.respell spell).children = tree.children.map (respell spell) :=
  mapNodes_children spell _ tree

@[simp] theorem declaredName?_respell :
    (tree.respell spell).declaredName? = tree.declaredName?.map (respell spell) :=
  declaredName?_mapNodes spell _ tree

@[simp] theorem hasArrayMark_respell :
    (tree.respell spell).hasArrayMark = tree.hasArrayMark :=
  hasArrayMark_mapNodes spell _ tree

theorem respell_mapNote {change changed : Note → Note}
    (same : ∀ note, (change note).respell spell = changed (note.respell spell)) :
    (tree.mapNote change).respell spell = (tree.respell spell).mapNote changed := by
  cases tree
  simp [mapNote, same]

theorem mapNote_add_respell (attributes : Attributes) :
    (tree.respell spell).mapNote (·.add attributes) =
      (tree.mapNote (·.add attributes)).respell spell :=
  (respell_mapNote spell tree fun note => note.respell_add spell attributes).symm

theorem respell_mapDeclaredName {change changed : Tree → Tree}
    (same : ∀ name, (change name).respell spell = changed (name.respell spell)) :
    (tree.mapDeclaredName change).respell spell =
      (tree.respell spell).mapDeclaredName changed := by
  obtain ⟨kind, location, text, note, children⟩ := tree
  rw [respell_mk, ← map_mapDeclaredName (respell spell) change changed same (kind_respell spell)
    kind location (spell text) (note.respell spell) ⟨kind, location, text, note, children⟩]
  exact respell_mk spell kind location text note _

end Tree

@[simp] theorem Table.names_respell (table : Table) :
    (table.respell spell).names = table.names.map spell := by
  simp [names, respell]

namespace Scopes

variable (scopes : Scopes)

@[simp] theorem currentBlock_respell :
    (scopes.respell spell).currentBlock = scopes.currentBlock := by
  obtain ⟨globals, _ | ⟨scope, outer⟩, opened⟩ := scopes <;> rfl

@[simp] theorem depth_respell : (scopes.respell spell).depth = scopes.depth :=
  List.length_map _

theorem exit_respell :
    (scopes.respell spell).exit = scopes.exit.map (respell spell) := by
  obtain ⟨globals, _ | ⟨scope, outer⟩, opened⟩ := scopes <;> rfl

theorem visibleNames_respell :
    (scopes.respell spell).visibleNames = scopes.visibleNames.map spell := by
  simp [visibleNames, respell, Scope.respell, List.map_flatMap, List.flatMap_map,
    ← List.map_reverse]

end Scopes

theorem Analysis.symbol_respell (analysis : Analysis) (id : Nat) :
    (analysis.respell spell).symbol id = (analysis.symbol id).respell spell := by
  simp only [symbol, respell, Array.getElem?_map]
  cases analysis.symbols[id]? <;> rfl

namespace AnalysisState

variable (state : AnalysisState)

theorem symbol_respell (id : Nat) :
    (state.respell spell).symbol id = (state.symbol id).respell spell := by
  simp only [symbol, respell, Array.getElem?_map]
  cases state.symbols[id]? <;> rfl

@[simp] theorem scopes_respell :
    (state.respell spell).scopes = state.scopes.respell spell := rfl

@[simp] theorem structs_respell :
    (state.respell spell).structs = state.structs.respell spell := rfl

@[simp] theorem symbols_size_respell :
    (state.respell spell).symbols.size = state.symbols.size :=
  Array.size_map

end AnalysisState

end

/-! ## What compares names -/

section

variable {spell : String → String} (injective : Function.Injective spell)

include injective

theorem Table.find?_respell (table : Table) (name : String) :
    (table.respell spell).find? (spell name) = table.find? name := by
  obtain ⟨entries⟩ := table
  simp only [find?, respell]
  induction entries with
  | nil => rfl
  | cons entry rest induction =>
      have sameTest : (spell name == spell entry.1) = (name == entry.1) := by
        rw [Bool.eq_iff_iff, beq_iff_eq, beq_iff_eq]
        exact injective.eq_iff
      rw [List.map_cons, List.lookup_cons, List.lookup_cons, sameTest, induction]

theorem Table.insert_respell (table : Table) (name : String) (symbol : Nat) :
    (table.respell spell).insert (spell name) symbol = (table.insert name symbol).respell spell :=
  insert_map injective name symbol table.entries

/-- Two names that may be missing are equal just when they were before. -/
theorem map_beq_map (first second : Option String) :
    (first.map spell == second.map spell) = (first == second) := by
  rw [Bool.eq_iff_iff, beq_iff_eq, beq_iff_eq]
  exact (Option.map_injective injective).eq_iff

theorem ValueType.compatible_respell (first second : ValueType) :
    (first.respell spell).compatible (second.respell spell) = first.compatible second := by
  simp only [compatible, flags_respell, structName_respell, map_beq_map injective]

namespace Scopes

variable (scopes : Scopes) (name : String)

theorem bound?_respell (target : DeclarationTarget) :
    (scopes.respell spell).bound? target (spell name) = scopes.bound? target name := by
  obtain ⟨globals, _ | ⟨scope, outer⟩, opened⟩ := scopes <;> cases target <;>
    exact Table.find?_respell injective _ name

theorem bind_respell (target : DeclarationTarget) (symbol : Nat) :
    (scopes.respell spell).bind target (spell name) symbol =
      (scopes.bind target name symbol).respell spell := by
  obtain ⟨globals, _ | ⟨scope, outer⟩, opened⟩ := scopes <;> cases target <;>
    simp [bind, respell, Scope.respell, Table.insert_respell injective]

theorem find?_respell : (scopes.respell spell).find? (spell name) = scopes.find? name := by
  simp [find?, respell, Scope.respell, Table.find?_respell injective, List.findSome?_map,
    Function.comp_def]

end Scopes

end

end OcLang
