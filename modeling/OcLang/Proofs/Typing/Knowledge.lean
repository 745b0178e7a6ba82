import Mathlib.Data.List.Forall2
import OcLang.Proofs.Scoping.Steps
import OcLang.Proofs.Tree.Walk
import OcLang.Proofs.Typing.Types

namespace OcLang

/-! # What an analysis has seen

Calls are checked against the functions and prototypes that have been met, and
selections against the structs. Here that is read off the annotated nodes, and
the tables of the analysis are said to show the same. -/

/-! ## Declarations -/

structure Signature where
  name : String
  symbol : Nat
  parameters : List ValueType
  isPrototype : Bool
deriving DecidableEq

structure Record where
  name : String
  symbol : Nat
  declarators : List Tree

inductive Declared where
  | function (signature : Signature)
  | struct (record : Record)

def Tree.declared? (node : Tree) : Option Declared :=
  match node.kind, node.children with
  | .struct, name :: declarators =>
      if name.kind == .type .named then
        name.note.symbol.map fun symbol => .struct { name := name.text, symbol, declarators }
      else none
  | .function, declarator :: parameters :: _ | .prototype, declarator :: parameters :: _ =>
      declarator.declaredName?.bind fun name => name.note.symbol.map fun symbol =>
        .function {
          name := name.text
          symbol
          parameters := parameters.children.map (·.note.type)
          isPrototype := node.kind == .prototype }
  | _, _ => none

theorem Tree.kind_of_struct {node : Tree} {record : Record}
    (declares : node.declared? = some (.struct record)) : node.kind = .struct := by
  unfold declared? at declares
  split at declares
  case h_1 isStruct _ => exact isStruct
  case h_4 => contradiction
  all_goals
    rcases Option.bind_eq_some_iff.mp declares with ⟨name, _, here⟩
    rcases Option.map_eq_some_iff.mp here with ⟨id, _, same⟩
    contradiction

namespace Record

def fields (record : Record) : List Tree :=
  record.declarators.filterMap Tree.declaredName?

def lists (record : Record) (name : String) : Prop :=
  ∃ field ∈ record.fields, field.text = name

def selects (record : Record) (node : Tree) : Prop :=
  ∃ field ∈ record.fields, field.text = node.text ∧
    ∃ id, field.note.symbol = some id ∧ node.note.symbol = some id

theorem lists_of_selects {record : Record} {node : Tree} (selects : record.selects node) :
    record.lists node.text := by
  rcases selects with ⟨field, member, same, _⟩
  exact ⟨field, member, same⟩

end Record

def Declared.structNamed? (name : String) : Declared → Option Nat
  | .struct record => if record.name = name then some record.symbol else none
  | .function _ => none

def Declared.structSymbol? : Declared → Option Nat
  | .struct record => some record.symbol
  | .function _ => none

/-! ## What fits together -/

/-- A value may be returned where the enclosing function, if there is one, wants
a certain type. It fits if that type is one of the language. -/
def Returns (result : Option ValueType) (actual : ValueType) : Prop :=
  ∃ expected, result = some expected ∧ expected.flags.void = false ∧
    (expected.IsProper → expected.Meets actual)

namespace Tree

/-- Values flow where they fit, calls go to known functions and selections to known
structs. Structs and functions are declared. -/
def Fits (known : List Declared) (node : Tree) : Prop :=
  match node.kind, node.children with
  | .variable, _ :: value :: _ => node.note.type.Meets value.note.type
  | .assign, [target, value] => target.note.type.Meets value.note.type
  | .binary operator, [left, right] =>
      operator.isEquality = true → left.note.type.Meets right.note.type
  | .call, callee :: arguments =>
      ∃ signature, .function signature ∈ known ∧ signature.name = callee.text ∧
        callee.note.symbol = some signature.symbol ∧
        signature.parameters.Forall₂ ValueType.Meets (arguments.map (·.note.type))
  | .select, [object, field] =>
      ∃ record, .struct record ∈ known ∧ object.note.structName = some record.name ∧
        record.selects field
  | .struct, _ => node.declared?.isSome
  | .function, _ :: _ :: body :: _ =>
      node.declared?.isSome ∧ node.note.type.IsProper ∧
        ∀ value ∈ returnedAmong body.children, Returns node.note.type value.note.type
  | _, _ => True

theorem Fits.mono {known more : List Declared} (subset : known ⊆ more) {node : Tree}
    (fits : node.Fits known) : node.Fits more := by
  revert fits
  unfold Fits
  split
  case h_4 =>
    rintro ⟨signature, member, rest⟩
    exact ⟨signature, subset member, rest⟩
  case h_5 =>
    rintro ⟨record, member, rest⟩
    exact ⟨record, subset member, rest⟩
  all_goals exact id

end Tree

/-! ## Symbols of declarations -/

def Signature.RecordedIn (signature : Signature) (symbols : Array Symbol) : Prop :=
  ∃ symbol parameters, symbols[signature.symbol]? = some symbol ∧
    symbol.role = .function parameters signature.isPrototype ∧
    parameters.Forall₂ (fun id type => ∃ stored, symbols[id]? = some stored ∧ stored.type = type)
      signature.parameters

structure Table.Tabulates (table : Table) (fields : List Tree) : Prop where
  distinct : table.names.Nodup
  names : ∀ field ∈ fields, field.text ∈ table.names
  held : ∀ name id, table.find? name = some id → ∃ field ∈ fields, field.note.symbol = some id
  same : ∀ name id, table.find? name = some id →
    ∀ field ∈ fields, field.note.symbol = some id → field.text = name

def Record.RecordedIn (record : Record) (symbols : Array Symbol) : Prop :=
  ∃ symbol table, symbols[record.symbol]? = some symbol ∧ symbol.role = .struct table ∧
    table.Tabulates record.fields ∧
    ∀ field ∈ record.fields, ∀ id, field.note.symbol = some id →
      ∃ stored, symbols[id]? = some stored ∧ stored.role = .field

def Declared.RecordedIn (symbols : Array Symbol) : Declared → Prop
  | .function signature => signature.RecordedIn symbols
  | .struct record => record.RecordedIn symbols

theorem Grows.declared {first second : Array Symbol} (grows : Grows first second)
    {declared : Declared} (recorded : declared.RecordedIn first) : declared.RecordedIn second := by
  cases declared with
  | function signature =>
      rcases recorded with ⟨symbol, parameters, stored, role, types⟩
      refine ⟨symbol, parameters, grows _ _ stored, role, types.imp ?_⟩
      intro id type held
      rcases held with ⟨parameter, known, same⟩
      exact ⟨parameter, grows _ _ known, same⟩
  | struct record =>
      rcases recorded with ⟨symbol, table, stored, role, tabulates, held⟩
      refine ⟨symbol, table, grows _ _ stored, role, tabulates, ?_⟩
      intro field member id noted
      rcases held field member id noted with ⟨symbol, known, isField⟩
      exact ⟨symbol, grows _ _ known, isField⟩

/-! ## States that grow -/

namespace Scopes

def tables (scopes : Scopes) : List Table :=
  scopes.globals :: scopes.inner.map (·.table)

section

variable {scopes : Scopes} {target : DeclarationTarget} {name : String} {id : Nat}

theorem mem_tables_of_find? (found : scopes.find? name = some id) :
    ∃ table ∈ scopes.tables, table.find? name = some id := by
  rw [find?, Option.or_eq_some_iff] at found
  rcases found with inside | outside
  · rcases List.exists_of_findSome?_eq_some inside with ⟨scope, member, found⟩
    exact ⟨scope.table, List.mem_cons_of_mem _ (List.mem_map_of_mem member), found⟩
  · exact ⟨scopes.globals, List.mem_cons_self, outside.2⟩

theorem mem_tables_bind {table : Table} (member : table ∈ (scopes.bind target name id).tables) :
    table ∈ scopes.tables ∨ ∃ old ∈ scopes.tables, table = old.insert name id := by
  unfold bind at member
  split at member
  · rename_i scope outer inner
    simp only [tables, inner, List.map_cons, List.mem_cons] at member ⊢
    rcases member with rfl | rfl | outside
    · exact .inl (.inl rfl)
    · exact .inr ⟨scope.table, .inr (.inl rfl), rfl⟩
    · exact .inl (.inr (.inr outside))
  · simp only [tables, List.mem_cons] at member ⊢
    rcases member with rfl | inside
    · exact .inr ⟨scopes.globals, .inl rfl, rfl⟩
    · exact .inl (.inr inside)

/-- If the name is bound at file scope, it replaces what it was bound to there. -/
theorem globals_bind :
    (scopes.bind target name id).globals = scopes.globals ∨
      (scopes.bind target name id).globals = scopes.globals.insert name id ∧
        scopes.bound? target name = scopes.globals.find? name := by
  unfold bind bound?
  cases target with
  | file => exact .inr ⟨rfl, rfl⟩
  | innermost =>
      cases scopes.inner with
      | nil => exact .inr ⟨rfl, rfl⟩
      | cons scope outer => exact .inl rfl

end

end Scopes

namespace AnalysisState

def Accepted (state : AnalysisState) : Prop :=
  state.diagnostics.hasErrors = false

end AnalysisState

structure Extends (before after : AnalysisState) : Prop where
  grows : Grows before.symbols after.symbols
  problems : before.diagnostics.items <+: after.diagnostics.items

namespace Extends

variable {before middle after : AnalysisState}

theorem refl (state : AnalysisState) : Extends state state :=
  ⟨.refl _, List.prefix_refl _⟩

theorem trans (first : Extends before middle) (second : Extends middle after) :
    Extends before after :=
  ⟨first.grows.trans second.grows, first.problems.trans second.problems⟩

theorem accepted (extends_ : Extends before after) (accepted : after.Accepted) :
    before.Accepted := by
  rcases extends_.problems with ⟨more, same⟩
  unfold AnalysisState.Accepted Diagnostics.hasErrors at accepted ⊢
  rw [← same, List.any_append, Bool.or_eq_false_iff] at accepted
  exact accepted.1

theorem items_eq_nil (extends_ : Extends before after)
    (none : after.diagnostics.items = []) : before.diagnostics.items = [] := by
  rw [← List.prefix_nil, ← none]
  exact extends_.problems

theorem reporting (state : AnalysisState) (problems : List Problem) :
    Extends state (state.reporting problems) where
  grows := .refl _
  problems := by
    rw [AnalysisState.items_reporting]
    exact List.prefix_append _ _

theorem allocated (state : AnalysisState) (symbol : Symbol) :
    Extends state { state with symbols := state.symbols.push symbol } where
  grows := .push _ _
  problems := List.prefix_refl _

/-- Nothing is said about the log, the scopes and the structs. -/
theorem quiet (state : AnalysisState) (scopes : Scopes) (structs : Table) (log : List LogEntry) :
    Extends state { state with scopes, structs, log } :=
  ⟨.refl _, List.prefix_refl _⟩

end Extends

theorem AnalysisState.accepted_reporting {state : AnalysisState} {problems : List Problem}
    (accepted : (state.reporting problems).Accepted) : Check.NoError problems := by
  unfold Accepted at accepted
  rw [Diagnostics.hasErrors_reporting, Bool.or_eq_false_iff] at accepted
  exact accepted.2

theorem AnalysisState.refused_reporting {state : AnalysisState} {problem : Problem}
    (isError : problem.severity = .error) : ¬(state.reporting [problem]).Accepted := by
  intro accepted
  have none := accepted_reporting accepted
  simp [Check.NoError, isError] at none

/-! ## States that know declarations -/

structure Tracks (known : List Declared) (state : AnalysisState) : Prop where
  types : ∀ (id : Nat) (symbol : Symbol), state.symbols[id]? = some symbol → symbol.type.IsProper
  bound : ∀ table ∈ state.scopes.tables, ∀ name id, table.find? name = some id →
    id < state.symbols.size
  functions : ∀ name id, state.scopes.globals.find? name = some id →
    (state.symbol id).isFunction = true →
    ∃ signature, .function signature ∈ known ∧ signature.name = name ∧ signature.symbol = id
  /-- Without a warning, a definition is not replaced. -/
  definitions : state.diagnostics.items = [] → ∀ signature, .function signature ∈ known →
    signature.isPrototype = false →
    state.scopes.globals.find? signature.name = some signature.symbol
  structs : ∀ name, state.structs.find? name = known.reverse.findSome? (·.structNamed? name)

structure Knows (known : List Declared) (state : AnalysisState) : Prop
    extends Tracks known state where
  recorded : ∀ declared ∈ known, declared.RecordedIn state.symbols
  distinct : (known.filterMap Declared.structSymbol?).Nodup

theorem Knows.start : Knows [] {} where
  types := by simp
  bound := by simp [Scopes.tables, Table.find?]
  functions := by simp [Table.find?]
  definitions := by simp
  structs := by simp [Table.find?]
  recorded := by simp
  distinct := by simp

section

variable {known : List Declared} {before after : AnalysisState}

theorem AnalysisState.symbol_of_getElem? {state : AnalysisState} {id : Nat} {symbol : Symbol}
    (stored : state.symbols[id]? = some symbol) : state.symbol id = symbol := by
  rw [AnalysisState.symbol, stored]
  rfl

theorem Extends.symbol_eq (extends_ : Extends before after) {id : Nat}
    (stored : id < before.symbols.size) : after.symbol id = before.symbol id := by
  have here := Array.getElem?_eq_getElem stored
  rw [AnalysisState.symbol_of_getElem? here,
    AnalysisState.symbol_of_getElem? (extends_.grows _ _ here)]

namespace Tracks

theorem symbol_isProper (tracks : Tracks known before) {id : Nat}
    (stored : id < before.symbols.size) : (before.symbol id).type.IsProper := by
  have here := Array.getElem?_eq_getElem stored
  rw [AnalysisState.symbol_of_getElem? here]
  exact tracks.types _ _ here

/-- Steps that leave file scope and the structs alone. -/
theorem keep (tracks : Tracks known before) (extends_ : Extends before after)
    (types : ∀ (id : Nat) (symbol : Symbol), after.symbols[id]? = some symbol →
      symbol.type.IsProper)
    (tables : ∀ table ∈ after.scopes.tables, ∀ name id, table.find? name = some id →
      id < after.symbols.size)
    (globals : after.scopes.globals = before.scopes.globals)
    (structs : after.structs = before.structs) : Tracks known after where
  types := types
  bound := tables
  functions := by
    intro name id found isFunction
    rw [globals] at found
    have stored := tracks.bound _ List.mem_cons_self _ _ found
    rw [extends_.symbol_eq stored] at isFunction
    exact tracks.functions name id found isFunction
  definitions := by
    rw [globals]
    intro none
    exact tracks.definitions (extends_.items_eq_nil none)
  structs := by
    rw [structs]
    exact tracks.structs

theorem reporting (tracks : Tracks known before) (problems : List Problem) :
    Tracks known (before.reporting problems) :=
  tracks.keep (.reporting _ _) tracks.types tracks.bound rfl rfl

theorem logged (tracks : Tracks known before) (log : List LogEntry) :
    Tracks known { before with log } :=
  { tracks with }

theorem allocated (tracks : Tracks known before) {symbol : Symbol}
    (proper : symbol.type.IsProper) :
    Tracks known { before with symbols := before.symbols.push symbol } := by
  apply tracks.keep (.allocated _ _) _ _ rfl rfl
  · intro id stored found
    rw [Array.getElem?_push] at found
    split at found
    · rw [← Option.some.inj found]
      exact proper
    · exact tracks.types id stored found
  · intro table member name id found
    have stored := tracks.bound table member name id found
    rw [Array.size_push]
    omega

theorem rescoped (tracks : Tracks known before) {scopes : Scopes}
    (tables : ∀ table ∈ scopes.tables, table = {} ∨ table ∈ before.scopes.tables)
    (globals : scopes.globals = before.scopes.globals) : Tracks known { before with scopes } := by
  apply tracks.keep (.quiet before scopes before.structs before.log) tracks.types _ globals rfl
  intro table member name id found
  rcases tables table member with rfl | old
  · contradiction
  · exact tracks.bound table old name id found

theorem entered (tracks : Tracks known before) :
    Tracks known { before with scopes := before.scopes.enter } := by
  refine tracks.rescoped ?_ rfl
  intro table member
  simp only [Scopes.tables, Scopes.enter, List.map_cons, List.mem_cons] at member ⊢
  rcases member with rfl | rfl | inside
  · exact .inr (.inl rfl)
  · exact .inl rfl
  · exact .inr (.inr inside)

theorem left (tracks : Tracks known before) {scopes : Scopes}
    (exit : before.scopes.exit = .ok scopes) : Tracks known { before with scopes } := by
  unfold Scopes.exit at exit
  split at exit
  · contradiction
  · rename_i scope outer inner
    cases exit
    refine tracks.rescoped ?_ rfl
    intro table member
    simp only [Scopes.tables, inner, List.map_cons, List.mem_cons] at member ⊢
    rcases member with rfl | inside
    · exact .inr (.inl rfl)
    · exact .inr (.inr (.inr inside))

end Tracks

namespace Knows

theorem of_extends (knows : Knows known before) (extends_ : Extends before after)
    (tracks : Tracks known after) : Knows known after where
  toTracks := tracks
  recorded declared member := extends_.grows.declared (knows.recorded declared member)
  distinct := knows.distinct

theorem reporting (knows : Knows known before) (problems : List Problem) :
    Knows known (before.reporting problems) :=
  knows.of_extends (.reporting _ _) (knows.toTracks.reporting problems)

theorem logged (knows : Knows known before) (log : List LogEntry) :
    Knows known { before with log } :=
  knows.of_extends (.quiet _ _ _ _) (knows.toTracks.logged log)

theorem size_not_mem (knows : Knows known before) :
    before.symbols.size ∉ known.filterMap Declared.structSymbol? := by
  intro member
  rcases List.mem_filterMap.mp member with ⟨declared, earlier, held⟩
  have recorded := knows.recorded declared earlier
  cases declared with
  | function signature => contradiction
  | struct record =>
      rcases recorded with ⟨symbol, table, stored, _⟩
      rw [Option.some.inj held] at stored
      simp at stored

end Knows

end

/-! ## Parts of the walk -/

structure Keeps (before after : AnalysisState) : Prop where
  extends_ : Extends before after
  tracks : after.Accepted → ∀ known, Tracks known before → Tracks known after

namespace Keeps

variable {before middle after : AnalysisState}

theorem trans (first : Keeps before middle) (second : Keeps middle after) : Keeps before after where
  extends_ := first.extends_.trans second.extends_
  tracks accepted known tracks :=
    second.tracks accepted known (first.tracks (second.extends_.accepted accepted) known tracks)

theorem reporting (state : AnalysisState) (problems : List Problem) :
    Keeps state (state.reporting problems) :=
  ⟨.reporting _ _, fun _ _ tracks => tracks.reporting problems⟩

theorem logged (state : AnalysisState) (log : List LogEntry) : Keeps state { state with log } :=
  ⟨.quiet _ _ _ _, fun _ _ tracks => tracks.logged log⟩

theorem allocated (state : AnalysisState) {symbol : Symbol}
    (proper : state.Accepted → symbol.type.IsProper) :
    Keeps state { state with symbols := state.symbols.push symbol } :=
  ⟨.allocated _ _, fun accepted _ tracks => tracks.allocated (proper accepted)⟩

theorem entered (state : AnalysisState) :
    Keeps state { state with scopes := state.scopes.enter } :=
  ⟨.quiet _ _ _ _, fun _ _ tracks => tracks.entered⟩

theorem knows (keeps : Keeps before after) (accepted : after.Accepted) {known : List Declared}
    (knows : Knows known before) : Knows known after :=
  knows.of_extends keeps.extends_ (keeps.tracks accepted known knows.toTracks)

end Keeps

/-- Between two states of the walk the analysis has met certain nodes. Unless one
of them is refused, it knows their declarations and they fit to what it knows. -/
structure Learns (result : Option ValueType) (nodes returned : List Tree)
    (before after : AnalysisState) : Prop where
  extends_ : Extends before after
  learns : after.Accepted → ∀ known, Knows known before →
    Knows (known ++ nodes.filterMap Tree.declared?) after ∧
      (∀ node ∈ nodes, node.Fits (known ++ nodes.filterMap Tree.declared?)) ∧
      ∀ value ∈ returned, Returns result value.note.type

namespace Learns

variable {result : Option ValueType} {nodes more returned returnedMore : List Tree}
  {before middle after : AnalysisState}

theorem trans (first : Learns result nodes returned before middle)
    (second : Learns result more returnedMore middle after) :
    Learns result (nodes ++ more) (returned ++ returnedMore) before after where
  extends_ := first.extends_.trans second.extends_
  learns := by
    intro accepted known knows
    have parts := first.learns (second.extends_.accepted accepted) known knows
    have partsMore := second.learns accepted _ parts.1
    rw [List.filterMap_append, ← List.append_assoc]
    refine ⟨partsMore.1, ?_, ?_⟩
    · intro node member
      rcases List.mem_append.mp member with here | later
      · exact (parts.2.1 node here).mono (List.subset_append_left _ _)
      · exact partsMore.2.1 node later
    · intro value member
      rcases List.mem_append.mp member with here | later
      · exact parts.2.2 value here
      · exact partsMore.2.2 value later

theorem quiet (keeps : Keeps before after) : Learns result [] [] before after where
  extends_ := keeps.extends_
  learns := by
    intro accepted known knows
    rw [List.filterMap_nil, List.append_nil]
    exact ⟨keeps.knows accepted knows, by simp, by simp⟩

/-- Nothing has to be shown about steps that report an error. -/
theorem refused (extends_ : Extends before after) (refused : ¬after.Accepted) :
    Learns result nodes returned before after :=
  ⟨extends_, fun accepted => absurd accepted refused⟩

/-- A node is met that declares nothing, and then others. -/
theorem cons {node : Tree} (declares : node.declared? = none) (fits : ∀ known, node.Fits known)
    (learns : Learns result nodes returned before after) :
    Learns result (node :: nodes) returned before after where
  extends_ := learns.extends_
  learns := by
    intro accepted known knows
    rcases learns.learns accepted known knows with ⟨knowsAfter, fitting, returning⟩
    rw [List.filterMap_cons_none declares, List.forall_mem_cons]
    exact ⟨knowsAfter, ⟨fits _, fitting⟩, returning⟩

theorem of_declared {node : Tree} (found : Declared) (declares : node.declared? = some found)
    (extends_ : Extends before after)
    (learns : after.Accepted → ∀ known, Knows known before →
      Knows (known ++ [found]) after ∧ node.Fits (known ++ [found])) :
    Learns result [node] [] before after where
  extends_ := extends_
  learns := by
    intro accepted known knows
    rcases learns accepted known knows with ⟨knowsAfter, fits⟩
    rw [List.filterMap_cons_some declares, List.filterMap_nil]
    exact ⟨knowsAfter, by simpa using fits, by simp⟩

end Learns

end OcLang
