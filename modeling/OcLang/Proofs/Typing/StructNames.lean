import OcLang.Proofs.Analysis.StructFields
import OcLang.Proofs.Analysis.StructTable
import OcLang.Proofs.Tree.Nodes
import OcLang.Proofs.Typing.Expressions

namespace OcLang

open Check

/-! # Where the names of structs come from

The name of a struct is stated by a type node, and travels from there through symbols and notes.
Unless an error is reported, the struct has been declared before its name is stated. -/

def DeclaresStruct (log : List LogEntry) (name : String) : Prop :=
  ∃ id, .struct name id ∈ log

theorem DeclaresStruct.later {log longer : List LogEntry} {name : String}
    (declares : DeclaresStruct log name) (begins : log <+: longer) :
    DeclaresStruct longer name := by
  rcases declares with ⟨id, logged⟩
  exact ⟨id, begins.subset logged⟩

theorem AnalysisState.IsFiled.declares {state : AnalysisState} (filed : state.IsFiled)
    {name : String} (found : (state.structs.find? name).isSome = true) :
    DeclaresStruct state.log name := by
  rcases Option.isSome_iff_exists.mp found with ⟨id, found⟩
  rw [filed, Table.find?_insertAll_empty] at found
  rcases List.mem_filterMap.mp (Table.mem_of_latest? found) with ⟨entry, logged, struct⟩
  cases entry with
  | struct other otherId =>
      cases struct
      exact ⟨id, logged⟩
  | symbol | separator => contradiction

def MayName (log : List LogEntry) (enclosing : Option String) (name : String) : Prop :=
  enclosing = some name ∨ DeclaresStruct log name

def ValueType.IsIntroduced (log : List LogEntry) (type : ValueType) : Prop :=
  ∀ name ∈ type.structName, DeclaresStruct log name

structure Introduced (symbols : Array Symbol) (log : List LogEntry) : Prop where
  types : ∀ symbol ∈ symbols, symbol.type.IsIntroduced log
  fields : ∀ struct ∈ symbols, ∀ table ∈ struct.fields?, ∀ entry ∈ table.entries,
    ∃ field, symbols[entry.2]? = some field

namespace Introduced

variable {symbols : Array Symbol} {log : List LogEntry}

theorem start : Introduced #[] [] where
  types := by simp
  fields := by simp

theorem type (introduced : Introduced symbols log) (id : Nat) :
    (symbols[id]?.getD default).type.IsIntroduced log := by
  cases stored : symbols[id]? with
  | none =>
      intro name none
      contradiction
  | some symbol => exact introduced.types symbol (Array.mem_of_getElem? stored)

/-- What a name is looked up as in a struct has been stored. -/
theorem stored (introduced : Introduced symbols log) {id : Nat} {name : String} {fieldId : Nat}
    (found : (symbols[id]?.getD default).fields?.bind (·.find? name) = some fieldId) :
    ∃ field, symbols[fieldId]? = some field := by
  rcases Option.bind_eq_some_iff.mp found with ⟨table, fields, found⟩
  cases here : symbols[id]? with
  | none =>
      rw [here] at fields
      contradiction
  | some struct =>
      rw [here] at fields
      exact introduced.fields struct (Array.mem_of_getElem? here) table fields _
        (Table.mem_entries_of_find? found)

theorem later (introduced : Introduced symbols log) {longer : List LogEntry}
    (begins : log <+: longer) : Introduced symbols longer where
  types symbol member name named := (introduced.types symbol member name named).later begins
  fields := introduced.fields

/-- Store the symbol of something else than a struct. -/
theorem push (introduced : Introduced symbols log) {symbol : Symbol}
    (type : symbol.type.IsIntroduced log) (noStruct : symbol.fields? = none) :
    Introduced (symbols.push symbol) log where
  types := by
    intro other member
    rcases Array.mem_push.mp member with old | rfl
    · exact introduced.types other old
    · exact type
  fields struct member table fields entry inside := by
    rcases Array.mem_push.mp member with old | rfl
    · rcases introduced.fields struct old table fields entry inside with ⟨field, stored⟩
      exact ⟨field, Grows.push _ _ _ _ stored⟩
    · rw [noStruct] at fields
      contradiction

end Introduced

/-! ## Trees -/

theorem Note.IsUntyped.names {note : Note} (untyped : note.IsUntyped) {known : String → Prop} :
    ∀ name ∈ note.structName, known name := by
  simp [untyped.structName]

namespace Tree

def NamesOnly (known : String → Prop) (tree : Tree) : Prop :=
  ∀ node ∈ tree.preorder, ∀ name ∈ node.note.structName, known name

section

variable {known more : String → Prop} {tree : Tree}

theorem namesOnly_iff : tree.NamesOnly known ↔
    (∀ name ∈ tree.note.structName, known name) ∧
      ∀ child ∈ tree.children, child.NamesOnly known := by
  cases tree
  exact forall_mem_preorder

theorem NamesOnly.imp (names : tree.NamesOnly known) (implies : ∀ name, known name → more name) :
    tree.NamesOnly more :=
  fun node inside name noted => implies name (names node inside name noted)

theorem namesOnly_of_plain (plain : Numbering.IsPlain tree) : tree.NamesOnly known := by
  induction tree using Tree.induction with
  | node tree induction =>
      exact namesOnly_iff.mpr ⟨plain.isUntyped.names, fun child member =>
        induction child member (plain.child member)⟩

/-- Something is noted on a node that nothing was noted on before. -/
theorem namesOnly_with_note (plain : Numbering.IsPlain tree) {note : Note}
    (here : ∀ name ∈ note.structName, known name) : NamesOnly known { tree with note } :=
  namesOnly_iff.mpr ⟨here, fun _ member => namesOnly_of_plain (plain.child member)⟩

end

def typeNodes : Tree → List Tree
  | ⟨.struct, _, _, _, _ :: declarators⟩ => declarators
  | ⟨.variable, _, _, _, declarator :: _⟩ => [declarator]
  | ⟨.function, _, _, _, declarator :: parameters :: _⟩ => declarator :: parameters.children
  | ⟨.prototype, _, _, _, declarator :: parameters :: _⟩ => declarator :: parameters.children
  | ⟨.allocate .struct, _, _, _, [type]⟩ => [type]
  | ⟨.allocate .array, _, _, _, [type, _]⟩ => [type]
  | _ => []

/-- The fields of a struct, whose first symbol is given, name the struct itself or a struct from
before it. -/
def LooksBack (log : List LogEntry) (name : Tree) (declarators : List Tree) (first : Nat) : Prop :=
  ∀ declarator ∈ declarators, declarator.kind = .type .named →
    declarator.text = name.text ∨ ∃ earlier < first, .struct declarator.text earlier ∈ log

theorem LooksBack.later {log longer : List LogEntry} {name : Tree} {declarators : List Tree}
    {first : Nat} (looks : LooksBack log name declarators first) (begins : log <+: longer) :
    LooksBack longer name declarators first := by
  intro declarator member isNamed
  refine (looks declarator member isNamed).imp_right ?_
  rintro ⟨earlier, before, logged⟩
  exact ⟨earlier, before, begins.subset logged⟩

/-- What a node states is declared, what it selects has the type of its symbol, and what it
declares as a struct has been stored. -/
structure IsGrounded (symbols : Array Symbol) (log : List LogEntry) (node : Tree) : Prop where
  types : ∀ type ∈ node.typeNodes, type.kind = .type .named → DeclaresStruct log type.text
  select : ∀ object field id, node.kind = .select → node.children = [object, field] →
    field.note.symbol = some id → ∃ symbol, symbols[id]? = some symbol ∧
      node.note.type = symbol.type
  struct : ∀ name declarators id, node.kind = .struct → node.children = name :: declarators →
    name.note.symbol = some id → ∃ first, StructStored symbols log name declarators first ∧
      LooksBack log name declarators first

structure IsSourced (symbols : Array Symbol) (log : List LogEntry) (tree : Tree) : Prop where
  names : tree.NamesOnly (DeclaresStruct log)
  grounded : ∀ node ∈ tree.walked, node.IsGrounded symbols log

section

variable {symbols more : Array Symbol} {log longer : List LogEntry} {tree : Tree}

theorem isGrounded_of_types
    (types : ∀ type ∈ tree.typeNodes, type.kind = .type .named → DeclaresStruct log type.text)
    (select : tree.kind ≠ .select) (struct : tree.kind ≠ .struct) :
    tree.IsGrounded symbols log where
  types := types
  select _ _ _ isSelect := absurd isSelect select
  struct _ _ _ isStruct := absurd isStruct struct

theorem isGrounded_of_kind (types : tree.typeNodes = []) (select : tree.kind ≠ .select)
    (struct : tree.kind ≠ .struct) : tree.IsGrounded symbols log :=
  isGrounded_of_types (by simp [types]) select struct

theorem IsGrounded.later (grounded : tree.IsGrounded symbols log) (grows : Grows symbols more)
    (begins : log <+: longer) : tree.IsGrounded more longer where
  types type member isNamed := (grounded.types type member isNamed).later begins
  select object field id isSelect children noted := by
    rcases grounded.select object field id isSelect children noted with ⟨symbol, stored, same⟩
    exact ⟨symbol, grows _ _ stored, same⟩
  struct name declarators id isStruct children noted := by
    rcases grounded.struct name declarators id isStruct children noted with
      ⟨first, stored, looks⟩
    exact ⟨first, stored.later grows begins, looks.later begins⟩

namespace IsSourced

theorem later (sourced : tree.IsSourced symbols log) (grows : Grows symbols more)
    (begins : log <+: longer) : tree.IsSourced more longer where
  names := sourced.names.imp fun _ declares => declares.later begins
  grounded node member := (sourced.grounded node member).later grows begins

theorem of_inner (here : ∀ name ∈ tree.note.structName, DeclaresStruct log name)
    (parts : ∀ child ∈ tree.children, child.NamesOnly (DeclaresStruct log))
    (grounded : tree.IsGrounded symbols log)
    (inner : ∀ child ∈ tree.inner, ∀ node ∈ child.walked, node.IsGrounded symbols log) :
    tree.IsSourced symbols log where
  names := namesOnly_iff.mpr ⟨here, parts⟩
  grounded := by
    rw [walked_eq, List.forall_mem_cons]
    refine ⟨grounded, fun node inside => ?_⟩
    rcases List.mem_flatMap.mp inside with ⟨child, member, below⟩
    exact inner child member node below

theorem of_operands (here : ∀ name ∈ tree.note.structName, DeclaresStruct log name)
    (grounded : tree.IsGrounded symbols log) (same : tree.inner = tree.children)
    (parts : ∀ child ∈ tree.children, child.IsSourced symbols log) :
    tree.IsSourced symbols log :=
  of_inner here (fun child member => (parts child member).names) grounded
    fun child member => (parts child (same ▸ member)).grounded

theorem of_leaf (here : ∀ name ∈ tree.note.structName, DeclaresStruct log name)
    (parts : ∀ child ∈ tree.children, child.NamesOnly (DeclaresStruct log))
    (grounded : tree.IsGrounded symbols log) (none : tree.inner = []) :
    tree.IsSourced symbols log :=
  of_inner here parts grounded (by simp [none])

end IsSourced

end

end Tree

/-! ## Types that are stated -/

namespace Tree

theorem structName_statedType (declarator : Tree) : declarator.statedType.structName =
    if declarator.kind = .type .named then some declarator.text else none := by
  have base : declarator.baseType.structName =
      if declarator.kind = .type .named then some declarator.text else none := by
    unfold baseType
    split <;> simp_all
  unfold statedType
  split <;> exact base

def Resolves (structs : Table) (enclosing : Option String) (type : Tree) : Prop :=
  type.kind = .type .named →
    enclosing = some type.text ∨ (structs.find? type.text).isSome = true

theorem declares_of_introduced {type : Tree} {log : List LogEntry}
    (introduced : type.statedType.IsIntroduced log) (isNamed : type.kind = .type .named) :
    DeclaresStruct log type.text :=
  introduced _ (by rw [structName_statedType, if_pos isNamed]; rfl)

end Tree

theorem AnalysisState.IsFiled.knows {state : AnalysisState} (filed : state.IsFiled)
    {enclosing : Option String} {type : Tree} (resolves : type.Resolves state.structs enclosing) :
    ∀ name ∈ type.statedType.structName, MayName state.log enclosing name := by
  intro name named
  rw [type.structName_statedType] at named
  split at named
  · rename_i isNamed
    cases named
    exact (resolves isNamed).imp_right filed.declares
  · contradiction

theorem AnalysisState.IsFiled.introduces {state : AnalysisState} (filed : state.IsFiled)
    {type : Tree} (resolves : type.Resolves state.structs none) :
    type.statedType.IsIntroduced state.log :=
  fun name named => (filed.knows resolves name named).resolve_left (by simp)

theorem declaredType_resolves (enclosing : Option String) (declarator : Tree)
    (state : AnalysisState) :
    Reports (declaredType enclosing declarator) state fun type problems =>
      type = declarator.statedType ∧
        (NoError problems → declarator.Resolves state.structs enclosing) := by
  have resolves : Reports (declaredType enclosing declarator) state fun _ problems =>
      NoError problems → declarator.Resolves state.structs enclosing := by
    by_cases isNamed : declarator.kind = .type .named
    · have marking (base : ValueType) {state : AnalysisState}
          {holds : ValueType → List Problem → Prop} (here : ∀ type, holds type []) :
          Reports (if declarator.hasArrayMark = true then
              pure { base with flags := { base.flags with array := true } }
            else pure base) state holds := by
        split <;> exact .pure (here _)
      unfold declaredType
      simp only [isNamed]
      apply Reports.bind
      apply Reports.get
      split
      · rename_i known
        exact .bind (.pure (marking _ fun _ _ _ => by simpa using known))
      · refine .bind (.report (.bind (.pure (marking _ fun _ refused => ?_))))
        simp [NoError, Problem.severity] at refused
    · exact (declaredType_reports enclosing declarator state).imp
        fun _ _ _ _ named => absurd named isNamed
  have stated : ((declaredType enclosing declarator).run state).1 = declarator.statedType :=
    @declaredType_books _ enclosing declarator (fun type _ => type = declarator.statedType) rfl
      state rfl
  rcases resolves with ⟨problems, after, resolves⟩
  exact ⟨problems, after, stated, resolves⟩

/-! ## Expressions -/

namespace Expression

theorem identifier_sourced {node : Tree} (plain : Numbering.IsPlain node)
    (isIdentifier : node.kind = .identifier) (state : AnalysisState) :
    Reports (identifier node) state fun annotated _ =>
      Introduced state.symbols state.log → annotated.IsSourced state.symbols state.log := by
  rcases node with ⟨kind, location, text, note, children⟩
  cases isIdentifier
  have made (note : Note) (here : ∀ name ∈ note.structName, DeclaresStruct state.log name) :
      Tree.IsSourced state.symbols state.log ⟨.identifier, location, text, note, children⟩ :=
    .of_leaf here (fun _ member => Tree.namesOnly_of_plain (plain.child member))
      (Tree.isGrounded_of_kind rfl (by simp) (by simp)) rfl
  apply Reports.bind
  apply Reports.get
  split
  · exact .bind (.report (.pure fun _ => made note plain.isUntyped.names))
  · exact .bind (.symbol (.pure fun introduced => made _ (introduced.type _)))

theorem selectedField_finds (node object field : Tree) (state : AnalysisState) :
    Reports (selectedField node object field) state fun found _ => ∀ id ∈ found,
      ∃ struct, (state.symbol struct).fields?.bind (·.find? field.text) = some id := by
  unfold selectedField
  dsimp only
  split
  · apply Reports.bind
    apply Reports.get
    split
    · exact .bind (.report (.pure (by simp)))
    · apply Reports.bind
      apply Reports.symbol
      split
      · exact .bind (.report (.pure (by simp)))
      · rename_i struct _ _ id found
        apply Reports.pure
        rintro _ ⟨⟩
        exact ⟨struct, found⟩
  · exact .bind (.report (.pure (by simp)))

section

variable {location : Location} {text : String} {note : Note} (untyped : note.IsUntyped)
  (state : AnalysisState)

include untyped

theorem call_sourced {callee : Tree} (plain : Numbering.IsPlain callee) (arguments : List Tree) :
    Reports (call ⟨.call, location, text, note, []⟩ callee arguments) state fun annotated _ =>
      Introduced state.symbols state.log →
        (∀ argument ∈ arguments, argument.IsSourced state.symbols state.log) →
        annotated.IsSourced state.symbols state.log := by
  have made (note : Note) (callee : Tree)
      (here : ∀ name ∈ note.structName, DeclaresStruct state.log name)
      (names : callee.NamesOnly (DeclaresStruct state.log))
      (sourced : ∀ argument ∈ arguments, argument.IsSourced state.symbols state.log) :
      Tree.IsSourced state.symbols state.log ⟨.call, location, text, note, callee :: arguments⟩ :=
    .of_inner here
      (List.forall_mem_cons.mpr ⟨names, fun argument member => (sourced argument member).names⟩)
      (Tree.isGrounded_of_kind rfl (by simp) (by simp))
      fun argument member => (sourced argument member).grounded
  have unchanged := made note callee untyped.names (Tree.namesOnly_of_plain plain)
  apply Reports.bind
  apply Reports.get
  split
  · exact .bind (.report (.pure fun _ => unchanged))
  · apply Reports.bind
    apply Reports.symbol
    split
    · exact .bind (.report (.pure fun _ => unchanged))
    · apply Reports.bind
      apply (callArguments_reports _ _ _ _ _).imp
      intro _ problems _
      apply Reports.pure
      intro introduced
      exact made _ _ (introduced.type _) (Tree.namesOnly_with_note plain (introduced.type _))

theorem select_sourced (object : Tree) {field : Tree} (plain : Numbering.IsPlain field) :
    Reports (select ⟨.select, location, text, note, []⟩ object field) state fun annotated _ =>
      Introduced state.symbols state.log → object.IsSourced state.symbols state.log →
        annotated.IsSourced state.symbols state.log := by
  have made (note : Note) (field : Tree)
      (here : ∀ name ∈ note.structName, DeclaresStruct state.log name)
      (names : field.NamesOnly (DeclaresStruct state.log))
      (type : ∀ id, field.note.symbol = some id → ∃ symbol, state.symbols[id]? = some symbol ∧
        note.type = symbol.type) (sourced : object.IsSourced state.symbols state.log) :
      Tree.IsSourced state.symbols state.log
        ⟨.select, location, text, note, [object, field]⟩ := by
    refine .of_inner here (by simpa using ⟨sourced.names, names⟩) ?_
      (List.forall_mem_singleton.mpr sourced.grounded)
    constructor
    · simp [Tree.typeNodes]
    · rintro _ _ id - ⟨⟩ noted
      exact type id noted
    · simp
  have unchanged := made note field untyped.names (Tree.namesOnly_of_plain plain)
    (by simp [plain.untouched.1])
  unfold select
  dsimp only
  split
  · exact .pure fun _ => unchanged
  · apply Reports.bind
    apply (selectedField_finds _ _ _ _).imp
    rintro (_ | id) problems found
    · exact .pure fun _ => unchanged
    · apply Reports.bind
      apply Reports.symbol
      apply Reports.pure
      intro introduced
      rcases found id rfl with ⟨struct, found⟩
      rcases introduced.stored found with ⟨symbol, stored⟩
      refine made _ _ (introduced.type id) (Tree.namesOnly_with_note plain (introduced.type id)) ?_
      rintro _ ⟨⟩
      refine ⟨symbol, stored, (Note.type_addType untyped.type _ _).trans ?_⟩
      rw [AnalysisState.symbol_reporting, AnalysisState.symbol_of_getElem? stored]

theorem index_sourced (array position : Tree) :
    Reports (index ⟨.index, location, text, note, []⟩ array position) state fun annotated _ =>
      array.IsSourced state.symbols state.log → position.IsSourced state.symbols state.log →
        annotated.IsSourced state.symbols state.log := by
  have made (note : Note) (here : ∀ name ∈ note.structName, name ∈ array.note.structName)
      (sourced : array.IsSourced state.symbols state.log)
      (sourcedPosition : position.IsSourced state.symbols state.log) :
      Tree.IsSourced state.symbols state.log
        ⟨.index, location, text, note, [array, position]⟩ :=
    .of_operands (fun name noted => (Tree.namesOnly_iff.mp sourced.names).1 name (here name noted))
      (Tree.isGrounded_of_kind rfl (by simp) (by simp)) rfl
      (by simpa using ⟨sourced, sourcedPosition⟩)
  have unnamed : ∀ name ∈ note.structName, name ∈ array.note.structName := untyped.names
  unfold index
  apply Reports.bind
  apply (requireInteger_reports _ _ _).imp
  intro _ problems _
  dsimp only
  split
  · exact .pure (made note unnamed)
  · split
    · exact .pure (made _ fun _ named => named)
    · split
      · exact .pure (made _ unnamed)
      · exact .bind (.report (.pure (made note unnamed)))

omit untyped in
theorem newStruct_sourced {type : Tree} (plain : Numbering.IsPlain type) (children : List Tree) :
    Reports (newStruct ⟨.allocate .struct, location, text, note, children⟩ type) state
      fun annotated problems => NoError problems → state.IsFiled →
        annotated.IsSourced state.symbols state.log := by
  apply Reports.bind
  apply (declaredType_resolves none type state).imp
  rintro _ problems ⟨rfl, resolves⟩
  apply Reports.pure
  intro accepted filed
  have introduced := filed.introduces (resolves (by simpa using accepted))
  refine .of_leaf introduced
    (List.forall_mem_singleton.mpr (Tree.namesOnly_with_note plain introduced)) ?_ rfl
  exact Tree.isGrounded_of_types
    (List.forall_mem_singleton.mpr (Tree.declares_of_introduced introduced)) (by simp) (by simp)

omit untyped in
theorem newArray_sourced {type : Tree} (plain : Numbering.IsPlain type) (size : Tree) :
    Reports (newArray ⟨.allocate .array, location, text, note, []⟩ type.statedType type size) state
      fun annotated _ => type.statedType.IsIntroduced state.log →
        size.IsSourced state.symbols state.log → annotated.IsSourced state.symbols state.log := by
  apply Reports.bind
  apply (requireInteger_reports _ _ _).imp
  intro _ problems _
  apply Reports.pure
  intro introduced sourced
  refine .of_inner introduced
    (by simpa using ⟨Tree.namesOnly_with_note plain introduced, sourced.names⟩) ?_
    (List.forall_mem_singleton.mpr sourced.grounded)
  exact Tree.isGrounded_of_types
    (List.forall_mem_singleton.mpr (Tree.declares_of_introduced introduced)) (by simp) (by simp)

theorem newString_sourced (size : Tree) :
    Reports (newString ⟨.allocate .string, location, text, note, []⟩ size) state
      fun annotated _ => size.IsSourced state.symbols state.log →
        annotated.IsSourced state.symbols state.log := by
  apply Reports.bind
  apply (requireInteger_reports _ _ _).imp
  intro _ problems _
  apply Reports.pure
  intro sourced
  exact .of_operands untyped.names (Tree.isGrounded_of_kind rfl (by simp) (by simp)) rfl
    (List.forall_mem_singleton.mpr sourced)

omit untyped in
theorem assign_sourced (target value : Tree) :
    Reports (assign ⟨.assign, location, text, note, []⟩ target value) state fun annotated _ =>
      target.IsSourced state.symbols state.log → value.IsSourced state.symbols state.log →
        annotated.IsSourced state.symbols state.log := by
  have rest (after : AnalysisState) : Reports (do
        requireCompatible "assignment" target.note.type value
        return {
          (⟨.assign, location, text, note, []⟩ : Tree) with
          note := note.addType target.note.type target.note.attributes.roles
          children := [target, value] }) after fun annotated _ =>
            target.IsSourced state.symbols state.log → value.IsSourced state.symbols state.log →
              annotated.IsSourced state.symbols state.log := by
    apply Reports.bind
    apply (requireCompatible_reports _ _ _ _).imp
    intro _ problems _
    apply Reports.pure
    intro sourced sourcedValue
    exact .of_operands (Tree.namesOnly_iff.mp sourced.names).1
      (Tree.isGrounded_of_kind rfl (by simp) (by simp)) rfl (by simpa using ⟨sourced, sourcedValue⟩)
  unfold assign
  dsimp only
  split
  · exact .bind (.report (rest _))
  · exact rest state

theorem binary_sourced (operator : BinaryOperator) (left right : Tree) :
    Reports (binary operator ⟨.binary operator, location, text, note.add operatorAttributes, []⟩
      left right) state fun annotated _ => left.IsSourced state.symbols state.log →
        right.IsSourced state.symbols state.log → annotated.IsSourced state.symbols state.log := by
  have made (sourced : left.IsSourced state.symbols state.log)
      (sourcedRight : right.IsSourced state.symbols state.log) :
      Tree.IsSourced state.symbols state.log
        ⟨.binary operator, location, text, note.add operatorAttributes, [left, right]⟩ :=
    .of_operands untyped.names (Tree.isGrounded_of_kind rfl (by simp) (by simp)) rfl
      (by simpa using ⟨sourced, sourcedRight⟩)
  unfold binary
  dsimp only
  split
  · exact .bind ((requireCompatible_reports _ _ _ _).imp fun _ _ _ => .pure made)
  · exact .bind ((requireInteger_reports _ _ _).imp fun _ _ _ =>
      .bind ((requireInteger_reports _ _ _).imp fun _ _ _ => .pure made))

end

/-! ### The walk -/

theorem closed_sourced {node : Tree} (plain : Numbering.IsPlain node) (state : AnalysisState) :
    Reports (closed node) state fun annotated problems => NoError problems → state.IsFiled →
      Introduced state.symbols state.log → annotated.IsSourced state.symbols state.log := by
  unfold closed
  split
  case h_1 isIdentifier =>
    exact (identifier_sourced plain isIdentifier state).imp fun _ _ sourced _ _ => sourced
  case h_2 what isLiteral =>
    rcases node with ⟨kind, location, text, note, children⟩
    cases isLiteral
    exact .pure fun _ _ _ => .of_leaf plain.isUntyped.names
      (fun _ member => Tree.namesOnly_of_plain (plain.child member))
      (Tree.isGrounded_of_kind rfl (by simp [Tree.mapNote]) (by simp [Tree.mapNote])) rfl
  case h_3 type isAllocation only =>
    rcases node with ⟨kind, location, text, note, children⟩
    cases isAllocation
    cases only
    exact (newStruct_sourced state (plain.child (by simp)) _).imp
      fun _ _ sourced accepted filed _ => sourced accepted filed
  all_goals
    refine .bind (.report (.pure fun refused => ?_))
    simp [NoError, Problem.severity] at refused

theorem isCheckLaw_sourced : IsCheckLaw (fun _ => Numbering.IsPlain)
    (fun state _ annotated problems => NoError problems → state.IsFiled →
      Introduced state.symbols state.log → annotated.IsSourced state.symbols state.log)
    (fun state _ annotated problems => NoError problems → state.IsFiled →
      Introduced state.symbols state.log →
        ∀ tree ∈ annotated, tree.IsSourced state.symbols state.log)
    (fun state type declared problems => declared = type.statedType ∧
      (NoError problems → type.Resolves state.structs none)) where
  operand plain member _ := plain.child (Tree.mem_children_of_mem_operands member)
  nil _ := by simp
  cons sourced sourcedRest accepted filed introduced := by
    rw [noError_append] at accepted
    exact List.forall_mem_cons.mpr
      ⟨sourced accepted.1 filed introduced, sourcedRest accepted.2 filed introduced⟩
  call {_ _ _ _ _ _ arguments _} plain sourced := by
    apply (call_sourced plain.isUntyped _ (plain.child (by simp)) arguments).imp
    intro annotated more made accepted filed introduced
    rw [noError_append] at accepted
    exact made introduced (sourced accepted.1 filed introduced)
  select {_ _ _ _ _ _ object _} plain sourced := by
    apply (select_sourced (plain.isUntyped.add _) _ object (plain.child (by simp))).imp
    intro annotated more made accepted filed introduced
    rw [noError_append] at accepted
    exact made introduced (sourced accepted.1 filed introduced)
  index {_ _ _ _ _ _ array position _ _} plain sourced sourcedPosition := by
    apply (index_sourced (plain.isUntyped.add _) _ array position).imp
    intro annotated last made accepted filed introduced
    simp only [noError_append] at accepted
    exact made (sourced accepted.1.1 filed introduced)
      (sourcedPosition accepted.1.2 filed introduced)
  declared state type := declaredType_resolves none type state
  newArray {_ _ _ _ _ _ size _ _ _} plain describes sourced := by
    rcases describes with ⟨rfl, resolves⟩
    apply (newArray_sourced _ (plain.child (by simp)) size).imp
    intro annotated last made accepted filed introduced
    simp only [noError_append] at accepted
    exact made (filed.introduces (resolves accepted.1.1)) (sourced accepted.1.2 filed introduced)
  newString {_ _ _ _ _ size _} plain sourced := by
    apply (newString_sourced plain.isUntyped _ size).imp
    intro annotated more made accepted filed introduced
    rw [noError_append] at accepted
    exact made (sourced accepted.1 filed introduced)
  assign {_ _ _ _ _ _ target value _ _} _ sourced sourcedValue := by
    apply (assign_sourced _ target value).imp
    intro annotated last made accepted filed introduced
    simp only [noError_append] at accepted
    exact made (sourced accepted.1.1 filed introduced)
      (sourcedValue accepted.1.2 filed introduced)
  binary {_ operator _ _ _ _ _ left right _ _} plain sourced sourcedRight := by
    apply (binary_sourced plain.isUntyped _ operator left right).imp
    intro annotated last made accepted filed introduced
    simp only [noError_append] at accepted
    exact made (sourced accepted.1.1 filed introduced)
      (sourcedRight accepted.1.2 filed introduced)
  unary plain sourced := by
    apply (requireInteger_reports _ _ _).imp
    intro _ more _ accepted filed introduced
    rw [noError_append] at accepted
    have sourced := sourced accepted.1 filed introduced
    refine .of_inner plain.isUntyped.names (List.forall_mem_cons.mpr ⟨sourced.names,
      fun child member => Tree.namesOnly_of_plain (plain.child (by simp [member]))⟩)
      (Tree.isGrounded_of_kind rfl (by simp) (by simp)) ?_
    exact List.forall_mem_singleton.mpr sourced.grounded
  leaf plain _ := closed_sourced plain _

/-- An expression names structs that have been declared. -/
theorem check_sourced (tree : Tree) (plain : Numbering.IsPlain tree) (state : AnalysisState) :
    Reports (check tree) state fun annotated problems => NoError problems → state.IsFiled →
      Introduced state.symbols state.log → annotated.IsSourced state.symbols state.log :=
  isCheckLaw_sourced.expression plain

end Expression

end OcLang
