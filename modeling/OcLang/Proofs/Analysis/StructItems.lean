import OcLang.Proofs.Analysis.Arrangement
import OcLang.Proofs.Analysis.Growth
import OcLang.Proofs.Analysis.StructFields

namespace OcLang

open Check

/-! # The structs among the parts of a tree

Where a part of an annotated tree looks like a struct and its first child has the symbol of a
struct, the part is a struct that has been stored. Of the many other places where such a part may
stand, none gives the symbol of a struct to a child of it. -/

theorem AnalysisState.LeadsTo.grows {before after : AnalysisState} (leads : before.LeadsTo after) :
    Grows before.symbols after.symbols := by
  rcases leads.symbols with ⟨more, same⟩
  intro id symbol stored
  rw [← Array.getElem?_toList] at stored ⊢
  rw [← same, List.getElem?_append_left (List.getElem?_eq_some_iff.mp stored).1, stored]

theorem Check.OnlyAdds.ends {Value : Type} {step : Check Value} (adds : OnlyAdds step)
    (state : AnalysisState) : Ends step state fun _ after => state.LeadsTo after :=
  adds state

def IsPlainSymbol (symbols : Array Symbol) (id : Nat) : Prop :=
  ∃ symbol, symbols[id]? = some symbol ∧ symbol.fields? = none

namespace Tree

def NotesNoStruct (symbols : Array Symbol) (tree : Tree) : Prop :=
  ∀ part ∈ tree.children, ∀ id, part.note.symbol = some id → IsPlainSymbol symbols id

def MarksStruct (symbols : Array Symbol) (log : List LogEntry) (tree : Tree) : Prop :=
  tree.kind = .struct → tree.NotesNoStruct symbols ∨
    ∃ name declarators first, tree.children = name :: declarators ∧
      StructStored symbols log name declarators first

section

variable {symbols more : Array Symbol} {log longer : List LogEntry} {tree : Tree}

theorem NotesNoStruct.grows (none : tree.NotesNoStruct symbols) (grows : Grows symbols more) :
    tree.NotesNoStruct more := by
  intro part member id noted
  rcases none part member id noted with ⟨symbol, stored, plain⟩
  exact ⟨symbol, grows _ _ stored, plain⟩

theorem MarksStruct.later (marks : tree.MarksStruct symbols log) (grows : Grows symbols more)
    (begins : log <+: longer) : tree.MarksStruct more longer := by
  intro isStruct
  rcases marks isStruct with none | ⟨name, declarators, first, children, stored⟩
  · exact .inl (none.grows grows)
  · exact .inr ⟨name, declarators, first, children, stored.later grows begins⟩

theorem notesNoStruct_of_none (none : ∀ part ∈ tree.children, part.note.symbol = none)
    (symbols : Array Symbol) : tree.NotesNoStruct symbols := by
  intro part member id noted
  rw [none part member] at noted
  contradiction

theorem notesNoStruct_of_plain (plain : Numbering.IsPlain tree) (symbols : Array Symbol) :
    tree.NotesNoStruct symbols :=
  notesNoStruct_of_none (fun _ member => (plain.child member).untouched.1) symbols

end

end Tree

def Tree.IsUnmarked (tree : Tree) : Prop :=
  tree.kind = .struct → ∀ part ∈ tree.children, part.note.symbol = none

theorem Tree.isUnmarked_with_note {tree : Tree} (plain : Numbering.IsPlain tree) (note : Note) :
    IsUnmarked { tree with note } :=
  fun _ _ member => (plain.child member).untouched.1

theorem Tree.isUnmarked_of_plain {tree : Tree} (plain : Numbering.IsPlain tree) :
    tree.IsUnmarked :=
  tree.isUnmarked_with_note plain tree.note

theorem Tree.IsUnmarked.marksStruct {tree : Tree} (unmarked : tree.IsUnmarked)
    (symbols : Array Symbol) (log : List LogEntry) : tree.MarksStruct symbols log :=
  fun isStruct => .inl (notesNoStruct_of_none (unmarked isStruct) symbols)

/-! ## Expressions -/

namespace Expression

/-- How an expression has been annotated: only names get symbols, and what looks like a struct
is left alone. -/
structure Evaluated (tree annotated : Tree) : Prop where
  symbol : tree.kind ≠ .identifier → annotated.note.symbol = none
  struct : annotated.kind = .struct → annotated = tree
  parts : ∀ part ∈ annotated.children, part.IsUnmarked

theorem Evaluated.isUnmarked {tree annotated : Tree} (plain : Numbering.IsPlain tree)
    (evaluated : Evaluated tree annotated) : annotated.IsUnmarked := by
  intro isStruct
  rw [evaluated.struct isStruct]
  exact fun _ member => (plain.child member).untouched.1

theorem closed_evaluated {node : Tree} (plain : Numbering.IsPlain node) (state : AnalysisState) :
    Ends (closed node) state fun annotated _ => Evaluated node annotated := by
  have kept : ∀ part ∈ node.children, part.IsUnmarked :=
    fun part member => Tree.isUnmarked_of_plain (plain.child member)
  have unchanged : Evaluated node node := ⟨fun _ => plain.untouched.1, fun _ => rfl, kept⟩
  have noted (other : node.kind ≠ .struct) (attributes : Attributes) :
      Evaluated node (node.mapNote (·.add attributes)) :=
    ⟨fun _ => plain.untouched.1, fun isStruct => absurd isStruct other, kept⟩
  unfold closed
  split
  case h_1 isIdentifier =>
    apply Ends.bind
    apply Ends.get
    split
    · exact .bind (.modify (.pure unchanged))
    · apply Ends.bind
      apply Ends.run
      apply Ends.pure
      exact ⟨fun other => absurd isIdentifier other,
        fun isStruct => by simp [Tree.mapNote, isIdentifier] at isStruct, kept⟩
  case h_2 isLiteral => exact .pure (noted (by simp [isLiteral]) _)
  case h_3 type isAllocation children =>
    apply (newStruct_reports node type state).ends
    rintro _ problems ⟨⟨note, typeNote, rfl, number, -⟩, -⟩
    refine ⟨fun _ => number.trans plain.untouched.1,
      fun isStruct => by simp [isAllocation] at isStruct, ?_⟩
    rw [List.forall_mem_singleton]
    exact Tree.isUnmarked_with_note (plain.child (by simp [children])) typeNote
  case h_8 => exact .bind (.modify (.pure unchanged))
  all_goals
    rename_i isKind
    exact .bind (.modify (.pure (noted (by simp [isKind]) _)))

section

variable {kind : Kind} {location : Location} {text : String} {note : Note} {children : List Tree}

theorem evaluated_mk (other : kind ≠ .struct) {tree : Tree} (number : note.symbol = none)
    (parts : ∀ part ∈ children, part.IsUnmarked) :
    Evaluated tree ⟨kind, location, text, note, children⟩ where
  symbol _ := number
  struct isStruct := absurd isStruct other
  parts := parts

theorem call_evaluated (other : kind ≠ .struct) (number : note.symbol = none) {tree callee : Tree}
    (plain : Numbering.IsPlain callee) {arguments : List Tree}
    (unmarked : ∀ part ∈ arguments, part.IsUnmarked) (state : AnalysisState) :
    Ends (call ⟨kind, location, text, note, []⟩ callee arguments) state fun annotated _ =>
      Evaluated tree annotated := by
  have made (note : Note) (number : note.symbol = none) {callee : Tree}
      (first : callee.IsUnmarked) :
      Evaluated tree ⟨kind, location, text, note, callee :: arguments⟩ :=
    evaluated_mk other number (List.forall_mem_cons.mpr ⟨first, unmarked⟩)
  have unchanged := made note number (Tree.isUnmarked_of_plain plain)
  apply Ends.bind
  apply Ends.get
  split
  · exact .bind (.modify (.pure unchanged))
  · apply Ends.bind
    apply Ends.run
    split
    · exact .bind (.modify (.pure unchanged))
    · refine .bind (.run (.pure (made (note.addType _ _) number ?_)))
      exact Tree.isUnmarked_with_note plain _

theorem select_evaluated (other : kind ≠ .struct) (number : note.symbol = none)
    {tree object field : Tree} (unmarked : object.IsUnmarked) (plain : Numbering.IsPlain field)
    (state : AnalysisState) :
    Ends (select ⟨kind, location, text, note, []⟩ object field) state fun annotated _ =>
      Evaluated tree annotated := by
  have made (note : Note) (number : note.symbol = none) {field : Tree} (last : field.IsUnmarked) :
      Evaluated tree ⟨kind, location, text, note, [object, field]⟩ :=
    evaluated_mk other number (by simpa using ⟨unmarked, last⟩)
  have unchanged := made note number (Tree.isUnmarked_of_plain plain)
  unfold select
  dsimp only
  split
  · exact .pure unchanged
  · apply Ends.bind
    apply Ends.run
    split
    · exact .pure unchanged
    · refine .bind (.run (.pure (made (note.addType _ _) number ?_)))
      exact Tree.isUnmarked_with_note plain _

end

theorem isCheckLaw_evaluated : IsCheckLaw (fun _ => Numbering.IsPlain)
    (fun _ tree annotated _ => Evaluated tree annotated)
    (fun _ trees annotated _ =>
      (∀ tree ∈ trees, Numbering.IsPlain tree) → ∀ part ∈ annotated, part.IsUnmarked)
    (fun _ _ _ _ => True) where
  operand plain member _ := plain.child (Tree.mem_children_of_mem_operands member)
  nil _ := by simp
  cons evaluated unmarked plain := by
    rw [List.forall_mem_cons] at plain
    exact List.forall_mem_cons.mpr ⟨evaluated.isUnmarked plain.1, unmarked plain.2⟩
  call plain unmarked := (call_onlyReports _ _ _).reports
    (call_evaluated (by simp) plain.untouched.1 (plain.child (by simp))
      (unmarked fun _ member => plain.child (by simp [member])) _)
  select {_ _ _ note _ _ _ _} plain evaluated := by
    have number : (note.add elementAttributes).symbol = none := plain.untouched.1
    exact (select_onlyReports _ _ _).reports (select_evaluated (by simp) number
      (evaluated.isUnmarked (plain.child (by simp))) (plain.child (by simp)) _)
  index plain evaluated evaluatedPosition := by
    apply (index_reports _ _ _ _).imp
    rintro _ problems ⟨⟨note, rfl, number⟩, -⟩
    refine evaluated_mk (by simp) (number.trans plain.untouched.1) ?_
    simpa using ⟨evaluated.isUnmarked (plain.child (by simp)),
      evaluatedPosition.isUnmarked (plain.child (by simp))⟩
  declared _ _ := (declaredType_onlyReports _ _).reports trivial
  newArray plain _ evaluated := by
    apply (newArray_reports _ _ _ _ _).imp
    rintro _ more ⟨⟨note, typeNote, rfl, number, -⟩, -⟩
    refine evaluated_mk (by simp) (number.trans plain.untouched.1) ?_
    simpa using ⟨Tree.isUnmarked_with_note (plain.child (by simp)) typeNote,
      evaluated.isUnmarked (plain.child (by simp))⟩
  newString plain evaluated := by
    apply (newString_reports _ _ _).imp
    rintro _ problems ⟨⟨note, rfl, number⟩, -⟩
    refine evaluated_mk (by simp) (number.trans plain.untouched.1) ?_
    simpa using evaluated.isUnmarked (plain.child (by simp))
  assign plain evaluated evaluatedValue := by
    apply (assign_reports _ _ _ _).imp
    rintro _ problems ⟨⟨note, rfl, number⟩, -⟩
    refine evaluated_mk (by simp) (number.trans plain.untouched.1) ?_
    simpa using ⟨evaluated.isUnmarked (plain.child (by simp)),
      evaluatedValue.isUnmarked (plain.child (by simp))⟩
  binary plain evaluated evaluatedRight := by
    apply (binary_reports _ _ _ _ _).imp
    rintro _ problems ⟨⟨note, rfl, number⟩, -⟩
    refine evaluated_mk (by simp) (number.trans plain.untouched.1) ?_
    simpa using ⟨evaluated.isUnmarked (plain.child (by simp)),
      evaluatedRight.isUnmarked (plain.child (by simp))⟩
  unary plain evaluated := by
    apply (requireInteger_reports _ _ _).imp
    intro _ problems _
    refine evaluated_mk (by simp) plain.untouched.1 (List.forall_mem_cons.mpr
      ⟨evaluated.isUnmarked (plain.child (by simp)), fun part member => ?_⟩)
    exact Tree.isUnmarked_of_plain (plain.child (by simp [member]))
  leaf plain _ := (closed_onlyReports _).reports (closed_evaluated plain _)

theorem check_evaluated (tree : Tree) (plain : Numbering.IsPlain tree) (state : AnalysisState) :
    Ends (check tree) state fun annotated _ => Evaluated tree annotated :=
  (isCheckLaw_evaluated.expression plain).ends fun _ _ evaluated => evaluated

end Expression

/-! ## Declarations -/

namespace Declaration

/-- Only the declared name gets the symbol that has been stored for it. -/
theorem annotateName_notes {declarator : Tree} (plain : Numbering.IsPlain declarator)
    (type : ValueType) (roles : Roles) (symbols : Array Symbol) {symbol : Symbol}
    (noStruct : symbol.fields? = none) :
    (annotateName type roles symbols.size declarator).NotesNoStruct (symbols.push symbol) := by
  intro part member number noted
  rcases Tree.mem_children_mapDeclaredName member with there | ⟨name, declared, rfl⟩
  · rw [(plain.child there).untouched.1] at noted
    contradiction
  · cases noted
    exact ⟨symbol, Array.getElem?_push_size, noStruct⟩

theorem checkField_notes (structName : String) (table : Table) {declarator : Tree}
    (plain : Numbering.IsPlain declarator) (state : AnalysisState) :
    Ends (checkField structName table declarator) state fun result after =>
      result.2.NotesNoStruct after.symbols := by
  apply Ends.bind
  apply (declaredType_reports _ _ _).ends
  intro type problems _
  cases declared : declarator.declaredName? with
  | none => exact .bind (.modify (.pure (Tree.notesNoStruct_of_plain plain _)))
  | some name =>
      have annotated := annotateName_notes plain type { isField := true } state.symbols
        (show Symbol.fields? { type, role := .field, location := name.location } = none from rfl)
      apply Ends.bind
      apply Ends.modifyGet
      dsimp only
      split
      · exact .bind (.run (.bind (.run (.pure annotated))))
      · exact .bind (.pure (.pure annotated))

theorem checkFields_notes (structName : String) (table : Table) {declarators : List Tree}
    (plain : ∀ declarator ∈ declarators, Numbering.IsPlain declarator) (state : AnalysisState) :
    Ends (checkFields structName table declarators) state fun result after =>
      ∀ declarator ∈ result.2, declarator.NotesNoStruct after.symbols := by
  induction declarators generalizing table state with
  | nil => exact .pure (by simp)
  | cons declarator rest induction =>
      rw [List.forall_mem_cons] at plain
      apply Ends.bind
      apply (checkField_notes structName table plain.1 state).imp
      rintro ⟨table, first⟩ middle notes
      apply Ends.bind
      apply ((induction table plain.2 middle).and
        ((isStorageLaw_onlyAdds.checkFields structName table rest).ends middle)).imp
      rintro ⟨table, others⟩ after ⟨notesRest, leads⟩
      exact .pure (List.forall_mem_cons.mpr ⟨notes.grows leads.grows, notesRest⟩)

/-- A declaration gets no symbol itself, and nothing inside it looks like a struct. -/
structure Annotates (symbols : Array Symbol) (node annotated : Tree) : Prop where
  kind : annotated.kind = node.kind
  number : annotated.note.symbol = node.note.symbol
  parts : ∀ part ∈ annotated.children, part.kind = .struct → part.NotesNoStruct symbols

theorem Annotates.grows {symbols more : Array Symbol} {node annotated : Tree}
    (annotates : Annotates symbols node annotated) (grows : Grows symbols more) :
    Annotates more node annotated :=
  { annotates with
    parts := fun part member isStruct => (annotates.parts part member isStruct).grows grows }

theorem Annotates.refl {node : Tree} (plain : Numbering.IsPlain node) (symbols : Array Symbol) :
    Annotates symbols node node where
  kind := rfl
  number := rfl
  parts _ member _ := Tree.notesNoStruct_of_plain (plain.child member) symbols

theorem checkStruct_annotates {node : Tree} (plain : Numbering.IsPlain node)
    (state : AnalysisState) :
    Ends (checkStruct node) state fun annotated after =>
      Annotates after.symbols node annotated := by
  have unnamed : Ends (do report (.unnamedStruct node.location); return node) state
      fun annotated after => Annotates after.symbols node annotated :=
    .bind (.modify (.pure (.refl plain _)))
  unfold checkStruct
  split
  case h_2 => exact unnamed
  case h_1 name declarators children =>
    split
    case isTrue => exact unnamed
    case isFalse named =>
      have parts : ∀ declarator ∈ declarators, Numbering.IsPlain declarator :=
        fun _ member => plain.child (by simp [children, member])
      apply Ends.bind
      apply (checkFields_notes name.text {} parts state).imp
      rintro ⟨table, annotated⟩ middle notes
      apply Ends.bind
      apply Ends.modifyGet
      apply Ends.bind
      apply ((registerStruct_onlyAdds _ _ _).ends _).imp
      intro _ after leads
      apply Ends.pure
      refine ⟨rfl, rfl, List.forall_mem_cons.mpr ⟨fun isStruct => ?_, fun part member _ => ?_⟩⟩
      · exact absurd isStruct (by simp_all [Tree.mapNote])
      · exact (notes part member).grows ((Grows.push _ _).trans leads.grows)

theorem checkVariable_annotates {node : Tree} (plain : Numbering.IsPlain node)
    (state : AnalysisState) :
    Ends (checkVariable node) state fun annotated after =>
      Annotates after.symbols node annotated := by
  have declaring (name : String) (id : Nat) {annotated : Tree} {middle : AnalysisState}
      (annotates : Annotates middle.symbols node annotated) :
      Ends (do
        declare .innermost name id
        recordSymbol name id
        return annotated) middle fun annotated after =>
          Annotates after.symbols node annotated := by
    apply Ends.bind
    apply ((declare_onlyAdds .innermost name id).ends middle).imp
    intro _ declared leads
    apply Ends.bind
    apply ((recordSymbol_onlyAdds name id).ends declared).imp
    intro _ after further
    exact .pure (annotates.grows (leads.trans further).grows)
  unfold checkVariable
  split
  case h_1 => exact .bind (.modify (.pure (.refl plain _)))
  case h_2 declarator values children =>
    apply Ends.bind
    apply (declaredType_reports none declarator state).ends
    intro type problems _
    cases declared : declarator.declaredName? with
    | none => exact .bind (.modify (.pure (.refl plain _)))
    | some name =>
        have plainDeclarator : Numbering.IsPlain declarator := plain.child (by simp [children])
        apply Ends.bind
        apply Ends.run
        apply Ends.bind
        apply Ends.get
        apply Ends.bind
        apply Ends.modifyGet
        cases values with
        | nil =>
            apply Ends.bind
            apply Ends.pure
            apply declaring
            refine ⟨rfl, rfl, List.forall_mem_singleton.mpr fun _ => ?_⟩
            exact annotateName_notes plainDeclarator type _ state.symbols rfl
        | cons value rest =>
            apply Ends.bind
            apply ((Expression.check_evaluated value (plain.child (by simp [children])) _).and
              ((Expression.check_onlyReports value).onlyAdds.ends _)).imp
            rintro value evaluated ⟨unmarked, leads⟩
            apply Ends.bind
            apply ((requireCompatible_onlyReports _ _ _).onlyAdds.ends evaluated).imp
            intro _ compared further
            apply Ends.bind
            apply Ends.pure
            apply declaring
            have grows := (leads.trans further).grows
            refine ⟨rfl, rfl, List.forall_mem_cons.mpr ⟨fun _ => ?_, List.forall_mem_cons.mpr
              ⟨fun isStruct => ?_, fun part member _ => ?_⟩⟩⟩
            · exact (annotateName_notes plainDeclarator type _ state.symbols rfl).grows grows
            · exact Tree.notesNoStruct_of_none
                (unmarked.isUnmarked (plain.child (by simp [children])) isStruct) _
            · exact Tree.notesNoStruct_of_plain (plain.child (by simp [children, member])) _

/-- A parameter is noted below its declarator, not on it. -/
theorem checkParameter_unnumbered {declarator : Tree} (plain : Numbering.IsPlain declarator)
    (state : AnalysisState) :
    Ends (checkParameter declarator) state fun annotated _ => annotated.note.symbol = none := by
  apply Ends.bind
  apply (declaredType_reports none declarator state).ends
  intro type problems _
  have number := plain.untouched.1
  cases declared : declarator.declaredName? with
  | none => exact .bind (.modify (.pure number))
  | some name =>
      exact .bind (.run (.bind (.get (.bind (.run (.bind (.run (.bind (.run (.pure number))))))))))

theorem checkParameters_unnumbered {declarators : List Tree}
    (plain : ∀ declarator ∈ declarators, Numbering.IsPlain declarator) (state : AnalysisState) :
    Ends (checkParameters declarators) state fun annotated _ =>
      ∀ part ∈ annotated, part.note.symbol = none := by
  induction declarators generalizing state with
  | nil => exact .pure (by simp)
  | cons declarator rest induction =>
      rw [List.forall_mem_cons] at plain
      apply Ends.bind
      apply (checkParameter_unnumbered plain.1 state).imp
      intro annotated middle number
      apply Ends.bind
      apply (induction plain.2 middle).imp
      intro others after numbers
      exact .pure (List.forall_mem_cons.mpr ⟨number, numbers⟩)

theorem openFunction_notes {node declarator parameters : Tree}
    (plain : Numbering.IsPlain declarator) (plainParameters : Numbering.IsPlain parameters)
    (state : AnalysisState) :
    Ends (openFunction node declarator parameters) state fun opened after =>
      ∀ heading ∈ opened, heading.declarator.NotesNoStruct after.symbols ∧
        heading.parameters.NotesNoStruct after.symbols := by
  apply Ends.bind
  apply (declaredType_reports none declarator state).ends
  intro type problems _
  cases declared : declarator.declaredName? with
  | none => exact .bind (.modify (.pure (by simp)))
  | some name =>
      apply Ends.bind
      apply Ends.get
      apply Ends.bind
      apply Ends.modifyGet
      apply Ends.bind
      apply ((recordSymbol_onlyAdds _ _).ends _).imp
      intro _ recorded recording
      apply Ends.bind
      apply ((declare_onlyAdds _ _ _).ends recorded).imp
      intro _ named naming
      apply Ends.bind
      apply (enter_onlyAdds.ends named).imp
      intro _ entered entering
      apply Ends.bind
      apply ((checkParameters_unnumbered (fun _ member => plainParameters.child member) entered).and
        ((isStorageLaw_onlyAdds.checkParameters _).ends entered)).imp
      rintro children listed ⟨unnumbered, listing⟩
      apply Ends.bind
      apply ((record_onlyAdds .separator).ends listed).imp
      intro _ after separating
      apply Ends.pure
      have leads := recording.trans (naming.trans (entering.trans (listing.trans separating)))
      rintro _ ⟨⟩
      exact ⟨(annotateName_notes plain type _ state.symbols rfl).grows leads.grows,
        Tree.notesNoStruct_of_none unnumbered _⟩

end Declaration

/-! ## Statements -/

theorem Ledger.IsKept.isPlainSymbol {ledger : Ledger} (kept : ledger.IsKept) {name : String}
    {id : Nat} (found : ledger.scopes.find? name = some id) : IsPlainSymbol ledger.symbols id := by
  have inTable {block : Nat} {table : Table}
      (same : table = scopeTable ledger.symbols ledger.log block)
      (found : table.find? name = some id) : IsPlainSymbol ledger.symbols id := by
    have entry := Table.mem_entries_of_find? found
    rw [same] at entry
    rcases kept.arranged.mem_scopeTable entry with ⟨symbol, stored, -, kind⟩
    refine ⟨symbol, stored, ?_⟩
    simp only [Symbol.isFunction, Symbol.isVariable, Symbol.fields?] at kind ⊢
    cases role : symbol.role <;> simp_all [SymbolRole.roles]
  rw [Scopes.find?, Option.or_eq_some_iff] at found
  rcases found with inside | outside
  · rcases List.exists_of_findSome?_eq_some inside with ⟨scope, member, here⟩
    exact inTable (kept.inner scope member) here
  · exact inTable kept.globals outside.2

theorem Expression.check_symbol {tree : Tree} (plain : Numbering.IsPlain tree)
    {state : AnalysisState} (kept : state.ledger.IsKept) :
    Ends (check tree) state fun annotated after =>
      ∀ id, annotated.note.symbol = some id → IsPlainSymbol after.symbols id := by
  by_cases isIdentifier : tree.kind = .identifier
  · have leaf : tree.hasOperands = false := by
      rcases tree with ⟨kind, location, text, note, children⟩
      simp only at isIdentifier
      subst isIdentifier
      rfl
    have same : closed tree = identifier tree := by
      unfold closed
      split <;> simp_all
    rw [check_leaf leaf, same]
    apply Ends.bind
    apply Ends.get
    cases found : state.scopes.find? tree.text with
    | none =>
        rw [Scopes.lookup_of_missing found]
        refine .bind (.modify (.pure fun id noted => ?_))
        rw [plain.untouched.1] at noted
        contradiction
    | some id =>
        rw [Scopes.lookup_of_found found]
        apply Ends.bind
        apply Ends.run
        apply Ends.pure
        rintro _ ⟨⟩
        exact kept.isPlainSymbol found
  · apply (check_evaluated tree plain state).imp
    intro annotated after evaluated id noted
    rw [evaluated.symbol isIdentifier] at noted
    contradiction

namespace Statement

structure Marked (symbols : Array Symbol) (log : List LogEntry) (annotated : Tree) : Prop where
  item : annotated.MarksStruct symbols log
  symbol : ∀ id, annotated.note.symbol = some id → IsPlainSymbol symbols id

namespace Marked

variable {symbols : Array Symbol} {log : List LogEntry} {annotated : Tree}

theorem later {before after : AnalysisState} (marked : Marked before.symbols before.log annotated)
    (leads : before.LeadsTo after) : Marked after.symbols after.log annotated where
  item := marked.item.later leads.grows leads.log
  symbol id noted := by
    rcases marked.symbol id noted with ⟨symbol, stored, noStruct⟩
    exact ⟨symbol, leads.grows _ _ stored, noStruct⟩

theorem of_unmarked (number : annotated.note.symbol = none) (unmarked : annotated.IsUnmarked) :
    Marked symbols log annotated where
  item := unmarked.marksStruct symbols log
  symbol id noted := by
    rw [number] at noted
    contradiction

theorem of_plain (plain : Numbering.IsPlain annotated) : Marked symbols log annotated :=
  of_unmarked plain.untouched.1 (Tree.isUnmarked_of_plain plain)

/-- A node that is no struct and has no symbol. -/
theorem of_kind (other : annotated.kind ≠ .struct) (number : annotated.note.symbol = none) :
    Marked symbols log annotated :=
  of_unmarked number fun isStruct => absurd isStruct other

end Marked

variable {result : Option ValueType} {state : AnalysisState}

theorem checkStruct_marked {node : Tree} (plain : Numbering.IsPlain node)
    (state : AnalysisState) :
    Ends (Declaration.checkStruct node) state fun annotated after =>
      Marked after.symbols after.log annotated := by
  apply ((Declaration.checkStruct_stored state node).and
    (Declaration.checkStruct_annotates plain state)).imp
  rintro annotated after ⟨rfl | ⟨name, declarators, children, stored⟩, annotates⟩
  · exact .of_plain plain
  · refine ⟨fun _ => .inr ⟨name, declarators, _, children, stored⟩, fun id noted => ?_⟩
    rw [annotates.number, plain.untouched.1] at noted
    contradiction

theorem simple_marked {node : Tree} (plain : Numbering.IsPlain node)
    (kept : state.ledger.IsKept) :
    Ends (Statement.simple result node) state fun annotated after =>
      Marked after.symbols after.log annotated := by
  have same (after : AnalysisState) : Marked after.symbols after.log node := .of_plain plain
  unfold Statement.simple
  split
  case h_1 => exact checkStruct_marked plain state
  case h_2 isVariable =>
    apply (Declaration.checkVariable_annotates plain state).imp
    intro annotated after annotates
    exact .of_kind (by simp [annotates.kind, isVariable])
      (annotates.number.trans plain.untouched.1)
  case h_3 =>
    dsimp only
    split
    · exact .bind (.run (.pure (same _)))
    · exact .pure (same _)
  case h_4 isReturn _ =>
    exact .bind (.run (.bind (.run (.pure (.of_kind (by simp [isReturn]) plain.untouched.1)))))
  case h_16 =>
    apply ((Expression.check_evaluated node plain state).and
      (Expression.check_symbol plain kept)).imp
    rintro annotated after ⟨evaluated, symbol⟩
    exact ⟨(evaluated.isUnmarked plain).marksStruct _ _, symbol⟩
  all_goals first
    | exact .bind (.run (.pure (same _)))
    | exact .pure (same _)

theorem check_keeps (tree : Tree) (result : Option ValueType) (state : AnalysisState) :
    Ends (check result tree) state fun _ after =>
      state.LeadsTo after ∧ (state.ledger.IsKept → after.ledger.IsKept) := by
  apply ((isStorageLaw_onlyAdds.isStepLaw.check tree result).ends state).and
  apply (check_books tree result state.ledger state rfl).imp
  intro _ after same kept
  rw [same]
  exact kept.run _

theorem checkAll_keeps (trees : List Tree) (result : Option ValueType) (state : AnalysisState) :
    Ends (checkAll result trees) state fun _ after =>
      state.LeadsTo after ∧ (state.ledger.IsKept → after.ledger.IsKept) := by
  apply ((isStorageLaw_onlyAdds.isStepLaw.checkAll trees result).ends state).and
  apply (isCheckLaw_books.statements (fun _ _ => trivial) result state).imp
  intro _ after same kept
  rw [same]
  exact kept.run _

/-! ## Parts -/

def PartsMark (symbols : Array Symbol) (log : List LogEntry) (tree : Tree) : Prop :=
  ∀ part ∈ tree.children, part.MarksStruct symbols log

theorem marksStruct_of_plain {tree : Tree} (plain : Numbering.IsPlain tree)
    (symbols : Array Symbol) (log : List LogEntry) : tree.MarksStruct symbols log :=
  (Tree.isUnmarked_of_plain plain).marksStruct symbols log

theorem partsMark_of_plain {tree : Tree} (plain : Numbering.IsPlain tree)
    (symbols : Array Symbol) (log : List LogEntry) : PartsMark symbols log tree :=
  fun _ member => marksStruct_of_plain (plain.child member) symbols log

theorem simple_parts {node : Tree} (plain : Numbering.IsPlain node) (state : AnalysisState) :
    Ends (Statement.simple result node) state fun annotated after =>
      PartsMark after.symbols after.log annotated := by
  have same (after : AnalysisState) : PartsMark after.symbols after.log node :=
    partsMark_of_plain plain _ _
  unfold Statement.simple
  split
  case h_1 =>
    exact (Declaration.checkStruct_annotates plain state).imp
      fun _ _ annotates part member isStruct => .inl (annotates.parts part member isStruct)
  case h_2 =>
    exact (Declaration.checkVariable_annotates plain state).imp
      fun _ _ annotates part member isStruct => .inl (annotates.parts part member isStruct)
  case h_3 =>
    dsimp only
    split
    · exact .bind (.run (.pure (same _)))
    · exact .pure (same _)
  case h_4 value rest _ children =>
    have plainValue : Numbering.IsPlain value := plain.child (by simp [children])
    apply Ends.bind
    apply (Expression.check_evaluated value plainValue state).imp
    intro value middle evaluated
    apply Ends.bind
    apply Ends.run
    apply Ends.pure
    refine List.forall_mem_cons.mpr ⟨(evaluated.isUnmarked plainValue).marksStruct _ _, ?_⟩
    exact fun part member => marksStruct_of_plain (plain.child (by simp [children, member])) _ _
  case h_16 =>
    exact (Expression.check_evaluated node plain state).imp
      fun _ _ evaluated part member => (evaluated.parts part member).marksStruct _ _
  all_goals first
    | exact .bind (.run (.pure (same _)))
    | exact .pure (same _)

theorem closeFunction_parts {symbols : Array Symbol} {log : List LogEntry} (node : Tree)
    {heading : Declaration.Heading} {rest : List Tree}
    (notes : heading.declarator.NotesNoStruct symbols ∧ heading.parameters.NotesNoStruct symbols)
    (parts : ∀ part ∈ rest, part.MarksStruct symbols log) :
    PartsMark symbols log (Declaration.closeFunction node heading rest) :=
  List.forall_mem_cons.mpr ⟨fun _ => .inl notes.1,
    List.forall_mem_cons.mpr ⟨fun _ => .inl notes.2, parts⟩⟩

theorem condition_unmarked {test : Tree} (plain : Numbering.IsPlain test)
    (state : AnalysisState) :
    Ends (condition test) state fun annotated _ => annotated.IsUnmarked := by
  apply Ends.bind
  apply (Expression.check_evaluated test plain state).imp
  intro test middle evaluated
  exact .bind (.run (.pure (evaluated.isUnmarked plain)))

theorem close_onlyAdds : OnlyAdds (do leave; record .separator) :=
  .bind leave_onlyAdds fun _ => record_onlyAdds _

theorem bodiless_onlyAdds (place : Location) :
    OnlyAdds (do malformed .function place; leave; record .separator) :=
  .bind (report_onlyAdds _) fun _ => close_onlyAdds

theorem openFunction_notesKept {node declarator parameters : Tree}
    (plain : Numbering.IsPlain declarator) (plainParameters : Numbering.IsPlain parameters)
    (state : AnalysisState) :
    Ends (Declaration.openFunction node declarator parameters) state fun opened inside =>
      (∀ heading ∈ opened, heading.declarator.NotesNoStruct inside.symbols ∧
        heading.parameters.NotesNoStruct inside.symbols) ∧
        (state.ledger.IsKept → inside.ledger.IsKept) := by
  apply ((Declaration.openFunction_notes plain plainParameters state).and
    (openFunction_changes node declarator parameters state rfl)).imp
  rintro opened inside ⟨notes, -, same⟩
  refine ⟨notes, fun kept => ?_⟩
  rw [same]
  exact kept.run _

/-- Statements mark structs that have been stored, and so do their parts. -/
theorem isCheckLaw_marked : IsCheckLaw Numbering.IsPlain
    (fun _ state _ annotated after => state.ledger.IsKept →
      Marked after.symbols after.log annotated ∧ PartsMark after.symbols after.log annotated)
    (fun _ state _ annotated after => state.ledger.IsKept →
      ∀ tree ∈ annotated, Marked after.symbols after.log tree)
    (fun state _ _ _ opened inside =>
      (∀ heading ∈ opened, heading.declarator.NotesNoStruct inside.symbols ∧
        heading.parameters.NotesNoStruct inside.symbols) ∧
        (state.ledger.IsKept → inside.ledger.IsKept))
    (fun state _ annotated after =>
      annotated.IsUnmarked ∧ (state.ledger.IsKept → after.ledger.IsKept))
    (fun _ state after => state.LeadsTo after ∧ (state.ledger.IsKept → after.ledger.IsKept)) where
  child plain member := plain.child member
  checked := check_keeps
  checkedAll := checkAll_keeps
  nil _ _ _ := by simp
  cons marked before markedRest behind kept := List.forall_mem_cons.mpr
    ⟨(marked kept).1.later behind.1, markedRest (before.2 kept)⟩
  root plain marked kept := ⟨.of_kind (by simp) plain.untouched.1,
    fun part member => (marked kept part member).item⟩
  block {_ _ middle _ _ _ _ _} plain marked := by
    apply (leave_onlyAdds.ends middle).imp
    intro _ after leads kept
    exact ⟨.of_kind (by simp) plain.untouched.1, fun part member =>
      (marked kept.enter part member).item.later leads.grows leads.log⟩
  opened _ plain := openFunction_notesKept (plain.child (by simp)) (plain.child (by simp)) _
  nameless _ plain _ _ := ⟨.of_plain plain, partsMark_of_plain plain _ _⟩
  bodiless {_ _ inside place _ _ _ _ _} plain opening := by
    apply ((bodiless_onlyAdds place).ends inside).imp
    intro _ after leads _
    have heads := opening.1 _ rfl
    exact ⟨.of_kind (by simp [Declaration.closeFunction]) plain.untouched.1, closeFunction_parts _
      ⟨heads.1.grows leads.grows, heads.2.grows leads.grows⟩ (by simp)⟩
  function {_ _ _ middle _ _ _ _ _ _ _ _ _ _ _ _ _} plain body opening marked between := by
    apply (close_onlyAdds.ends middle).imp
    intro _ after leads kept
    have heads := opening.1 _ rfl
    have grows := (between.1.trans leads).grows
    refine ⟨.of_kind (by simp [Declaration.closeFunction]) plain.untouched.1, closeFunction_parts _
      ⟨heads.1.grows grows, heads.2.grows grows⟩ (List.forall_mem_cons.mpr ⟨?_, ?_⟩)⟩
    · -- A function body is no statement, but its children are.
      refine fun _ => .inl (Tree.NotesNoStruct.grows ?_ leads.grows)
      exact fun part member => (marked (opening.2 kept) part member).symbol
    · exact fun part member => marksStruct_of_plain (plain.child (by simp [member])) _ _
  prototype {_ _ inside _ _ _ _ _ _ _} plain opening := by
    apply (leave_onlyAdds.ends inside).imp
    intro _ after leads _
    have heads := opening.1 _ rfl
    exact ⟨.of_kind (by simp [Declaration.closeFunction]) plain.untouched.1, closeFunction_parts _
      ⟨heads.1.grows leads.grows, heads.2.grows leads.grows⟩
      fun part member => marksStruct_of_plain (plain.child (by simp [member])) _ _⟩
  condition {state test} plain := (condition_unmarked plain state).and fun kept =>
    Books.of_onlyReports (condition_onlyReports test) (fun _ => kept) state rfl
  control {_ _ _ _ kind _ _ _ _ _ _ _} control plain tested marked _ kept := by
    refine ⟨.of_kind ?_ plain.untouched.1, List.forall_mem_cons.mpr
      ⟨tested.1.marksStruct _ _, fun part member => (marked (tested.2 kept) part member).item⟩⟩
    rintro rfl
    contradiction
  simple plain _ kept := (simple_marked plain kept).and (simple_parts plain _)

/-- Whatever kind of node a tree is, its parts mark structs that have been stored. -/
theorem check_parts {tree : Tree} (plain : Numbering.IsPlain tree)
    (kept : state.ledger.IsKept) :
    Ends (check result tree) state fun annotated after =>
      PartsMark after.symbols after.log annotated := by
  apply (isCheckLaw_marked.statement plain result state).imp
  intro annotated after marked
  exact (marked kept).2

end Statement

end OcLang
