import OcLang.Proofs.Analysis.StructItems
import OcLang.Proofs.Typing.Passed
import OcLang.Proofs.Typing.Statements
import OcLang.Proofs.Typing.StructNames

namespace OcLang

open Check

/-! # Structs are declared before they are named

A type node is looked up in the table of structs before anything is stored under its type. So the
symbols and notes of a program without errors name structs that have been declared, and the fields
of a struct name the struct itself or one that was declared before it. -/

theorem AnalysisState.LeadsTo.accepted {before after : AnalysisState} (leads : before.LeadsTo after)
    (accepted : after.Accepted) : before.Accepted :=
  (Extends.mk leads.grows leads.diagnostics).accepted accepted

/-! ## Changes -/

/-- The structs that a change names have been declared. The fields of a struct may name it. -/
def Change.IsIntroduced (log : List LogEntry) : Change → Prop
  | .enter | .leave | .separate => True
  | .function naming _ _ | .parameter naming | .variable naming => naming.type.IsIntroduced log
  | .struct name _ fields =>
      ∀ field ∈ fields, ∀ other ∈ field.type.structName, MayName log name other

theorem Change.IsIntroduced.later {change : Change} {log longer : List LogEntry}
    (introduced : change.IsIntroduced log) (begins : log <+: longer) :
    change.IsIntroduced longer := by
  cases change with
  | enter | leave | separate => trivial
  | function | parameter | «variable» =>
      exact fun name named => (introduced name named).later begins
  | struct name place fields =>
      exact fun field member other named =>
        (introduced field member other named).imp_right fun declares => declares.later begins

namespace Ledger

theorem mem_fieldTable {stored : Nat} {table : Table} {fields : List TypedName}
    {entry : String × Nat} (member : entry ∈ (fieldTable stored table fields).entries) :
    entry ∈ table.entries ∨ ∃ naming, (naming, entry.2) ∈ fields.zipIdx stored := by
  induction fields generalizing stored table with
  | nil => exact .inl member
  | cons naming rest induction =>
      rw [List.zipIdx_cons]
      rcases induction member with inserted | ⟨other, later⟩
      · rcases Table.mem_entries_insert inserted with rfl | old
        · exact .inr ⟨naming, List.mem_cons_self⟩
        · exact .inl old
      · exact .inr ⟨other, List.mem_cons_of_mem _ later⟩

/-- Behind a struct there are the symbols from before it, those of its fields and its own. -/
theorem of_mem_storeStruct {ledger : Ledger} {name : String} {place : Location}
    {fields : List TypedName} {symbol : Symbol}
    (member : symbol ∈ (ledger.storeStruct name place fields).symbols) :
    symbol ∈ ledger.symbols ∨ (∃ naming ∈ fields, symbol = fieldSymbol naming) ∨
      symbol = .ofStruct name place (fieldTable ledger.symbols.size {} fields) := by
  rw [symbols_storeStruct] at member
  rcases Array.mem_append.mp member with old | new
  · exact .inl old
  · rcases List.mem_append.mp (List.mem_toArray.mp new) with isField | isStruct
    · rcases List.mem_map.mp isField with ⟨naming, among, rfl⟩
      exact .inr (.inl ⟨naming, among, rfl⟩)
    · exact .inr (.inr (List.mem_singleton.mp isStruct))

/-- A struct that has been logged has been stored before what is stored next. -/
theorem IsKept.struct_lt {ledger : Ledger} (kept : ledger.IsKept) {name : String} {id : Nat}
    (logged : .struct name id ∈ ledger.log) : id < ledger.symbols.size := by
  rcases kept.arranged.fit _ logged with ⟨symbol, stored, -⟩
  exact (Array.getElem?_eq_some_iff.mp stored).1

end Ledger

namespace Introduced

variable {ledger : Ledger} (introduced : Introduced ledger.symbols ledger.log)

include introduced

theorem storeStruct (name : String) (place : Location)
    {fields : List TypedName} (named : (Change.struct name place fields).IsIntroduced ledger.log) :
    Introduced (ledger.storeStruct name place fields).symbols
      (ledger.storeStruct name place fields).log := by
  have ⟨grows, begins⟩ : ledger.LeadsTo (ledger.storeStruct name place fields) :=
    ledger.apply_leadsTo (.struct name place fields)
  have declares : DeclaresStruct (ledger.storeStruct name place fields).log name :=
    ⟨(ledger.storeFields fields).symbols.size, by simp [Ledger.storeStruct]⟩
  have introducedField {naming : TypedName} (member : naming ∈ fields) :
      naming.type.IsIntroduced (ledger.storeStruct name place fields).log := by
    intro other here
    rcases named naming member other here with same | earlier
    · cases same
      exact declares
    · exact earlier.later begins
  constructor
  · intro symbol member
    rcases Ledger.of_mem_storeStruct member with old | ⟨naming, among, rfl⟩ | rfl
    · exact fun other here => (introduced.types symbol old other here).later begins
    · exact introducedField among
    · rintro _ ⟨⟩
      exact declares
  · intro struct member table isTable entry inside
    rcases Ledger.of_mem_storeStruct member with old | ⟨naming, -, rfl⟩ | rfl
    · rcases introduced.fields struct old table isTable entry inside with ⟨field, stored⟩
      exact ⟨field, grows _ _ stored⟩
    · contradiction
    · cases isTable
      rcases Ledger.mem_fieldTable inside with none | ⟨naming, numbered⟩
      · contradiction
      · exact ⟨_, Grows.push _ _ _ _ (ledger.getElem?_storeFields numbered)⟩

theorem apply {change : Change} (named : change.IsIntroduced ledger.log) :
    Introduced (ledger.apply change).symbols (ledger.apply change).log := by
  have pushed (target : DeclarationTarget) (name : String) {symbol : Symbol}
      (type : symbol.type.IsIntroduced ledger.log) (noStruct : symbol.fields? = none) :
      Introduced (ledger.introduce target name symbol).symbols
        (ledger.introduce target name symbol).log :=
    (introduced.push type noStruct).later (List.prefix_append ..)
  cases change with
  | enter => exact introduced
  | leave =>
      unfold Ledger.apply
      dsimp only
      split <;> exact introduced
  | separate => exact introduced.later (List.prefix_append ..)
  | function naming isPrototype parameters => exact pushed _ _ named rfl
  | parameter naming => exact pushed _ _ named rfl
  | «variable» naming => exact pushed _ _ named rfl
  | struct name place fields => exact introduced.storeStruct name place named

theorem run {changes : List Change}
    (named : ∀ change ∈ changes, change.IsIntroduced ledger.log) :
    Introduced (ledger.run changes).symbols (ledger.run changes).log := by
  induction changes generalizing ledger with
  | nil => exact introduced
  | cons change rest induction =>
      rw [List.forall_mem_cons] at named
      refine induction (introduced.apply named.1) fun other member => ?_
      exact (named.2 other member).later (ledger.apply_leadsTo change).log

end Introduced

/-- The tables and symbols of a state agree with its log, and only structs that have been declared
are named. -/
structure AnalysisState.IsInOrder (state : AnalysisState) : Prop where
  filed : state.IsFiled
  kept : state.ledger.IsKept
  introduced : Introduced state.symbols state.log

theorem AnalysisState.IsInOrder.start : ({} : AnalysisState).IsInOrder :=
  ⟨rfl, .start, .start⟩

/-! ## Declarators -/

/-- What is noted on a declarator and below it is known, as well as the struct that it states. -/
structure Tree.States (known : String → Prop) (declarator : Tree) : Prop where
  names : declarator.NamesOnly known
  type : declarator.kind = .type .named → known declarator.text

namespace Tree.States

variable {known more : String → Prop} {declarator : Tree}

theorem imp (states : declarator.States known) (implies : ∀ name, known name → more name) :
    declarator.States more where
  names := states.names.imp implies
  type isNamed := implies _ (states.type isNamed)

theorem with_note (states : declarator.States known) {note : Note}
    (here : ∀ name ∈ note.structName, known name) : States known { declarator with note } where
  names := Tree.namesOnly_iff.mpr ⟨here, (Tree.namesOnly_iff.mp states.names).2⟩
  type := states.type

/-- A declarator that nothing was noted on before. -/
theorem of_plain (plain : Numbering.IsPlain declarator)
    (stated : ∀ name ∈ declarator.statedType.structName, known name) : declarator.States known where
  names := Tree.namesOnly_of_plain plain
  type isNamed := stated _ (by rw [structName_statedType, if_pos isNamed]; rfl)

theorem annotateName (plain : Numbering.IsPlain declarator)
    (stated : ∀ name ∈ declarator.statedType.structName, known name) (roles : Roles) (id : Nat) :
    (Declaration.annotateName declarator.statedType roles id declarator).States known where
  names := by
    refine Tree.namesOnly_iff.mpr ⟨plain.isUntyped.names, fun child member => ?_⟩
    rcases Tree.mem_children_mapDeclaredName member with there | ⟨name, declared, rfl⟩
    · exact Tree.namesOnly_of_plain (plain.child there)
    · have member := List.mem_of_getLast? (Option.filter_eq_some_iff.mp declared).1
      exact Tree.namesOnly_with_note (plain.child member) stated
  type := (of_plain plain stated).type

end Tree.States

/-! ## Declarations -/

namespace Check

variable {Value Result : Type}

def KeepsStructs (step : Check Value) : Prop :=
  ∀ state : AnalysisState, Ends step state fun _ after => after.structs = state.structs

namespace KeepsStructs

theorem pure (value : Value) : KeepsStructs (pure value) :=
  fun _ => rfl

theorem bind {step : Check Value} {next : Value → Check Result} (first : KeepsStructs step)
    (rest : ∀ value, KeepsStructs (next value)) : KeepsStructs (step >>= next) :=
  fun state => (rest _ _).trans (first state)

theorem get {next : AnalysisState → Check Result} (rest : ∀ state, KeepsStructs (next state)) :
    KeepsStructs (MonadState.get >>= next) :=
  fun state => rest state state

theorem of_onlyReports {step : Check Value} (reports : OnlyReports step) : KeepsStructs step := by
  intro state
  obtain ⟨problems, after⟩ := reports state
  rw [Ends, after]
  rfl

end KeepsStructs

theorem declare_keepsStructs (target : DeclarationTarget) (name : String) (id : Nat) :
    KeepsStructs (declare target name id) := by
  intro state
  refine .bind (.get (.bind (.set ?_)))
  split
  · exact .pure rfl
  · dsimp only
    split <;> exact rfl

/-- Unless an error is reported, the first type that a step looks at is known. -/
theorem declaredType_resolved (enclosing : Option String) (declarator : Tree)
    {next : ValueType → Check Value} (adds : ∀ type, OnlyAdds (next type)) (state : AnalysisState) :
    Ends (declaredType enclosing declarator >>= next) state fun _ after =>
      after.Accepted → declarator.Resolves state.structs enclosing := by
  apply Ends.bind
  apply (declaredType_resolves enclosing declarator state).ends
  rintro type problems ⟨-, resolves⟩
  apply ((adds type).ends _).imp
  intro _ after leads accepted
  exact resolves (AnalysisState.accepted_reporting (leads.accepted accepted))

end Check

namespace Declaration

variable {known : String → Prop}

/-! ### Structs -/

theorem checkField_keepsStructs (structName : String) (table : Table) (declarator : Tree) :
    KeepsStructs (checkField structName table declarator) := by
  refine .bind (.of_onlyReports (declaredType_onlyReports _ _)) fun type => ?_
  split
  · exact .of_onlyReports (.bind (.report _) fun _ => .pure _)
  · refine .bind (fun _ => rfl) fun id => ?_
    dsimp only
    split
    · exact .of_onlyReports (.bind (.symbol _) fun _ => .bind (.report _) fun _ => .pure _)
    · exact .pure _

theorem checkField_resolves (structName : String) (table : Table) (declarator : Tree)
    (state : AnalysisState) :
    Ends (checkField structName table declarator) state fun _ after =>
      after.Accepted → declarator.Resolves state.structs structName := by
  refine declaredType_resolved _ _ (fun type => ?_) state
  split
  · exact .bind (report_onlyAdds _) fun _ => .pure _
  · refine .bind (allocate_onlyAdds _) fun id => OnlyReports.onlyAdds ?_
    dsimp only
    split
    · exact .bind (.symbol _) fun _ => .bind (.report _) fun _ => .pure _
    · exact .bind (.pure _) fun _ => .pure _

theorem checkFields_resolves (structName : String) (table : Table) (declarators : List Tree)
    (state : AnalysisState) :
    Ends (checkFields structName table declarators) state fun _ after => after.Accepted →
      ∀ declarator ∈ declarators, declarator.Resolves state.structs structName := by
  induction declarators generalizing table state with
  | nil => exact .pure (by simp)
  | cons declarator rest induction =>
      apply Ends.bind
      apply ((checkField_resolves structName table declarator state).and
        (checkField_keepsStructs structName table declarator state)).imp
      rintro ⟨table, first⟩ middle ⟨resolves, same⟩
      apply Ends.bind
      apply ((induction table middle).and
        ((isStorageLaw_onlyAdds.checkFields structName table rest).ends middle)).imp
      rintro ⟨table, others⟩ after ⟨resolvesRest, leads⟩
      apply Ends.pure
      intro accepted
      rw [same] at resolvesRest
      exact List.forall_mem_cons.mpr ⟨resolves (leads.accepted accepted), resolvesRest accepted⟩

theorem checkField_states (structName : String) (table : Table) {declarator : Tree}
    (plain : Numbering.IsPlain declarator)
    (stated : ∀ name ∈ declarator.statedType.structName, known name) (state : AnalysisState) :
    Ends (checkField structName table declarator) state fun result _ => result.2.States known := by
  apply Ends.bind
  apply (declaredType_resolves _ declarator state).ends
  rintro _ problems ⟨rfl, -⟩
  split
  · exact .bind (.modify (.pure (.of_plain plain stated)))
  · apply Ends.bind
    apply Ends.modifyGet
    have annotated (id : Nat) : Tree.States known
        ((annotateName declarator.statedType { isField := true } id declarator).mapNote
          (·.addType declarator.statedType)) :=
      (Tree.States.annotateName plain stated _ id).with_note stated
    dsimp only
    split
    · exact .bind (.run (.bind (.run (.pure (annotated _)))))
    · exact .bind (.pure (.pure (annotated _)))

theorem checkFields_states (structName : String) (table : Table) {declarators : List Tree}
    (plain : ∀ declarator ∈ declarators, Numbering.IsPlain declarator)
    (stated : ∀ declarator ∈ declarators, ∀ name ∈ declarator.statedType.structName, known name)
    (state : AnalysisState) :
    Ends (checkFields structName table declarators) state fun result _ =>
      ∀ declarator ∈ result.2, declarator.States known := by
  induction declarators generalizing table state with
  | nil => exact .pure (by simp)
  | cons declarator rest induction =>
      rw [List.forall_mem_cons] at plain stated
      apply Ends.bind
      apply (checkField_states structName table plain.1 stated.1 state).imp
      rintro ⟨table, first⟩ middle states
      apply Ends.bind
      apply (induction table plain.2 stated.2 middle).imp
      rintro ⟨table, others⟩ after statesRest
      exact .pure (List.forall_mem_cons.mpr ⟨states, statesRest⟩)

/-- A struct that is not refused names itself and structs from before in its fields. -/
theorem checkStruct_states {node : Tree} (plain : Numbering.IsPlain node)
    (state : AnalysisState) :
    Ends (checkStruct node) state fun annotated after => after.Accepted → state.IsFiled →
      ∃ name declarators, node.children = name :: declarators ∧
        (∀ declarator ∈ declarators, ∀ other ∈ declarator.statedType.structName,
          MayName state.log name.text other) ∧
        ∃ type note others, type.structName = some name.text ∧ note.structName = some name.text ∧
          annotated = { node with
            note := node.note.addType type, children := { name with note } :: others } ∧
          ∀ declarator ∈ others, declarator.States (MayName state.log name.text) := by
  have unnamed : Ends (do report (.unnamedStruct node.location); return node) state
      fun _ after => after.Accepted → False := refused_ends rfl
  unfold checkStruct
  split
  case h_2 => exact unnamed.imp fun _ _ refused accepted => (refused accepted).elim
  case h_1 name declarators children =>
    split
    case isTrue => exact unnamed.imp fun _ _ refused accepted => (refused accepted).elim
    case isFalse =>
      have states : Ends (checkFields name.text {} declarators) state fun result _ =>
          (∀ declarator ∈ declarators, ∀ other ∈ declarator.statedType.structName,
            MayName state.log name.text other) →
              ∀ declarator ∈ result.2, declarator.States (MayName state.log name.text) :=
        fun stated => checkFields_states name.text {}
          (fun _ member => plain.child (by simp [children, member])) stated state
      apply Ends.bind
      apply ((checkFields_resolves name.text {} declarators state).and states).imp
      rintro ⟨table, others⟩ middle ⟨resolves, states⟩
      apply Ends.bind
      apply Ends.modifyGet
      apply Ends.bind
      apply ((registerStruct_onlyAdds _ _ _).ends _).imp
      intro _ after leads
      apply Ends.pure
      intro accepted filed
      have knows : ∀ declarator ∈ declarators, ∀ other ∈ declarator.statedType.structName,
          MayName state.log name.text other :=
        fun declarator member => filed.knows (resolves (leads.accepted accepted) declarator member)
      exact ⟨name, declarators, children, knows, _, _, others, rfl, rfl, rfl, states knows⟩

theorem type_of_naming? {declarators : List Tree} {naming : TypedName}
    (member : naming ∈ declarators.filterMap Tree.naming?) :
    ∃ declarator ∈ declarators, naming.type = declarator.statedType := by
  rcases List.mem_filterMap.mp member with ⟨declarator, among, named⟩
  rcases Option.map_eq_some_iff.mp named with ⟨name, -, rfl⟩
  exact ⟨declarator, among, rfl⟩

theorem checkStruct_introduces {node : Tree} (isStruct : node.kind = .struct)
    (plain : Numbering.IsPlain node) (state : AnalysisState) :
    Ends (checkStruct node) state fun _ after => after.Accepted → state.IsFiled →
      ∀ change ∈ node.simpleChanges, change.IsIntroduced state.log := by
  apply (checkStruct_states plain state).imp
  intro annotated after states accepted filed change member
  rcases states accepted filed with ⟨name, declarators, children, knows, -⟩
  simp only [Tree.simpleChanges, isStruct, children] at member
  split at member
  · rw [List.mem_singleton.mp member]
    intro naming among
    rcases type_of_naming? among with ⟨declarator, here, same⟩
    rw [same]
    exact knows declarator here
  · contradiction

theorem checkStruct_sourced {node : Tree} (isStruct : node.kind = .struct)
    (plain : Numbering.IsPlain node) (state : AnalysisState) :
    Ends (checkStruct node) state fun annotated after => after.Accepted → state.IsInOrder →
      annotated.IsSourced after.symbols after.log := by
  apply (((checkStruct_states plain state).and (checkStruct_stored state node)).and
    ((isStorageLaw_onlyAdds.checkStruct node).ends state)).imp
  rintro annotated after ⟨⟨checked, stored⟩, leads⟩ accepted inOrder
  rcases checked accepted inOrder.filed with
    ⟨name, declarators, children, -, type, note, others, ofType, ofNote, rfl, states⟩
  have plainName : Numbering.IsPlain name := plain.child (by simp [children])
  rcases stored with same | ⟨_, _, same, stored⟩
  · -- The name of the struct is noted, so the node has changed.
    have sameName : { name with note } = name :=
      (List.cons.inj ((congrArg Tree.children same).trans children)).1
    have sameNote : note = name.note := congrArg Tree.note sameName
    rw [sameNote, plainName.isUntyped.structName] at ofNote
    contradiction
  · cases same
    have declares : DeclaresStruct after.log name.text := ⟨_, stored.logged⟩
    have later : ∀ other, MayName state.log name.text other → DeclaresStruct after.log other := by
      rintro other (same | earlier)
      · cases same
        exact declares
      · exact earlier.later leads.log
    have named {note : Note} (same : note.structName = some name.text) :
        ∀ other ∈ note.structName, DeclaresStruct after.log other := by
      rw [same]
      rintro _ ⟨⟩
      exact declares
    refine .of_leaf (named ofType) (List.forall_mem_cons.mpr
      ⟨Tree.namesOnly_with_note plainName (named ofNote), fun declarator member =>
        ((states declarator member).imp later).names⟩) ⟨?_, ?_, ?_⟩ ?_
    · intro declarator member
      simp only [Tree.typeNodes, isStruct] at member
      exact ((states declarator member).imp later).type
    · intro _ _ _ isSelect
      simp [isStruct] at isSelect
    · rintro _ _ _ - ⟨⟩ -
      refine ⟨_, stored, fun declarator member isNamed => ?_⟩
      rcases (states declarator member).type isNamed with same | ⟨earlier, logged⟩
      · exact .inl (Option.some.inj same).symm
      · exact .inr ⟨earlier, inOrder.kept.struct_lt logged, leads.log.subset logged⟩
    · simp [Tree.inner, isStruct, Tree.operands]

/-! ### Variables -/

theorem variable_isSourced {symbols : Array Symbol} {log : List LogEntry} {location : Location}
    {text : String} {note : Note} {declarator : Tree} {values : List Tree}
    (here : ∀ name ∈ note.structName, DeclaresStruct log name)
    (states : declarator.States (DeclaresStruct log))
    (first : ∀ value ∈ values.head?, value.IsSourced symbols log)
    (rest : ∀ value ∈ values.tail, Numbering.IsPlain value) :
    Tree.IsSourced symbols log ⟨.variable, location, text, note, declarator :: values⟩ := by
  have grounded : Tree.IsGrounded symbols log
      ⟨.variable, location, text, note, declarator :: values⟩ :=
    Tree.isGrounded_of_types (List.forall_mem_singleton.mpr states.type) (by simp) (by simp)
  cases values with
  | nil => exact .of_leaf here (List.forall_mem_singleton.mpr states.names) grounded rfl
  | cons value rest =>
      have sourced := first value rfl
      refine .of_inner here (List.forall_mem_cons.mpr ⟨states.names, List.forall_mem_cons.mpr
        ⟨sourced.names, fun child member => Tree.namesOnly_of_plain (rest child member)⟩⟩)
        grounded ?_
      exact List.forall_mem_singleton.mpr sourced.grounded

theorem variable_introduces {log : List LogEntry} {location : Location} {text : String}
    {note : Note} {declarator : Tree} {values : List Tree}
    (introduced : declarator.statedType.IsIntroduced log) :
    ∀ change ∈ Tree.simpleChanges ⟨.variable, location, text, note, declarator :: values⟩,
      change.IsIntroduced log := by
  cases declared : declarator.declaredName? with
  | none => simp [Tree.simpleChanges, Tree.naming?, declared]
  | some name =>
      simp only [Tree.simpleChanges, Tree.naming?, declared, Option.map_some, Option.toList_some,
        List.map_singleton, List.forall_mem_singleton]
      exact introduced

theorem variable_states {log : List LogEntry} {declarator : Tree}
    (plain : Numbering.IsPlain declarator) (introduced : declarator.statedType.IsIntroduced log)
    (roles : Roles) (id : Nat) {note : Note}
    (same : note.structName = declarator.statedType.structName) :
    Tree.States (DeclaresStruct log)
      { annotateName declarator.statedType roles id declarator with note } :=
  (Tree.States.annotateName plain introduced roles id).with_note (by rw [same]; exact introduced)

theorem checkVariable_sourced {node : Tree} (isVariable : node.kind = .variable)
    (plain : Numbering.IsPlain node) (state : AnalysisState) :
    Ends (checkVariable node) state fun annotated after => after.Accepted → state.IsFiled →
      Introduced state.symbols state.log →
        (∀ change ∈ node.simpleChanges, change.IsIntroduced state.log) ∧
          annotated.IsSourced after.symbols after.log := by
  rcases node with ⟨kind, location, text, note, children⟩
  simp only at isVariable
  subst isVariable
  have declaring (name : String) (id : Nat) (annotated : Tree) (middle : AnalysisState) :
      Ends (do
        declare .innermost name id
        recordSymbol name id
        return annotated) middle fun result after => result = annotated ∧ middle.LeadsTo after :=
    ⟨rfl, (OnlyAdds.bind (declare_onlyAdds .innermost name id) fun _ =>
      .bind (recordSymbol_onlyAdds name id) fun _ => .pure annotated) middle⟩
  unfold checkVariable
  rcases children with _ | ⟨declarator, values⟩
  · exact refused_ends rfl
  · have plainDeclarator : Numbering.IsPlain declarator := plain.child (by simp)
    apply Ends.bind
    apply (declaredType_resolves none declarator state).ends
    rintro _ problems ⟨rfl, resolves⟩
    cases declared : declarator.declaredName? with
    | none => exact refused_ends rfl
    | some name =>
        apply Ends.bind
        apply Ends.bind
        apply Ends.get
        apply Ends.pure
        apply Ends.bind
        apply Ends.get
        apply Ends.bind
        apply Ends.modifyGet
        generalize same : SymbolRole.variable _ = role
        cases values with
        | nil =>
            apply Ends.bind
            apply Ends.pure
            apply (declaring name.text _ _ _).imp
            rintro _ after ⟨rfl, leads⟩ accepted filed introduced
            have resolved := resolves (AnalysisState.accepted_reporting (leads.accepted accepted))
            have type := filed.introduces resolved
            refine ⟨variable_introduces type, .later ?_ leads.grows leads.log⟩
            exact variable_isSourced type (variable_states plainDeclarator type _ _ rfl) (by simp)
              (by simp)
        | cons value rest =>
            apply Ends.bind
            apply (Expression.check_sourced value (plain.child (by simp)) _).ends
            intro value more sourced
            apply Ends.bind
            apply (requireCompatible_reports _ _ _ _).ends
            intro _ last _
            apply Ends.bind
            apply Ends.pure
            apply (declaring name.text _ _ _).imp
            rintro _ after ⟨rfl, leads⟩ accepted filed introduced
            have beforeLast := (Extends.reporting _ last).accepted (leads.accepted accepted)
            have beforeValue := (Extends.reporting _ more).accepted beforeLast
            have resolved := resolves (AnalysisState.accepted_reporting beforeValue)
            have type := filed.introduces resolved
            refine ⟨variable_introduces type, .later ?_ leads.grows leads.log⟩
            refine variable_isSourced type (variable_states plainDeclarator type _ _ rfl) ?_ ?_
            · rintro _ ⟨⟩
              exact sourced (AnalysisState.accepted_reporting beforeLast) filed
                (introduced.push type (by cases same; rfl))
            · exact fun child member => plain.child (by simp [show child ∈ rest from member])

/-! ### Functions -/

theorem checkParameter_keepsStructs (declarator : Tree) :
    KeepsStructs (checkParameter declarator) := by
  refine .bind (.of_onlyReports (declaredType_onlyReports _ _)) fun type => ?_
  split
  · exact .of_onlyReports (.malformed _ _ _)
  · exact .bind (fun _ => rfl) fun _ => .get fun _ => .bind (fun _ => rfl) fun _ =>
      .bind (declare_keepsStructs _ _ _) fun _ => .bind (fun _ => rfl) fun _ => .pure _

theorem checkParameter_resolves (declarator : Tree) (state : AnalysisState) :
    Ends (checkParameter declarator) state fun _ after =>
      after.Accepted → declarator.Resolves state.structs none := by
  refine declaredType_resolved _ _ (fun type => ?_) state
  split
  · exact (OnlyReports.malformed _ _ _).onlyAdds
  · exact .bind (OnlyReports.replacedVariable _).onlyAdds fun _ => .get fun _ =>
      .bind (allocate_onlyAdds _) fun _ => .bind (declare_onlyAdds _ _ _) fun _ =>
      .bind (recordSymbol_onlyAdds _ _) fun _ => .pure _

theorem checkParameters_resolves (declarators : List Tree) (state : AnalysisState) :
    Ends (checkParameters declarators) state fun _ after => after.Accepted →
      ∀ declarator ∈ declarators, declarator.Resolves state.structs none := by
  induction declarators generalizing state with
  | nil => exact .pure (by simp)
  | cons declarator rest induction =>
      apply Ends.bind
      apply ((checkParameter_resolves declarator state).and
        (checkParameter_keepsStructs declarator state)).imp
      rintro first middle ⟨resolves, same⟩
      apply Ends.bind
      apply ((induction middle).and ((isStorageLaw_onlyAdds.checkParameters rest).ends middle)).imp
      rintro others after ⟨resolvesRest, leads⟩
      apply Ends.pure
      intro accepted
      rw [same] at resolvesRest
      exact List.forall_mem_cons.mpr ⟨resolves (leads.accepted accepted), resolvesRest accepted⟩

theorem checkParameter_states {declarator : Tree} (plain : Numbering.IsPlain declarator)
    (stated : ∀ name ∈ declarator.statedType.structName, known name) (state : AnalysisState) :
    Ends (checkParameter declarator) state fun annotated _ => annotated.States known := by
  apply Ends.bind
  apply (declaredType_resolves _ declarator state).ends
  rintro _ problems ⟨rfl, -⟩
  split
  · exact .bind (.modify (.pure (.of_plain plain stated)))
  · exact (Tree.States.annotateName plain stated _ _).with_note stated

theorem checkParameters_states {declarators : List Tree}
    (plain : ∀ declarator ∈ declarators, Numbering.IsPlain declarator)
    (stated : ∀ declarator ∈ declarators, ∀ name ∈ declarator.statedType.structName, known name)
    (state : AnalysisState) :
    Ends (checkParameters declarators) state fun annotated _ =>
      ∀ declarator ∈ annotated, declarator.States known := by
  induction declarators generalizing state with
  | nil => exact .pure (by simp)
  | cons declarator rest induction =>
      rw [List.forall_mem_cons] at plain stated
      apply Ends.bind
      apply (checkParameter_states plain.1 stated.1 state).imp
      intro first middle states
      apply Ends.bind
      apply (induction plain.2 stated.2 middle).imp
      intro others after statesRest
      exact .pure (List.forall_mem_cons.mpr ⟨states, statesRest⟩)

structure Heading.IsSourced (log : List LogEntry) (heading : Heading) : Prop where
  type : heading.type.IsIntroduced log
  declarator : heading.declarator.States (DeclaresStruct log)
  parameters : heading.parameters.NamesOnly (DeclaresStruct log)
  each : ∀ parameter ∈ heading.parameters.children, parameter.States (DeclaresStruct log)

theorem Heading.IsSourced.later {heading : Heading} {log longer : List LogEntry}
    (sourced : heading.IsSourced log) (begins : log <+: longer) : heading.IsSourced longer where
  type name named := (sourced.type name named).later begins
  declarator := sourced.declarator.imp fun _ declares => declares.later begins
  parameters := sourced.parameters.imp fun _ declares => declares.later begins
  each parameter member :=
    (sourced.each parameter member).imp fun _ declares => declares.later begins

/-- What a heading states is known before it, unless an error is reported. -/
theorem openFunction_states {node declarator parameters : Tree}
    (plain : Numbering.IsPlain declarator) (plainParameters : Numbering.IsPlain parameters)
    (state : AnalysisState) :
    Ends (openFunction node declarator parameters) state fun opened after =>
      after.Accepted → ∃ heading, opened = some heading ∧ (state.IsFiled →
        (∀ stated ∈ declarator :: parameters.children,
          stated.statedType.IsIntroduced state.log) ∧ heading.IsSourced state.log) := by
  apply Ends.bind
  apply (declaredType_resolves none declarator state).ends
  rintro _ problems ⟨rfl, resolves⟩
  split
  · exact refused_ends rfl
  · apply Ends.bind
    apply Ends.get
    apply Ends.bind
    apply Ends.modifyGet
    refine .bind (.bind (.get (.modify (.bind ?_))))
    apply (((declare_onlyAdds _ _ _).ends _).and (declare_keepsStructs _ _ _ _)).imp
    rintro _ named ⟨naming, same⟩
    apply Ends.bind
    apply Ends.modify
    apply Ends.bind
    have states : Ends (checkParameters parameters.children)
        { named with scopes := named.scopes.enter } fun annotated _ =>
          (∀ stated ∈ parameters.children, stated.statedType.IsIntroduced state.log) →
            ∀ parameter ∈ annotated, parameter.States (DeclaresStruct state.log) :=
      fun stated => checkParameters_states (fun _ member => plainParameters.child member) stated _
    apply (((checkParameters_resolves _ _).and states).and
      ((isStorageLaw_onlyAdds.checkParameters _).ends _)).imp
    rintro children listed ⟨⟨resolvesEach, states⟩, listing⟩
    apply Ends.bind
    apply Ends.modify
    apply Ends.pure
    intro accepted
    refine ⟨_, rfl, fun filed => ?_⟩
    have heading := filed.introduces
      (resolves (AnalysisState.accepted_reporting (naming.accepted (listing.accepted accepted))))
    have each : ∀ stated ∈ parameters.children, stated.statedType.IsIntroduced state.log := by
      intro stated member
      have resolved : stated.Resolves named.structs none := resolvesEach accepted stated member
      rw [same] at resolved
      exact filed.introduces resolved
    refine ⟨List.forall_mem_cons.mpr ⟨heading, each⟩, {
      type := heading
      declarator := (Tree.States.annotateName plain heading _ _).with_note heading
      parameters := Tree.namesOnly_iff.mpr ⟨plainParameters.isUntyped.names, fun parameter member =>
        (states each parameter member).names⟩
      each := states each }⟩

end Declaration

/-! ## Statements -/

/-- Unless an error is reported, a part of the walk keeps the order, and what it has annotated
names declared structs. -/
structure Sources (before : AnalysisState) (trees : List Tree) (after : AnalysisState) : Prop where
  leads : before.LeadsTo after
  sources : after.Accepted → before.IsInOrder →
    after.IsInOrder ∧ ∀ tree ∈ trees, tree.IsSourced after.symbols after.log

namespace Sources

variable {before middle after : AnalysisState} {trees more : List Tree}

theorem trans (first : Sources before trees middle) (second : Sources middle more after) :
    Sources before (trees ++ more) after where
  leads := first.leads.trans second.leads
  sources accepted inOrder := by
    rcases first.sources (second.leads.accepted accepted) inOrder with ⟨inOrder, sourced⟩
    rcases second.sources accepted inOrder with ⟨inOrder, sourcedMore⟩
    exact ⟨inOrder, List.forall_mem_append.mpr
      ⟨fun tree member => (sourced tree member).later second.leads.grows second.leads.log,
        sourcedMore⟩⟩

theorem within {tree : Tree} (sources : Sources before trees after)
    (made : (∀ part ∈ trees, part.IsSourced after.symbols after.log) →
      tree.IsSourced after.symbols after.log) : Sources before [tree] after where
  leads := sources.leads
  sources accepted inOrder := by
    rcases sources.sources accepted inOrder with ⟨inOrder, sourced⟩
    exact ⟨inOrder, List.forall_mem_singleton.mpr (made sourced)⟩

theorem of_changes {Value : Type} {step : Check Value} {state : AnalysisState}
    {changes : List Change} {trees : Value → List Tree} (files : FilesStructs step)
    (adds : OnlyAdds step)
    (books : Books step state.ledger fun _ after => after = state.ledger.run changes)
    (sourced : Ends step state fun value after => after.Accepted → state.IsInOrder →
      (∀ change ∈ changes, change.IsIntroduced state.log) ∧
        ∀ tree ∈ trees value, tree.IsSourced after.symbols after.log) :
    Ends step state fun value after => Sources state (trees value) after := by
  have filed : Ends step state fun _ after => state.IsFiled → after.IsFiled := files state
  apply (((filed.and (adds.ends state)).and (books state rfl)).and sourced).imp
  rintro value after ⟨⟨⟨filed, leads⟩, same⟩, sourced⟩
  refine ⟨leads, fun accepted inOrder => ?_⟩
  rcases sourced accepted inOrder with ⟨introduced, sourced⟩
  refine ⟨⟨filed inOrder.filed, ?_, ?_⟩, sourced⟩
  · rw [same]
    exact inOrder.kept.run changes
  · have later : Introduced (state.ledger.run changes).symbols (state.ledger.run changes).log :=
      Introduced.run inOrder.introduced introduced
    rw [← same] at later
    exact later

/-- A step that only enters or leaves a scope, or logs a blank line. -/
theorem of_quiet {step : Check Unit} {state : AnalysisState} (change : Change)
    (files : FilesStructs step) (adds : OnlyAdds step)
    (books : Books step state.ledger fun _ after => after = state.ledger.apply change)
    (quiet : change.IsIntroduced state.log) :
    Ends step state fun _ after => Sources state [] after := by
  have books : Books step state.ledger fun _ after => after = state.ledger.run [change] := books
  exact of_changes files adds books (.run fun _ _ =>
    ⟨List.forall_mem_singleton.mpr quiet, by simp⟩)

end Sources

namespace Statement

variable {result : Option ValueType} {state : AnalysisState}

/-- Parts of declarations and empty returns stay as they are. -/
theorem isSourced_of_silent {node : Tree} (plain : Numbering.IsPlain node)
    (simple : node.isCompound = false) (silent : node.kind.isSilent = true)
    (symbols : Array Symbol) (log : List LogEntry) : node.IsSourced symbols log where
  names := Tree.namesOnly_of_plain plain
  grounded := by
    rw [Tree.walked_eq_singleton simple silent, List.forall_mem_singleton]
    have nothing : node.typeNodes = [] := by
      unfold Tree.typeNodes
      split <;> simp_all [Tree.isCompound, Kind.isSilent]
    apply Tree.isGrounded_of_kind nothing
    all_goals
      intro same
      simp [same, Kind.isSilent] at silent

theorem simple_sources {node : Tree} (simple : node.isCompound = false)
    (plain : Numbering.IsPlain node) :
    Ends (Statement.simple result node) state fun annotated after =>
      Sources state [annotated] after := by
  refine Sources.of_changes (isStorageLaw_files.isStepLaw.simple result node)
    (isStorageLaw_onlyAdds.isStepLaw.simple result node) (simple_books simple) ?_
  have nothing (struct : node.kind ≠ .struct) (other : node.kind ≠ .variable) :
      ∀ change ∈ node.simpleChanges, change.IsIntroduced state.log := by
    have none : node.simpleChanges = [] := by
      unfold Tree.simpleChanges
      split <;> simp_all
    simp [none]
  have same (silent : node.kind.isSilent = true) (after : AnalysisState) :
      (∀ change ∈ node.simpleChanges, change.IsIntroduced state.log) ∧
        ∀ tree ∈ [node], tree.IsSourced after.symbols after.log := by
    refine ⟨nothing ?_ ?_,
      List.forall_mem_singleton.mpr (isSourced_of_silent plain simple silent _ _)⟩
    all_goals
      intro same
      simp [same, Kind.isSilent] at silent
  unfold Statement.simple
  split
  case h_1 isStruct =>
    apply ((Declaration.checkStruct_introduces isStruct plain state).and
      (Declaration.checkStruct_sourced isStruct plain state)).imp
    rintro annotated after ⟨introduces, sourced⟩ accepted inOrder
    exact ⟨introduces accepted inOrder.filed,
      List.forall_mem_singleton.mpr (sourced accepted inOrder)⟩
  case h_2 isVariable =>
    apply (Declaration.checkVariable_sourced isVariable plain state).imp
    intro annotated after sourced accepted inOrder
    rcases sourced accepted inOrder.filed inOrder.introduced with ⟨introduces, sourced⟩
    exact ⟨introduces, List.forall_mem_singleton.mpr sourced⟩
  case h_3 isReturn =>
    dsimp only
    split
    · exact refused_ends rfl
    · exact .pure fun _ _ => same (by simp [isReturn, Kind.isSilent]) _
  case h_4 value rest isReturn children =>
    rcases node with ⟨kind, location, text, note, parts⟩
    simp only at isReturn children
    subst isReturn children
    apply Ends.bind
    apply (Expression.check_sourced value (plain.child (by simp)) state).ends
    intro value problems sourced
    apply Ends.bind
    apply (returned_reports _ _ _ _).ends
    intro _ more _
    apply Ends.pure
    intro accepted inOrder
    have accepted := (Extends.reporting _ more).accepted accepted
    have sourced := sourced (AnalysisState.accepted_reporting accepted) inOrder.filed
      inOrder.introduced
    refine ⟨nothing (by simp) (by simp), List.forall_mem_singleton.mpr ?_⟩
    refine .of_inner (Tree.namesOnly_iff.mp sourced.names).1 (List.forall_mem_cons.mpr
      ⟨sourced.names, fun child member => Tree.namesOnly_of_plain (plain.child (by simp [member]))⟩)
      (Tree.isGrounded_of_kind rfl (by simp) (by simp)) ?_
    exact List.forall_mem_singleton.mpr sourced.grounded
  case h_16 =>
    apply (Expression.check_sourced node plain state).ends
    intro annotated problems sourced accepted inOrder
    exact ⟨nothing (by simp_all) (by simp_all), List.forall_mem_singleton.mpr
      (sourced (AnalysisState.accepted_reporting accepted) inOrder.filed inOrder.introduced)⟩
  all_goals first
    | exact refused_ends rfl
    | exact .pure fun _ _ => same (by simp_all [Kind.isSilent]) _

theorem condition_sources {test : Tree} (plain : Numbering.IsPlain test) :
    Ends (condition test) state fun annotated after => Sources state [annotated] after := by
  refine Sources.of_changes (.of_onlyReports (condition_onlyReports test))
    (condition_onlyReports test).onlyAdds
    (.of_onlyReports (condition_onlyReports test) fun _ => (Ledger.run_nil _).symm) ?_
  apply Ends.bind
  apply (Expression.check_sourced test plain state).ends
  intro test problems sourced
  apply Ends.bind
  apply (requireInteger_reports _ _ _).ends
  intro _ more _
  apply Ends.pure
  intro accepted inOrder
  have accepted := (Extends.reporting _ more).accepted accepted
  exact ⟨by simp, List.forall_mem_singleton.mpr
    (sourced (AnalysisState.accepted_reporting accepted) inOrder.filed inOrder.introduced)⟩

/-! ### The walk -/

theorem enter_sources : Ends enter state fun _ after => Sources state [] after :=
  .of_quiet .enter enter_files enter_onlyAdds (enter_books rfl) trivial

theorem leave_sources : Ends leave state fun _ after => Sources state [] after :=
  .of_quiet .leave leave_files leave_onlyAdds (leave_books rfl) trivial

theorem separate_sources : Ends (record .separator) state fun _ after => Sources state [] after :=
  .of_quiet .separate (record_files rfl) (record_onlyAdds _) (record_books rfl) trivial

theorem headingChanges_introduced {declarator parameters : Tree} {naming : TypedName}
    (named : declarator.naming? = some naming) {log : List LogEntry}
    (introduced : ∀ stated ∈ declarator :: parameters.children, stated.statedType.IsIntroduced log)
    (isPrototype : Bool) :
    ∀ change ∈ Tree.headingChanges naming isPrototype parameters, change.IsIntroduced log := by
  have ofNaming {stated : List Tree} (within : stated ⊆ declarator :: parameters.children) :
      ∀ naming ∈ stated.filterMap Tree.naming?, naming.type.IsIntroduced log := by
    intro naming member
    rcases Declaration.type_of_naming? member with ⟨other, among, same⟩
    rw [same]
    exact introduced other (within among)
  have within : [declarator] ⊆ declarator :: parameters.children := by simp
  have first : naming.type.IsIntroduced log := ofNaming within naming (by simp [named])
  have each := ofNaming (List.subset_cons_self declarator parameters.children)
  intro change member
  simp only [Tree.headingChanges, List.mem_append, List.mem_cons, List.mem_map, List.not_mem_nil,
    or_false] at member
  rcases member with (rfl | rfl | ⟨parameter, among, rfl⟩) | rfl
  · exact first
  · trivial
  · exact each parameter among
  · trivial

theorem openFunction_sources {node declarator parameters : Tree}
    (plain : Numbering.IsPlain declarator) (plainParameters : Numbering.IsPlain parameters) :
    Ends (Declaration.openFunction node declarator parameters) state fun opened after =>
      Sources state [] after ∧ (after.Accepted → state.IsInOrder →
        ∃ heading, opened = some heading ∧ heading.IsSourced after.log) := by
  have states := @Declaration.openFunction_states node declarator parameters plain plainParameters
    state
  have books : Books (Declaration.openFunction node declarator parameters) state.ledger
      fun _ after => after = state.ledger.run (node.openingChanges declarator parameters) :=
    (openFunction_changes node declarator parameters).imp fun _ _ opened => opened.2
  have sources : Ends (Declaration.openFunction node declarator parameters) state fun _ after =>
      Sources state [] after := by
    refine .of_changes (isStorageLaw_files.openFunction node declarator parameters)
      (isStorageLaw_onlyAdds.openFunction node declarator parameters) books (states.imp ?_)
    intro opened after states accepted inOrder
    rcases states accepted with ⟨heading, same, sourced⟩
    refine ⟨?_, by simp⟩
    cases named : declarator.naming? with
    | none => simp [Tree.openingChanges, named]
    | some naming =>
        simp only [Tree.openingChanges, named]
        exact headingChanges_introduced named (sourced inOrder.filed).1 _
  apply (states.and sources).imp
  rintro opened after ⟨states, sources⟩
  refine ⟨sources, fun accepted inOrder => ?_⟩
  rcases states accepted with ⟨heading, same, sourced⟩
  exact ⟨heading, same, (sourced inOrder.filed).2.later sources.leads.log⟩

theorem closeFunction_isSourced {symbols : Array Symbol} {log : List LogEntry} {node : Tree}
    (isFunction : node.kind = .function ∨ node.kind = .prototype)
    {heading : Declaration.Heading} (sourced : heading.IsSourced log) {rest : List Tree}
    (names : ∀ child ∈ rest, child.NamesOnly (DeclaresStruct log))
    (inner : ∀ child ∈ (Declaration.closeFunction node heading rest).inner,
      ∀ below ∈ child.walked, below.IsGrounded symbols log) :
    (Declaration.closeFunction node heading rest).IsSourced symbols log := by
  refine .of_inner sourced.type ?_ ?_ inner
  · exact List.forall_mem_cons.mpr
      ⟨sourced.declarator.names, List.forall_mem_cons.mpr ⟨sourced.parameters, names⟩⟩
  · have same : (Declaration.closeFunction node heading rest).typeNodes =
        heading.declarator :: heading.parameters.children := by
      rcases isFunction with same | same <;>
        simp [Declaration.closeFunction, Tree.typeNodes, same]
    apply Tree.isGrounded_of_types
    · rw [same]
      exact List.forall_mem_cons.mpr
        ⟨sourced.declarator.type, fun parameter member => (sourced.each parameter member).type⟩
    all_goals
      show node.kind ≠ _
      rcases isFunction with same | same <;> simp [same]

theorem close_sources : Ends (do leave; record .separator) state fun _ after =>
    Sources state [] after := by
  apply Ends.bind
  apply leave_sources.imp
  intro _ left leaving
  exact separate_sources.imp fun _ _ separating => leaving.trans separating

theorem isCheckLaw_sources : IsCheckLaw Numbering.IsPlain
    (fun _ state _ annotated after => Sources state [annotated] after)
    (fun _ state _ annotated after => Sources state annotated after)
    (fun state _ _ _ opened inside => Sources state [] inside ∧
      (inside.Accepted → state.IsInOrder →
        ∃ heading, opened = some heading ∧ heading.IsSourced inside.log))
    (fun state _ annotated after => Sources state [annotated] after)
    (fun _ _ _ => True) where
  child plain member := plain.child member
  checked _ _ _ := trivial
  checkedAll _ _ _ := trivial
  nil _ state := ⟨.refl state, fun _ inOrder => ⟨inOrder, by simp⟩⟩
  cons sources _ sourcesRest _ := sources.trans sourcesRest
  root plain sources := sources.within fun sourced =>
    .of_inner plain.isUntyped.names (fun child member => (sourced child member).names)
      (Tree.isGrounded_of_kind rfl (by simp) (by simp))
      fun child member => (sourced child member).grounded
  block {_ state _ _ _ _ _ _} plain sources := by
    have entered : Sources state [] { state with scopes := state.scopes.enter } := enter_sources
    apply leave_sources.imp
    intro _ after left
    have whole := (entered.trans sources).trans left
    rw [List.nil_append, List.append_nil] at whole
    refine whole.within fun sourced => ?_
    exact .of_inner plain.isUntyped.names (fun child member => (sourced child member).names)
      (Tree.isGrounded_of_kind rfl (by simp) (by simp))
      fun child member => (sourced child member).grounded
  opened _ plain := openFunction_sources (plain.child (by simp)) (plain.child (by simp))
  nameless _ _ opening := by
    refine ⟨opening.1.leads, fun accepted inOrder => ?_⟩
    rcases opening.2 accepted inOrder with ⟨heading, ⟨⟩, -⟩
  bodiless {_ _ inside place _ _ _ _ _} _ opening := by
    apply (((bodiless_onlyAdds place).ends inside).and (bodiless_refused place inside)).imp
    rintro _ after ⟨leads, refused⟩
    exact ⟨opening.1.leads.trans leads, fun accepted => absurd accepted refused⟩
  function plain body opening sources _ := by
    apply close_sources.imp
    intro _ after closing
    have further := sources.leads.trans closing.leads
    refine ⟨opening.1.leads.trans further, fun accepted inOrder => ?_⟩
    rcases opening.2 (further.accepted accepted) inOrder with ⟨_, ⟨⟩, headingSourced⟩
    have whole := (opening.1.trans sources).trans closing
    simp only [List.nil_append, List.append_nil] at whole
    rcases whole.sources accepted inOrder with ⟨inOrder, sourced⟩
    refine ⟨inOrder, List.forall_mem_singleton.mpr ?_⟩
    refine closeFunction_isSourced (.inl rfl) (headingSourced.later further.log) ?_
      fun child member => (sourced child member).grounded
    exact List.forall_mem_cons.mpr ⟨Tree.namesOnly_iff.mpr
      ⟨body.isUntyped.names, fun child member => (sourced child member).names⟩,
      fun other member => Tree.namesOnly_of_plain (plain.child (by simp [member]))⟩
  prototype plain opening := by
    apply leave_sources.imp
    intro _ after leaving
    refine ⟨opening.1.leads.trans leaving.leads, fun accepted inOrder => ?_⟩
    rcases opening.2 (leaving.leads.accepted accepted) inOrder with ⟨_, ⟨⟩, headingSourced⟩
    refine ⟨((opening.1.trans leaving).sources accepted inOrder).1,
      List.forall_mem_singleton.mpr ?_⟩
    refine closeFunction_isSourced (.inr rfl) (headingSourced.later leaving.leads.log) ?_ ?_
    · exact fun other member => Tree.namesOnly_of_plain (plain.child (by simp [member]))
    · simp [Declaration.closeFunction, Tree.inner, Tree.operands]
  condition plain := condition_sources plain
  control {_ _ _ _ kind _ _ _ _ first _ annotated} control plain tested sources _ := by
    refine (tested.trans sources).within fun sourced => ?_
    refine .of_inner plain.isUntyped.names (fun child member => (sourced child member).names)
      ?_ ?_
    · cases kind <;> simp [Kind.isControl] at control <;>
        exact Tree.isGrounded_of_kind rfl (by simp) (by simp)
    · rw [Tree.inner_control control]
      exact fun child member => (sourced child member).grounded
  simple plain simple := simple_sources simple plain

/-- Structs are declared before statements name them. -/
theorem check_sources (tree : Tree) (plain : Numbering.IsPlain tree) (state : AnalysisState) :
    Ends (check result tree) state fun annotated after => Sources state [annotated] after :=
  isCheckLaw_sources.statement plain result state

end Statement

/-- In an accepted tree, structs are declared before they are named. -/
theorem analyze_sources {tree : Tree} (fresh : tree.IsFresh)
    (accepted : (analyze tree).2.diagnostics.hasErrors = false) :
    Introduced (analyze tree).2.symbols (analyze tree).2.log ∧
      (analyze tree).1.IsSourced (analyze tree).2.symbols (analyze tree).2.log := by
  have sources : Sources {} [(analyze tree).1]
      ((Statement.check none (Numbering.number tree)).run {}).2 :=
    Statement.check_sources (Numbering.number tree) (Numbering.isPlain_number fresh) {}
  rcases sources.sources accepted .start with ⟨inOrder, sourced⟩
  exact ⟨inOrder.introduced, sourced _ List.mem_cons_self⟩

/-- In an accepted tree, every struct that is declared has been stored. -/
theorem exists_structStored_of_walked {tree node : Tree} (fresh : tree.IsFresh)
    (accepted : (analyze tree).2.diagnostics.hasErrors = false)
    (member : node ∈ (analyze tree).1.walked) (isStruct : node.kind = .struct) :
    ∃ name declarators first, node.children = name :: declarators ∧
      StructStored (analyze tree).2.symbols (analyze tree).2.log name declarators first ∧
        Tree.LooksBack (analyze tree).2.log name declarators first := by
  rcases analyze_learns fresh accepted with ⟨-, fits, -⟩
  rcases analyze_sources fresh accepted with ⟨-, sourced⟩
  have declares := fits node member
  simp only [Tree.Fits, isStruct, Tree.declared?] at declares
  rcases children : node.children with _ | ⟨name, declarators⟩
  · simp [children] at declares
  · have symbol : name.note.symbol.isSome = true := by
      simp only [children] at declares
      split at declares
      · simpa using declares
      · contradiction
    rcases Option.isSome_iff_exists.mp symbol with ⟨id, symbol⟩
    rcases (sourced.grounded node member).struct name declarators id isStruct children symbol with
      ⟨first, stored, looks⟩
    exact ⟨name, declarators, first, rfl, stored, looks⟩

end OcLang
