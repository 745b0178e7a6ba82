import OcLang.Proofs.Analysis.Lookups.Expressions
import OcLang.Proofs.Scoping.Declarations

namespace OcLang.Declaration

open Check

/-! # Lookups in declarations

A declaration stores its symbol before it enters the number into a table. What is
looked up is only what the name was bound to before. -/

section

variable {fresh : Prop} {before state : AnalysisState}

theorem annotateName_within {declarator : Tree} (plain : Numbering.IsPlain declarator)
    (type : ValueType) (roles : Roles) {id limit : Nat} (stored : id < limit) :
    (annotateName type roles id declarator).Within limit := by
  have number : (annotateName type roles id declarator).note.symbol = none := plain.untouched.1
  apply Tree.Within.of_none number
  intro child member
  rcases Tree.mem_children_mapDeclaredName member with there | ⟨name, declared, rfl⟩
  · exact (plain.child there).within limit
  · have plainName := plain.child (List.mem_of_getLast? (Option.filter_eq_some_iff.mp declared).1)
    apply (plainName.within limit).mapNote
    rintro _ ⟨⟩
    exact stored

/-! ## Structs -/

structure Filled (fresh : Prop) (before : AnalysisState) (table : Table) (declarators : List Tree)
    (after : AnalysisState) : Prop extends CheckedAll fresh before declarators after where
  ids : ∀ id ∈ table.ids, id < after.symbols.size

theorem checkField_mirrors (sound : state.IsSound 0) (structName : String) {table : Table}
    (ids : ∀ id ∈ table.ids, id < state.symbols.size) (declarator : Tree)
    (plain : fresh → Numbering.IsPlain declarator) :
    Mirrors (Strict.checkField structName table declarator)
      (checkField structName table declarator) state fun result after =>
        Filled fresh state result.1 [result.2] after := by
  apply Mirrors.bind
  apply Mirrors.quiet sound (declaredType_reports _ _ _)
  intro type problems _
  have typed := Proceeds.reporting sound problems
  cases declared : declarator.declaredName? with
  | none =>
      apply Mirrors.bind
      apply Mirrors.report typed.sound
      intro reported
      exact .pure ⟨⟨typed.trans reported, fun given => by simpa using (plain given).within _⟩, ids⟩
  | some name =>
      apply Mirrors.bind
      apply (allocate_mirrors typed.sound 0 (by simp [Symbol.links]) (Nat.zero_le _)).imp
      rintro _ middle ⟨rfl, stored, allocated⟩
      have inside := (Array.getElem?_eq_some_iff.mp stored).1
      have known : ∀ id ∈ table.ids, id < middle.symbols.size :=
        fun id member => (typed.trans allocated).stored (ids id member)
      have filled {after : AnalysisState} (proceeds : Proceeds 0 middle after) :
          Filled fresh state (table.insert name.text state.symbols.size)
            [(annotateName type { isField := true } state.symbols.size declarator).mapNote
              (·.addType type)] after := by
        refine ⟨⟨(typed.trans allocated).trans proceeds, fun given => ?_⟩, ?_⟩
        · rw [List.forall_mem_singleton]
          exact (annotateName_within (plain given) _ _ (proceeds.stored inside)).mapNote_keeping rfl
        · intro id member
          rcases Table.mem_ids_insert member with rfl | earlier
          · exact proceeds.stored inside
          · exact proceeds.stored (known id earlier)
      cases found : table.find? name.text with
      | none => exact .pure (filled (.refl allocated.sound))
      | some previous =>
          have bound := known previous (Table.mem_ids_of_find? found)
          apply Mirrors.bind
          apply Mirrors.symbol (Array.getElem?_eq_getElem bound)
          apply Mirrors.bind
          apply Mirrors.report allocated.sound
          intro reported
          exact .pure (filled reported)

theorem checkFields_mirrors (sound : state.IsSound 0) (structName : String) {table : Table}
    (ids : ∀ id ∈ table.ids, id < state.symbols.size) {declarators : List Tree}
    (plain : fresh → ∀ declarator ∈ declarators, Numbering.IsPlain declarator) :
    Mirrors (Strict.checkFields structName table declarators)
      (checkFields structName table declarators) state fun result after =>
        Filled fresh state result.1 result.2 after := by
  induction declarators generalizing table state with
  | nil => exact .pure ⟨⟨.refl sound, by simp⟩, ids⟩
  | cons declarator rest induction =>
      apply Mirrors.bind
      apply (checkField_mirrors sound structName ids declarator
        fun given => plain given declarator (by simp)).imp
      intro first middle filled
      apply Mirrors.bind
      apply (induction filled.sound filled.ids
        fun given other member => plain given other (by simp [member])).imp
      intro others after filledRest
      refine .pure ⟨⟨filled.toProceeds.trans filledRest.toProceeds, fun given => ?_⟩,
        filledRest.ids⟩
      rw [List.forall_mem_cons]
      exact ⟨(filled.within given _ (by simp)).mono filledRest.grows.size_le,
        filledRest.within given⟩

theorem registerStruct_mirrors (sound : state.IsSound 0) (name : String) (place : Location)
    {id : Nat} (stored : id < state.symbols.size) :
    Mirrors (Strict.registerStruct name place id) (registerStruct name place id) state
      fun _ after => Proceeds 0 state after := by
  let registering : AnalysisState := { state with structs := state.structs.insert name id }
  have registered : Proceeds 0 state registering := ⟨sound.registered name stored, .refl _, rfl, rfl⟩
  have logged {middle : AnalysisState} (proceeds : Proceeds 0 registering middle) :
      Mirrors
        (do
          liftM (record (.struct name id))
          liftM (record .separator))
        (do
          record (.struct name id)
          record .separator) middle fun _ after => Proceeds 0 state after := by
    apply Mirrors.bind
    apply (record_mirrors proceeds.sound (.struct name id) ?_).imp
    · intro _ after logged
      apply (record_mirrors logged.sound .separator (by simp [LogEntry.id?])).imp
      intro _ last separated
      exact ((registered.trans proceeds).trans logged).trans separated
    · rintro _ ⟨⟩
      exact proceeds.stored stored
  apply Mirrors.bind
  apply Mirrors.get
  apply Mirrors.bind
  apply Mirrors.lift
  apply Ends.set
  refine ⟨registered.sound.tables, ?_⟩
  cases found : state.structs.find? name with
  | none => exact logged (.refl registered.sound)
  | some previous =>
      rcases sound.structs_stored found with ⟨symbol, bound⟩
      have same : state.symbol previous = symbol := by
        rw [AnalysisState.symbol, bound, Option.getD_some]
      dsimp only
      rw [same]
      apply Mirrors.lookup (show registering.symbols[previous]? = some symbol from bound)
      apply Mirrors.bind
      apply Mirrors.report registered.sound
      intro reported
      exact logged reported

theorem checkStruct_mirrors (sound : state.IsSound 0) {node : Tree}
    (plain : fresh → Numbering.IsPlain node) :
    Mirrors (Strict.checkStruct node) (checkStruct node) state (Checked fresh state) := by
  have unnamed : Mirrors (do report (.unnamedStruct node.location); return node)
      (do report (.unnamedStruct node.location); return node) state (Checked fresh state) := by
    apply Mirrors.bind
    apply Mirrors.report sound
    intro reported
    exact .pure ⟨reported, fun given => (plain given).within _⟩
  unfold Strict.checkStruct checkStruct
  rcases node with ⟨kind, location, text, note, children⟩
  cases children with
  | nil => exact unnamed
  | cons name declarators =>
      dsimp only
      split
      · exact unnamed
      · apply Mirrors.bind
        apply (checkFields_mirrors sound name.text (by simp [Table.ids])
          fun given declarator member => (plain given).child (by simp [member])).imp
        intro fields middle filled
        have announced : ∀ id ∈ (Symbol.ofStruct name.text name.location fields.1).links,
            id < middle.symbols.size + 1 + 0 := by
          intro id link
          have known := filled.ids id link
          omega
        apply Mirrors.bind
        apply (allocate_mirrors filled.sound 0 announced (Nat.zero_le _)).imp
        rintro _ stored ⟨rfl, inside, allocated⟩
        have bound := (Array.getElem?_eq_some_iff.mp inside).1
        apply Mirrors.bind
        apply (registerStruct_mirrors allocated.sound _ _ bound).imp
        intro _ after registered
        have proceeds := allocated.trans registered
        refine .pure ⟨filled.toProceeds.trans proceeds, fun given => ?_⟩
        apply Tree.Within.of_none (show note.symbol = none from (plain given).untouched.1)
        rw [List.forall_mem_cons]
        constructor
        · apply (((plain given).child (by simp)).within _).mapNote
          rintro _ ⟨⟩
          exact registered.stored bound
        · exact fun declarator member =>
            (filled.within given declarator member).mono proceeds.grows.size_le

/-! ## Variables and parameters -/

/-- A variable or parameter refers to an earlier one only. -/
theorem allocateVariable_mirrors {pending : Nat} (sound : state.IsSound pending) (remaining : Nat)
    {symbol : Symbol} {replaces : Option Nat}
    (role : symbol.role = .variable replaces ∨ symbol.role = .parameter replaces)
    (known : ∀ id ∈ replaces, id < state.symbols.size) (enough : pending ≤ remaining + 1) :
    Mirrors (liftM (allocate symbol)) (allocate symbol) state fun id after =>
      id = state.symbols.size ∧ after.symbols[id]? = some symbol ∧
        Proceeds remaining state after := by
  apply allocate_mirrors sound remaining _ enough
  intro id link
  have earlier : id < state.symbols.size := by
    apply known
    unfold Symbol.links at link
    rcases role with isVariable | isParameter <;> simp_all
  omega

theorem declareVariable_mirrors {pending : Nat} (proceeds : Proceeds pending before state)
    {name : String} {id : Nat} {symbol : Symbol} (stored : state.symbols[id]? = some symbol)
    (here : symbol.block = state.scopes.currentBlock) {Value : Type} (value : Value) :
    Mirrors
      (do
        Strict.declare .innermost name id
        liftM (recordSymbol name id)
        return value)
      (do
        declare .innermost name id
        recordSymbol name id
        return value) state fun result after =>
          result = value ∧ state.symbols.size ≤ after.symbols.size ∧
            Proceeds pending before after := by
  have innermost : symbol.block = state.scopes.blockOf .innermost := here
  apply Mirrors.bind
  apply (declare_mirrors proceeds.sound name stored innermost).imp
  intro _ middle declared
  apply Mirrors.bind
  apply (recordSymbol_mirrors declared.sound name
    (declared.stored (Array.getElem?_eq_some_iff.mp stored).1)).imp
  intro _ after logged
  exact .pure ⟨rfl, (declared.trans logged).grows.size_le, (proceeds.trans declared).trans logged⟩

theorem checkVariable_mirrors (sound : state.IsSound 0) {node : Tree}
    (plain : fresh → Numbering.IsPlain node) :
    Mirrors (Strict.checkVariable node) (checkVariable node) state (Checked fresh state) := by
  have malformed {middle : AnalysisState} (proceeds : Proceeds 0 state middle) :
      Mirrors (do malformed node.kind node.location; return node)
        (do malformed node.kind node.location; return node) middle (Checked fresh state) := by
    apply Mirrors.bind
    apply Mirrors.report proceeds.sound
    intro reported
    exact .pure ⟨proceeds.trans reported, fun given => (plain given).within _⟩
  rcases node with ⟨kind, location, text, note, children⟩
  have number (given : fresh) : note.symbol = none := (plain given).untouched.1
  unfold Strict.checkVariable checkVariable
  cases children with
  | nil => exact malformed (.refl sound)
  | cons declarator values =>
      apply Mirrors.bind
      apply Mirrors.quiet sound (declaredType_reports _ _ _)
      intro type problems _
      have typed := Proceeds.reporting sound problems
      cases declared : declarator.declaredName? with
      | none => exact malformed typed
      | some name =>
          have plainDeclarator (given : fresh) : Numbering.IsPlain declarator :=
            (plain given).child (by simp)
          apply Mirrors.bind
          apply (replacedVariable_mirrors typed.sound name.text).imp
          rintro replaces _ ⟨rfl, known⟩
          apply Mirrors.bind
          apply Mirrors.get
          apply Mirrors.bind
          apply (allocateVariable_mirrors typed.sound 0 (.inl rfl) known (Nat.zero_le _)).imp
          rintro _ middle ⟨rfl, stored, allocated⟩
          have proceeds := typed.trans allocated
          have inside := (Array.getElem?_eq_some_iff.mp stored).1
          cases values with
          | nil =>
              apply Mirrors.bind
              apply Mirrors.pure
              apply (declareVariable_mirrors proceeds stored proceeds.currentBlock.symm _).imp
              rintro _ after ⟨rfl, larger, declaring⟩
              refine ⟨declaring, fun given => Tree.Within.of_none (number given) ?_⟩
              rw [List.forall_mem_singleton]
              exact (annotateName_within (plainDeclarator given) _ _
                (Nat.lt_of_lt_of_le inside larger)).mapNote_keeping rfl
          | cons value rest =>
              apply Mirrors.bind
              apply (Expression.expression_mirrors value
                (fun given => (plain given).child (by simp)) (.refl allocated.sound)).imp
              intro value evaluated checked
              apply Mirrors.bind
              apply Mirrors.quiet checked.sound (requireCompatible_reports _ _ _ _)
              intro _ more _
              have whole := proceeds.trans
                (checked.toProceeds.trans (.reporting checked.sound more))
              apply Mirrors.bind
              apply Mirrors.pure
              apply (declareVariable_mirrors whole (checked.grows _ _ stored)
                whole.currentBlock.symm _).imp
              rintro _ after ⟨rfl, larger, declaring⟩
              refine ⟨declaring, fun given => Tree.Within.of_none (number given) ?_⟩
              rw [List.forall_mem_cons, List.forall_mem_cons]
              refine ⟨?_, (checked.within given).mono larger, ?_⟩
              · have named := annotateName_within (plainDeclarator given) type
                  (SymbolRole.variable replaces).roles
                  (Nat.lt_of_lt_of_le (checked.stored inside) larger)
                exact (named.mapNote_keeping rfl).mapNote_keeping rfl
              · exact fun child member => ((plain given).child (by simp [member])).within _

theorem checkParameter_mirrors {pending remaining : Nat} (sound : state.IsSound pending)
    {declarator : Tree} (plain : fresh → Numbering.IsPlain declarator)
    (counted : pending = [declarator].countP (·.declaredName?.isSome) + remaining) :
    Mirrors (Strict.checkParameter declarator) (checkParameter declarator) state
      fun annotated after => Proceeds remaining state after ∧
        (fresh → annotated.Within after.symbols.size) := by
  subst counted
  apply Mirrors.bind
  apply Mirrors.quiet sound (declaredType_reports _ _ _)
  intro type problems _
  have typed := Proceeds.reporting sound problems
  cases declared : declarator.declaredName? with
  | none =>
      apply Mirrors.bind
      apply Mirrors.report typed.sound
      intro reported
      rw [show [declarator].countP (·.declaredName?.isSome) + remaining = remaining by
        simp [declared]] at typed reported
      exact .pure ⟨typed.trans reported, fun given => (plain given).within _⟩
  | some name =>
      apply Mirrors.bind
      apply (replacedVariable_mirrors typed.sound name.text).imp
      rintro replaces _ ⟨rfl, known⟩
      apply Mirrors.bind
      apply Mirrors.get
      apply Mirrors.bind
      apply (allocateVariable_mirrors typed.sound remaining (.inr rfl) known
        (by simp [declared, Nat.add_comm])).imp
      rintro _ middle ⟨rfl, stored, allocated⟩
      have proceeds := typed.trans allocated
      have inside := (Array.getElem?_eq_some_iff.mp stored).1
      apply (declareVariable_mirrors proceeds stored proceeds.currentBlock.symm _).imp
      rintro _ after ⟨rfl, larger, declaring⟩
      refine ⟨declaring, fun given => ?_⟩
      exact (annotateName_within (plain given) _ _
        (Nat.lt_of_lt_of_le inside larger)).mapNote_keeping rfl

theorem checkParameters_mirrors {declarators : List Tree}
    (sound : state.IsSound (declarators.countP (·.declaredName?.isSome)))
    (plain : fresh → ∀ declarator ∈ declarators, Numbering.IsPlain declarator) :
    Mirrors (Strict.checkParameters declarators) (checkParameters declarators) state
      (CheckedAll fresh state) := by
  induction declarators generalizing state with
  | nil => exact .pure ⟨.refl sound, by simp⟩
  | cons declarator rest induction =>
      have count : (declarator :: rest).countP (·.declaredName?.isSome) =
          [declarator].countP (·.declaredName?.isSome) + rest.countP (·.declaredName?.isSome) := by
        rw [← List.countP_append, List.singleton_append]
      apply Mirrors.bind
      apply (checkParameter_mirrors sound (fun given => plain given declarator (by simp)) count).imp
      rintro first middle ⟨proceeds, within⟩
      apply Mirrors.bind
      apply (induction proceeds.sound fun given other member =>
        plain given other (by simp [member])).imp
      intro others after checked
      refine .pure ⟨proceeds.trans checked.toProceeds, fun given => ?_⟩
      rw [List.forall_mem_cons]
      exact ⟨(within given).mono checked.grows.size_le, checked.within given⟩

/-! ## Functions -/

/-- The state behind a heading: the function has the next symbol, and its scope
is open. -/
structure Opened (fresh : Prop) (before : AnalysisState) (heading : Heading)
    (after : AnalysisState) : Prop extends Inside 0 before after where
  own : after.symbols[before.symbols.size]?.map (·.type) = some heading.type
  declarator : fresh → heading.declarator.Within after.symbols.size
  parameters : fresh → heading.parameters.Within after.symbols.size

theorem openFunction_mirrors (sound : state.IsSound 0) (node : Tree)
    {declarator parameterList : Tree} (plain : fresh → Numbering.IsPlain declarator)
    (plainParameters : fresh → Numbering.IsPlain parameterList) :
    Mirrors (Strict.openFunction node declarator parameterList)
      (openFunction node declarator parameterList) state fun heading? after =>
        match heading? with
        | none => Proceeds 0 state after
        | some heading => Opened fresh state heading after := by
  apply Mirrors.bind
  apply Mirrors.quiet sound (declaredType_reports _ _ _)
  intro type problems _
  have typed := Proceeds.reporting sound problems
  cases declared : declarator.declaredName? with
  | none =>
      apply Mirrors.bind
      apply Mirrors.report typed.sound
      intro reported
      exact .pure (typed.trans reported)
  | some name =>
      let count := parameterList.children.countP (·.declaredName?.isSome)
      let role := SymbolRole.function (List.range' (state.symbols.size + 1) count)
        (node.kind == .prototype)
      apply Mirrors.bind
      apply Mirrors.get
      apply Mirrors.bind
      apply (allocate_mirrors typed.sound count ?_ (Nat.zero_le _)).imp
      · rintro _ stored ⟨rfl, inside, allocated⟩
        have bound := (Array.getElem?_eq_some_iff.mp inside).1
        apply Mirrors.bind
        apply (recordSymbol_mirrors allocated.sound name.text bound).imp
        intro _ known logged
        have still := logged.grows _ _ inside
        apply Mirrors.bind
        apply (declare_mirrors logged.sound name.text still rfl).imp
        intro _ named declaring
        apply Mirrors.bind
        apply (enter_mirrors declaring.sound).imp
        intro _ entered entering
        apply Mirrors.bind
        apply (checkParameters_mirrors entering.sound
          fun given _ member => (plainParameters given).child member).imp
        intro children checked parameters
        apply Mirrors.bind
        apply (record_mirrors parameters.sound .separator (by simp [LogEntry.id?])).imp
        intro _ after separated
        have opening := (declaring.inside entering).proceeds
          (parameters.toProceeds.trans separated)
        have whole := ((typed.trans allocated).trans logged).inside opening
        have own := opening.grows _ _ still
        refine .pure ⟨whole, congrArg (Option.map (·.type)) own, fun given => ?_, fun given => ?_⟩
        · have numbered := annotateName_within (plain given) type role.roles
            (Array.getElem?_eq_some_iff.mp own).1
          show Tree.Within _ (Tree.mapNote (·.addType type) _)
          exact numbered.mapNote_keeping rfl
        · have number : parameterList.note.symbol = none := (plainParameters given).untouched.1
          exact .of_none number fun child member =>
            (parameters.within given child member).mono separated.grows.size_le
      · intro id link
        rcases List.mem_range'.mp link with ⟨offset, below, rfl⟩
        omega

end

end OcLang.Declaration
