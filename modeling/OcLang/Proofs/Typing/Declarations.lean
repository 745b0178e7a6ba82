import OcLang.Proofs.Scoping.Declarations
import OcLang.Proofs.Typing.Expressions

namespace OcLang

open Check

/-! # Types of declarations

What is declared is known behind the declaration: a struct with the table of its
fields, a function with the types of its parameters. -/

/-- Nothing that is met is declared for the whole file, and nothing is returned. -/
theorem Learns.of_suited {result : Option ValueType} {before after : AnalysisState} {node : Tree}
    {values : List Tree} (extends_ : Extends before after)
    (learns : after.Accepted → ∀ known, Knows known before →
      Knows known after ∧ values = [] ∧ node.IsSuited known) :
    Learns result node.walked values before after where
  extends_ := extends_
  learns := by
    intro accepted known knows
    rcases learns accepted known knows with ⟨knowsAfter, rfl, suited⟩
    have nothing : node.walked.filterMap Tree.declared? = [] :=
      List.filterMap_eq_nil_iff.mpr fun node inside => (suited node inside).1
    rw [nothing, List.append_nil]
    exact ⟨knowsAfter, fun node inside => (suited node inside).2, by simp⟩

theorem Learns.of_report {result : Option ValueType} {before state : AnalysisState} {node : Tree}
    {problem : Problem} (isError : problem.severity = .error) (extends_ : Extends before state) :
    Ends (do Check.report problem; return node) state
      fun annotated after => Learns result annotated.walked annotated.returned before after := by
  apply Ends.bind
  apply Ends.modify
  apply Ends.pure
  exact .refused (extends_.trans (.reporting state [problem]))
    (AnalysisState.refused_reporting isError)

namespace Table.Tabulates

variable {table : Table} {fields : List Tree} {field : Tree} {id : Nat}

theorem empty : Table.Tabulates {} [] where
  distinct := List.nodup_nil
  names := by simp
  held := by simp
  same := by simp

theorem insert (tabulates : table.Tabulates fields) (symbol : field.note.symbol = some id)
    (fresh : ∀ other ∈ fields, other.note.symbol ≠ some id) :
    (table.insert field.text id).Tabulates (fields ++ [field]) where
  distinct := by
    rw [Table.names_insert]
    split
    · exact tabulates.distinct
    · rename_i absent
      exact List.nodup_append.mpr ⟨tabulates.distinct, by simp, by grind⟩
  names := by
    intro other member
    rw [Table.names_insert]
    rcases List.mem_append.mp member with earlier | here
    · have listed := tabulates.names other earlier
      split
      · exact listed
      · exact List.mem_append_left _ listed
    · rw [List.mem_singleton.mp here]
      split
      · assumption
      · simp
  held := by
    intro name found look
    rw [Table.find?_insert] at look
    split at look
    · cases look
      exact ⟨field, by simp, symbol⟩
    · rcases tabulates.held name found look with ⟨other, member, noted⟩
      exact ⟨other, List.mem_append_left _ member, noted⟩
  same := by
    intro name found look other member noted
    rw [Table.find?_insert] at look
    rcases List.mem_append.mp member with earlier | here
    · split at look
      · cases look
        exact absurd noted (fresh other earlier)
      · exact tabulates.same name found look other earlier noted
    · rw [List.mem_singleton.mp here] at noted ⊢
      split at look
      · rename_i same
        exact same.symm
      · rw [symbol] at noted
        cases noted
        rcases tabulates.held name id look with ⟨other, member, noted⟩
        exact absurd noted (fresh other member)

end Table.Tabulates

namespace Declaration

variable {state : AnalysisState}

/-! ## Structs -/

structure Fills (fields : List Tree) (table : Table) (state : AnalysisState) : Prop where
  tabulates : table.Tabulates fields
  stored : ∀ field ∈ fields, ∀ id, field.note.symbol = some id →
    ∃ symbol, state.symbols[id]? = some symbol ∧ symbol.role = .field

theorem checkField_fills (structName : String) (table : Table) (declarator : Tree)
    (state : AnalysisState) :
    Ends (checkField structName table declarator) state fun result after =>
      Keeps state after ∧ (after.Accepted → ∀ fields, Fills fields table state →
        ∃ field, result.2.declaredName? = some field ∧
          Fills (fields ++ [field]) result.1 after) := by
  unfold checkField
  apply Ends.bind
  apply (declaredType_proper (some structName) declarator state).ends
  intro type problems proper
  cases declared : declarator.declaredName? with
  | none =>
      apply Ends.bind
      apply Ends.modify
      apply Ends.pure
      refine ⟨(Keeps.reporting state problems).trans (.reporting _ [_]), fun accepted => ?_⟩
      exact absurd accepted (AnalysisState.refused_reporting rfl)
  | some name =>
      apply Ends.bind
      apply Ends.modifyGet
      let symbol : Symbol := { type, role := .field, location := name.location }
      have allocated : Keeps state { state.reporting problems with
          symbols := (state.reporting problems).symbols.push symbol } :=
        (Keeps.reporting state problems).trans
          (.allocated _ fun accepted => (proper (AnalysisState.accepted_reporting accepted)).1)
      have named := declaredName?_annotateName type { isField := true } state.symbols.size declarator
      rw [declared] at named
      -- The symbol is fresh, so it is that of no field before.
      have filled {fields : List Tree} (fills : Fills fields table state) {after : AnalysisState}
          (symbols : after.symbols = state.symbols.push symbol) {field : Tree}
          (text : field.text = name.text) (noted : field.note.symbol = some state.symbols.size) :
          Fills (fields ++ [field]) (table.insert name.text state.symbols.size) after := by
        refine ⟨?_, ?_⟩
        · rw [← text]
          apply fills.tabulates.insert noted
          intro other member same
          rcases fills.stored other member _ same with ⟨_, found, _⟩
          simp at found
        · intro other member id same
          rw [symbols]
          rcases List.mem_append.mp member with earlier | here
          · rcases fills.stored other earlier id same with ⟨old, found, isField⟩
            exact ⟨old, Grows.push _ _ _ _ found, isField⟩
          · rw [List.mem_singleton.mp here, noted] at same
            cases same
            exact ⟨symbol, Array.getElem?_push_size, rfl⟩
      dsimp only
      split
      · apply Ends.bind
        apply Ends.bind
        apply Ends.get
        apply Ends.pure
        apply Ends.bind
        apply Ends.modify
        apply Ends.pure
        refine ⟨allocated.trans (.reporting _ [_]), fun _ fields fills => ?_⟩
        exact ⟨_, named, filled fills rfl rfl rfl⟩
      · apply Ends.pure
        exact ⟨allocated, fun _ fields fills => ⟨_, named, filled fills rfl rfl rfl⟩⟩

theorem checkFields_fills (structName : String) (declarators : List Tree) (table : Table)
    (state : AnalysisState) :
    Ends (checkFields structName table declarators) state fun result after =>
      Keeps state after ∧ (after.Accepted → ∀ fields, Fills fields table state →
        Fills (fields ++ result.2.filterMap Tree.declaredName?) result.1 after) := by
  induction declarators generalizing table state with
  | nil =>
      apply Ends.pure
      exact ⟨.reporting state [], fun _ fields fills => by simpa using fills⟩
  | cons declarator rest induction =>
      apply Ends.bind
      apply (checkField_fills structName table declarator state).imp
      intro first middle step
      rcases step with ⟨keeps, fillsFirst⟩
      apply Ends.bind
      apply (induction first.1 middle).imp
      intro others after run
      rcases run with ⟨keepsRest, fillsRest⟩
      apply Ends.pure
      refine ⟨keeps.trans keepsRest, fun accepted fields fills => ?_⟩
      rcases fillsFirst (keepsRest.extends_.accepted accepted) fields fills with
        ⟨field, declared, fillsField⟩
      have all := fillsRest accepted _ fillsField
      rw [List.append_assoc] at all
      simpa [declared] using all

theorem registerStruct_ends (name : String) (place : Location) (id : Nat)
    (state : AnalysisState) :
    Ends (registerStruct name place id) state fun _ after => ∃ problems log,
      after = { AnalysisState.reporting
        { state with structs := state.structs.insert name id } problems with log } := by
  unfold registerStruct
  apply Ends.bind
  apply Ends.get
  apply Ends.bind
  apply Ends.set
  split
  · apply Ends.bind
    apply Ends.modify
    apply Ends.bind
    apply Ends.modify
    apply Ends.modify
    exact ⟨[_], _, rfl⟩
  · apply Ends.bind
    apply Ends.modify
    apply Ends.modify
    exact ⟨[], _, rfl⟩

theorem tracks_registered {known : List Declared} (tracks : Tracks known state) (record : Record) :
    Tracks (known ++ [.struct record])
      { state with structs := state.structs.insert record.name record.symbol } where
  types := tracks.types
  bound := tracks.bound
  functions name id found isFunction := by
    rcases tracks.functions name id found isFunction with ⟨signature, member, rest⟩
    exact ⟨signature, List.mem_append_left _ member, rest⟩
  definitions none signature member := by
    simp only [List.mem_append, List.mem_singleton, reduceCtorEq, or_false] at member
    exact tracks.definitions none signature member
  structs name := by
    rw [Table.find?_insert, List.reverse_append, List.findSome?_append, tracks.structs name]
    by_cases same : name = record.name
    · simp [same, Declared.structNamed?]
    · simp [same, Declared.structNamed?, Ne.symm same]

theorem checkStruct_learns (result : Option ValueType) {node : Tree}
    (isStruct : node.kind = .struct) (state : AnalysisState) :
    Ends (checkStruct node) state fun annotated after =>
      Learns result annotated.walked annotated.returned state after := by
  rcases node with ⟨kind, location, text, note, children⟩
  subst isStruct
  unfold checkStruct
  rcases children with _ | ⟨name, declarators⟩
  · exact .of_report rfl (.refl state)
  · dsimp only
    split
    · exact .of_report rfl (.refl state)
    · rename_i named
      have isNamed : name.kind = .type .named := by simpa using named
      apply Ends.bind
      apply (checkFields_fills name.text declarators {} state).imp
      intro fields middle run
      rcases run with ⟨keeps, fills⟩
      let symbol := Symbol.ofStruct name.text name.location fields.1
      let stored : AnalysisState := { middle with symbols := middle.symbols.push symbol }
      have storing : Keeps state stored :=
        keeps.trans (.allocated middle fun _ => ⟨.plain (.struct name.text), rfl⟩)
      apply Ends.bind
      apply Ends.modifyGet
      apply Ends.bind
      apply (registerStruct_ends name.text name.location middle.symbols.size stored).imp
      intro _ after registered
      rcases registered with ⟨problems, log, rfl⟩
      apply Ends.pure
      have registering : Extends stored { AnalysisState.reporting
          { stored with structs := stored.structs.insert name.text middle.symbols.size }
          problems with log } :=
        (Extends.quiet stored stored.scopes _ log).trans (.reporting _ problems)
      let record : Record :=
        { name := name.text, symbol := middle.symbols.size, declarators := fields.2 }
      apply Learns.of_declared (.struct record)
        (by simp [Tree.declared?, Tree.mapNote, isNamed, record])
        (storing.extends_.trans registering)
      intro accepted known knows
      have acceptedStored : stored.Accepted := registering.accepted accepted
      have filled := fills acceptedStored [] ⟨.empty, by simp⟩
      have tracks := ((tracks_registered (storing.tracks acceptedStored known knows.toTracks)
        record).reporting problems).logged log
      refine ⟨⟨tracks, ?_, ?_⟩, ?_⟩
      · intro declared member
        rcases List.mem_append.mp member with earlier | here
        · exact (storing.extends_.trans registering).grows.declared (knows.recorded _ earlier)
        · rw [List.mem_singleton] at here
          subst here
          refine ⟨symbol, fields.1, Array.getElem?_push_size, rfl, filled.tabulates, ?_⟩
          intro field member id noted
          rcases filled.stored field member id noted with ⟨known, found, isField⟩
          exact ⟨known, Grows.push _ _ _ _ found, isField⟩
      · rw [List.filterMap_append]
        refine List.nodup_append.mpr ⟨knows.distinct, by simp [Declared.structSymbol?], ?_⟩
        intro id earlier other here same
        rw [same, List.mem_singleton.mp here] at earlier
        exact (keeps.knows acceptedStored knows).size_not_mem earlier
      · simp [Tree.Fits, Tree.declared?, Tree.mapNote, isNamed]

/-! ## Names in tables -/

/-- What declaring a name does. Without a warning, it was not bound before or a definition
follows its prototype. -/
theorem declare_ends (target : DeclarationTarget) (name : String) (id : Nat)
    (state : AnalysisState) :
    Ends (declare target name id) state fun _ after => ∃ problems,
      after = AnalysisState.reporting
        { state with scopes := state.scopes.bind target name id } problems ∧
      (problems = [] → ∀ previous, state.scopes.bound? target name = some previous →
        (state.symbol previous).isPrototype = true ∧ (state.symbol id).isFunction = true ∧
          (state.symbol id).isPrototype = false) := by
  unfold declare
  apply Ends.bind
  apply Ends.get
  apply Ends.bind
  apply Ends.set
  cases bound : state.scopes.bound? target name with
  | none =>
      apply Ends.pure
      exact ⟨[], rfl, by simp⟩
  | some previous =>
      dsimp only
      split
      · rename_i follows
        apply Ends.pure
        refine ⟨[], rfl, ?_⟩
        intro _ other same
        cases same
        simpa [and_assoc] using follows
      · apply Ends.modify
        exact ⟨[_], rfl, by simp⟩

section

variable {target : DeclarationTarget} {name : String} {id : Nat}

theorem bound_bind {known : List Declared} (tracks : Tracks known state)
    (stored : id < state.symbols.size) :
    ∀ table ∈ (state.scopes.bind target name id).tables, ∀ other found,
      table.find? other = some found → found < state.symbols.size := by
  intro table member other found look
  rcases Scopes.mem_tables_bind member with old | ⟨old, among, rfl⟩
  · exact tracks.bound table old other found look
  · rw [Table.find?_insert] at look
    split at look
    · cases look
      exact stored
    · exact tracks.bound old among other found look

/-- Without a problem nothing has been reported before. -/
theorem items_eq_nil {problems : List Problem}
    (none : (state.reporting problems).diagnostics.items = []) :
    state.diagnostics.items = [] ∧ problems = [] := by
  rw [AnalysisState.items_reporting, List.append_eq_nil_iff] at none
  exact ⟨none.1, List.map_eq_nil_iff.mp none.2⟩

theorem declare_keeps (stored : id < state.symbols.size)
    (other : (state.symbol id).isFunction = false) :
    Ends (declare target name id) state fun _ after =>
      Keeps state after ∧ after.symbols = state.symbols := by
  apply (declare_ends target name id state).imp
  intro _ after ends
  rcases ends with ⟨problems, rfl, warned⟩
  refine ⟨⟨(Extends.quiet state _ state.structs state.log).trans (.reporting _ problems), ?_⟩, rfl⟩
  intro _ known tracks
  refine ⟨tracks.types, bound_bind tracks stored, ?_, ?_, tracks.structs⟩
  · intro called found look isFunction
    rcases Scopes.globals_bind with same | ⟨inserted, _⟩
    · rw [AnalysisState.scopes_reporting, same] at look
      exact tracks.functions called found look isFunction
    · rw [AnalysisState.scopes_reporting, inserted, Table.find?_insert] at look
      split at look
      · cases look
        have same : (state.symbol id).isFunction = true := isFunction
        rw [other] at same
        contradiction
      · exact tracks.functions called found look isFunction
  · intro none signature member definition
    rcases items_eq_nil none with ⟨noneBefore, noProblem⟩
    have known := tracks.definitions noneBefore signature member definition
    rcases Scopes.globals_bind with same | ⟨inserted, here⟩
    · rw [AnalysisState.scopes_reporting, same]
      exact known
    · rw [AnalysisState.scopes_reporting, inserted, Table.find?_insert]
      split
      · rename_i same
        rw [same] at known
        have follows := warned noProblem _ (here.trans known)
        rw [other] at follows
        simp at follows
      · exact known

theorem declareFunction_tracks (stored : id < state.symbols.size) :
    Ends (declare .file name id) state fun _ after =>
      Extends state after ∧ after.symbols = state.symbols ∧
        ∀ known, Knows known state → ∀ signature : Signature, signature.name = name →
          signature.symbol = id → Tracks (known ++ [.function signature]) after := by
  apply (declare_ends .file name id state).imp
  intro _ after ends
  rcases ends with ⟨problems, rfl, warned⟩
  refine ⟨(Extends.quiet state _ state.structs state.log).trans (.reporting _ problems), rfl, ?_⟩
  intro known knows signature named symbol
  subst named symbol
  have globals (called : String) : (state.scopes.bind .file signature.name
      signature.symbol).globals.find? called =
        if called = signature.name then some signature.symbol
        else state.scopes.globals.find? called :=
    Table.find?_insert _ _ _ called
  refine ⟨knows.types, bound_bind knows.toTracks stored, ?_, ?_, ?_⟩
  · intro called found look isFunction
    rw [AnalysisState.scopes_reporting, globals] at look
    split at look
    · rename_i same
      cases look
      exact ⟨signature, by simp, same.symm, rfl⟩
    · rcases knows.functions called found look isFunction with ⟨older, member, rest⟩
      exact ⟨older, List.mem_append_left _ member, rest⟩
  · intro none other member definition
    rcases items_eq_nil none with ⟨noneBefore, noProblem⟩
    rw [AnalysisState.scopes_reporting, globals]
    rcases List.mem_append.mp member with earlier | here
    · have bound := knows.definitions noneBefore other earlier definition
      split
      · -- Only a prototype is replaced without a warning.
        rename_i same
        rw [same] at bound
        have isPrototype := (warned noProblem _ bound).1
        rcases knows.recorded _ earlier with ⟨symbol, _, storedOther, role, _⟩
        rw [AnalysisState.symbol_of_getElem? storedOther, Symbol.isPrototype, role, definition]
          at isPrototype
        contradiction
      · exact bound
    · simp only [List.mem_singleton, Declared.function.injEq] at here
      rw [here, if_pos rfl]
  · intro called
    rw [List.reverse_append, List.findSome?_append]
    exact knows.structs called

theorem recordSymbol_keeps (name : String) (id : Nat) (state : AnalysisState) :
    Ends (recordSymbol name id) state fun _ after =>
      Keeps state after ∧ after.symbols = state.symbols := by
  apply Ends.bind
  apply Ends.get
  apply Ends.modify
  exact ⟨.logged state _, rfl⟩

end

/-! ## Variables -/

theorem replacedVariable_ends_same (name : String) (state : AnalysisState) :
    Ends (replacedVariable name) state fun _ after => after = state := by
  apply Ends.bind
  apply Ends.get
  apply Ends.pure
  rfl

theorem isFunction_push (state : AnalysisState) {symbol : Symbol}
    (other : symbol.isFunction = false) :
    (AnalysisState.symbol { state with symbols := state.symbols.push symbol }
      state.symbols.size).isFunction = false := by
  rw [AnalysisState.symbol_of_getElem? Array.getElem?_push_size]
  exact other

theorem declareVariable_keeps {Value : Type} {value : Value} (name : String) {id : Nat}
    (stored : id < state.symbols.size) (other : (state.symbol id).isFunction = false) :
    Ends (do
      declare .innermost name id
      recordSymbol name id
      return value) state fun result after =>
        result = value ∧ Keeps state after ∧ after.symbols = state.symbols := by
  apply Ends.bind
  apply (declare_keeps stored other).imp
  intro _ middle declared
  apply Ends.bind
  apply (recordSymbol_keeps name id middle).imp
  intro _ after logged
  apply Ends.pure
  exact ⟨rfl, declared.1.trans logged.1, logged.2.trans declared.2⟩

theorem checkVariable_learns (result : Option ValueType) {node : Tree}
    (plain : Numbering.IsPlain node) (isVariable : node.kind = .variable) (state : AnalysisState) :
    Ends (checkVariable node) state fun annotated after =>
      Learns result annotated.walked annotated.returned state after := by
  rcases node with ⟨kind, location, text, note, children⟩
  subst isVariable
  unfold checkVariable
  rcases children with _ | ⟨declarator, values⟩
  · exact .of_report rfl (.refl state)
  dsimp only
  apply Ends.bind
  apply (declaredType_proper none declarator state).ends
  intro type problems proper
  cases declared : declarator.declaredName? with
  | none => exact .of_report rfl (.reporting state problems)
  | some name =>
      apply Ends.bind
      apply (replacedVariable_ends_same name.text (state.reporting problems)).imp
      intro replaces _ same
      subst same
      apply Ends.bind
      apply Ends.get
      apply Ends.bind
      apply Ends.modifyGet
      dsimp only
      generalize form : (⟨type, .variable replaces, name.location,
        (state.reporting problems).scopes.currentBlock⟩ : Symbol) = symbol
      have sameType : symbol.type = type := by rw [← form]
      have other : symbol.isFunction = false := by rw [← form]; rfl
      have properType (accepted : (state.reporting problems).Accepted) : type.IsProper :=
        (proper (AnalysisState.accepted_reporting accepted)).1
      have storing : Keeps state { state.reporting problems with
          symbols := (state.reporting problems).symbols.push symbol } :=
        (Keeps.reporting state problems).trans
          (.allocated _ fun accepted => (properType accepted).of_eq sameType)
      have notFunction := isFunction_push (state.reporting problems) other
      have inside : state.symbols.size < (state.symbols.push symbol).size := by
        rw [Array.size_push]
        omega
      rcases values with _ | ⟨value, rest⟩
      · apply Ends.bind
        apply Ends.pure
        apply (declareVariable_keeps name.text inside notFunction).imp
        intro _ after declares
        rcases declares with ⟨rfl, keeps, _⟩
        apply Learns.of_suited (storing.trans keeps).extends_
        intro accepted known knows
        exact ⟨(storing.trans keeps).knows accepted knows, rfl,
          .of_walked rfl rfl trivial (by simp)⟩
      · apply Ends.bind
        apply (Expression.check_hasType value (plain.child (by simp)) _).ends
        intro value found typed
        apply Ends.bind
        apply (requireCompatible_meets "initialization" type value _).ends
        intro _ mismatch meets
        apply Ends.bind
        apply Ends.pure
        refine (declareVariable_keeps name.text ?_ ?_).imp ?_
        · exact inside
        · exact notFunction
        intro _ after declares
        rcases declares with ⟨rfl, keeps, _⟩
        have checking := storing.trans ((Keeps.reporting _ found).trans (.reporting _ mismatch))
        apply Learns.of_suited (checking.trans keeps).extends_
        intro accepted known knows
        have acceptedMismatch := keeps.extends_.accepted accepted
        have acceptedValue := (Extends.reporting _ mismatch).accepted acceptedMismatch
        have acceptedStored := (Extends.reporting _ found).accepted acceptedValue
        have typedValue := typed (AnalysisState.accepted_reporting acceptedValue) known
          (storing.knows acceptedStored knows)
        have fits := meets (AnalysisState.accepted_reporting acceptedMismatch)
          (properType acceptedStored) typedValue.type
        have same : (note.addType type).type = type := Note.type_addType plain.isUntyped.type type {}
        refine ⟨(checking.trans keeps).knows accepted knows, rfl,
          .of_walked rfl rfl ?_ typedValue.suited⟩
        show (note.addType type).type.Meets value.note.type
        rw [same]
        exact fits

/-! ## Functions -/

/-- A parameter has the symbol that comes next, unless it is refused. -/
theorem checkParameter_stores {declarator : Tree} (plain : Numbering.IsPlain declarator)
    (state : AnalysisState) :
    Ends (checkParameter declarator) state fun annotated after =>
      Keeps state after ∧ (after.Accepted → declarator.declaredName?.isSome = true ∧
        after.symbols.size = state.symbols.size + 1 ∧
        ∃ symbol, after.symbols[state.symbols.size]? = some symbol ∧
          symbol.type = annotated.note.type) := by
  unfold checkParameter
  apply Ends.bind
  apply (declaredType_proper none declarator state).ends
  intro type problems proper
  cases declared : declarator.declaredName? with
  | none =>
      apply Ends.bind
      apply Ends.modify
      apply Ends.pure
      refine ⟨(Keeps.reporting state problems).trans (.reporting _ [_]), fun accepted => ?_⟩
      exact absurd accepted (AnalysisState.refused_reporting rfl)
  | some name =>
      apply Ends.bind
      apply (replacedVariable_ends_same name.text (state.reporting problems)).imp
      intro replaces _ same
      subst same
      apply Ends.bind
      apply Ends.get
      apply Ends.bind
      apply Ends.modifyGet
      dsimp only
      generalize form : (⟨type, .parameter replaces, name.location,
        (state.reporting problems).scopes.currentBlock⟩ : Symbol) = symbol
      have sameType : symbol.type = type := by rw [← form]
      have other : symbol.isFunction = false := by rw [← form]; rfl
      have storing : Keeps state { state.reporting problems with
          symbols := (state.reporting problems).symbols.push symbol } :=
        (Keeps.reporting state problems).trans (.allocated _ fun accepted =>
          (proper (AnalysisState.accepted_reporting accepted)).1.of_eq sameType)
      have notFunction := isFunction_push (state.reporting problems) other
      have size : (state.symbols.push symbol).size = state.symbols.size + 1 := Array.size_push _
      apply (declareVariable_keeps name.text (by
        show state.symbols.size < (state.symbols.push symbol).size
        omega) notFunction).imp
      intro _ after declares
      rcases declares with ⟨rfl, keeps, symbols⟩
      have note : (declarator.note.addType type).type = type :=
        Note.type_addType plain.isUntyped.type type {}
      refine ⟨storing.trans keeps, fun _ => ⟨rfl, ?_, symbol, ?_, ?_⟩⟩
      · rw [symbols]
        exact size
      · rw [symbols]
        exact Array.getElem?_push_size
      · exact sameType.trans note.symm

theorem checkParameters_store {declarators : List Tree}
    (plain : ∀ declarator ∈ declarators, Numbering.IsPlain declarator) (state : AnalysisState) :
    Ends (checkParameters declarators) state fun annotated after =>
      Keeps state after ∧ (after.Accepted →
        (List.range' state.symbols.size (declarators.countP (·.declaredName?.isSome))).Forall₂
          (fun id type => ∃ stored, after.symbols[id]? = some stored ∧ stored.type = type)
          (annotated.map (·.note.type))) := by
  induction declarators generalizing state with
  | nil =>
      apply Ends.pure
      exact ⟨.reporting state [], fun _ => .nil⟩
  | cons declarator rest induction =>
      simp only [List.forall_mem_cons] at plain
      apply Ends.bind
      apply (checkParameter_stores plain.1 state).imp
      intro first middle step
      rcases step with ⟨keeps, stores⟩
      apply Ends.bind
      apply (induction plain.2 middle).imp
      intro others after run
      rcases run with ⟨keepsRest, storesRest⟩
      apply Ends.pure
      refine ⟨keeps.trans keepsRest, fun accepted => ?_⟩
      rcases stores (keepsRest.extends_.accepted accepted) with
        ⟨named, size, symbol, here, type⟩
      have more := storesRest accepted
      rw [size] at more
      rw [List.countP_cons, if_pos named, List.range'_succ]
      exact .cons ⟨symbol, keepsRest.extends_.grows _ _ here, type⟩ more

structure Opens (node : Tree) (heading : Heading) (signature : Signature)
    (before after : AnalysisState) : Prop where
  declared : ∀ rest, (closeFunction node heading rest).declared? = some (.function signature)
  extends_ : Extends before after
  proper : after.Accepted → heading.type.IsProper
  knows : after.Accepted → ∀ known, Knows known before →
    Knows (known ++ [.function signature]) after

inductive Opening (node : Tree) (before after : AnalysisState) : Option Heading → Prop
  | refused (extends_ : Extends before after) (refused : ¬after.Accepted) :
      Opening node before after none
  | opened {heading : Heading} (signature : Signature)
      (opens : Opens node heading signature before after) : Opening node before after (some heading)

theorem declared?_closeFunction {node name : Tree} {heading : Heading} {text : String} {id : Nat}
    (function : node.kind = .function ∨ node.kind = .prototype)
    (named : heading.declarator.declaredName? = some name) (called : name.text = text)
    (noted : name.note.symbol = some id) (rest : List Tree) :
    (closeFunction node heading rest).declared? = some (.function {
      name := text
      symbol := id
      parameters := heading.parameters.children.map (·.note.type)
      isPrototype := node.kind == .prototype }) := by
  rcases function with isFunction | isPrototype
  · simp [closeFunction, Tree.declared?, isFunction, named, called, noted]
  · simp [closeFunction, Tree.declared?, isPrototype, named, called, noted]

theorem openFunction_opens {node parameterList : Tree}
    (function : node.kind = .function ∨ node.kind = .prototype) (declarator : Tree)
    (plain : Numbering.IsPlain parameterList) (state : AnalysisState) :
    Ends (openFunction node declarator parameterList) state fun heading? after =>
      Opening node state after heading? := by
  unfold openFunction
  apply Ends.bind
  apply (declaredType_proper none declarator state).ends
  intro type problems proper
  cases declared : declarator.declaredName? with
  | none =>
      apply Ends.bind
      apply Ends.modify
      apply Ends.pure
      exact .refused ((Extends.reporting state problems).trans (.reporting _ [_]))
        (AnalysisState.refused_reporting rfl)
  | some name =>
      apply Ends.bind
      apply Ends.get
      dsimp only
      generalize form : SymbolRole.function _ (node.kind == .prototype) = role
      apply Ends.bind
      apply Ends.modifyGet
      let symbol : Symbol := { type, role, location := name.location }
      let stored : AnalysisState := { state.reporting problems with
        symbols := state.symbols.push symbol }
      have storing : Keeps state stored :=
        (Keeps.reporting state problems).trans
          (.allocated _ fun accepted => (proper (AnalysisState.accepted_reporting accepted)).1)
      have size : stored.symbols.size = state.symbols.size + 1 := Array.size_push _
      apply Ends.bind
      apply (recordSymbol_keeps name.text state.symbols.size stored).imp
      intro _ logged recorded
      rcases recorded with ⟨logging, sameSymbols⟩
      apply Ends.bind
      have inside : state.symbols.size < logged.symbols.size := by
        rw [sameSymbols]
        omega
      apply (declareFunction_tracks inside).imp
      intro _ bound declares
      rcases declares with ⟨binding, boundSymbols, tracks⟩
      apply Ends.bind
      apply Ends.modify
      apply Ends.bind
      apply (checkParameters_store (fun parameter member => plain.child member) _).imp
      intro parameters inside opened
      rcases opened with ⟨keeps, types⟩
      apply Ends.bind
      apply Ends.modify
      apply Ends.pure
      have first : bound.symbols.size = state.symbols.size + 1 := by
        rw [boundSymbols, sameSymbols, size]
      have closing : Keeps bound { inside with log := inside.log ++ [.separator] } :=
        ((Keeps.entered bound).trans keeps).trans (.logged inside _)
      have filed := (logging.extends_.trans binding).trans closing.extends_
      let signature : Signature := {
        name := name.text
        symbol := state.symbols.size
        parameters := parameters.map (·.note.type)
        isPrototype := node.kind == .prototype }
      have annotated := declaredName?_annotateName type role.roles state.symbols.size declarator
      rw [declared] at annotated
      apply Opening.opened signature
      refine ⟨declared?_closeFunction function annotated rfl rfl, storing.extends_.trans filed,
        ?_, ?_⟩
      · intro accepted
        have acceptedType : (state.reporting problems).Accepted := filed.accepted accepted
        exact (proper (AnalysisState.accepted_reporting acceptedType)).1
      · intro accepted known knows
        have acceptedLogged := (binding.trans closing.extends_).accepted accepted
        have acceptedStored := logging.extends_.accepted acceptedLogged
        have tracked := tracks known
          (logging.knows acceptedLogged (storing.knows acceptedStored knows)) signature rfl rfl
        refine ⟨closing.tracks accepted _ tracked, ?_, ?_⟩
        · intro found member
          rcases List.mem_append.mp member with earlier | here
          · exact (storing.extends_.trans filed).grows.declared (knows.recorded _ earlier)
          · rw [List.mem_singleton] at here
            subst here
            have held := types accepted
            rw [show AnalysisState.symbols _ = bound.symbols from rfl, first] at held
            exact ⟨symbol, _, filed.grows _ _ Array.getElem?_push_size, form.symm, held⟩
        · have none : [Declared.function signature].filterMap Declared.structSymbol? = [] := rfl
          rw [List.filterMap_append, none, List.append_nil]
          exact knows.distinct

end Declaration

end OcLang
