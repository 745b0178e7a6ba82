import OcLang.Proofs.Analysis.ExpressionChecks
import OcLang.Proofs.Scoping.Expressions
import OcLang.Proofs.Typing.Knowledge

namespace OcLang

open Check

/-! # Types of expressions

An expression without errors has a proper type, and everything in it fits to
what has been declared. -/

theorem Numbering.IsPlain.isUntyped {tree : Tree} (plain : Numbering.IsPlain tree) :
    tree.note.IsUntyped := by
  rcases plain.untouched with ⟨_, attributes, structName⟩
  exact ⟨by rw [attributes], structName⟩

namespace Tree

def IsSuited (known : List Declared) (tree : Tree) : Prop :=
  ∀ node ∈ tree.walked, node.declared? = none ∧ node.Fits known

structure HasType (known : List Declared) (tree : Tree) : Prop where
  type : tree.note.type.IsProper
  returnsNothing : tree.returned = []
  suited : tree.IsSuited known

theorem IsSuited.of_walked {known : List Declared} {tree : Tree} {nodes : List Tree}
    (walked : tree.walked = tree :: nodes) (declares : tree.declared? = none)
    (fits : tree.Fits known)
    (below : ∀ node ∈ nodes, node.declared? = none ∧ node.Fits known) : tree.IsSuited known := by
  rw [IsSuited, walked, List.forall_mem_cons]
  exact ⟨⟨declares, fits⟩, below⟩

theorem isSuited_of_silent {known : List Declared} {tree : Tree}
    (silent : tree.kind.isSilent = true) (simple : tree.isCompound = false) :
    tree.IsSuited known := by
  apply IsSuited.of_walked (walked_eq_singleton simple silent)
  all_goals rcases tree with ⟨kind, location, text, note, children⟩
  · unfold declared?
    split <;> simp_all [isCompound, Kind.isSilent]
  · unfold Fits
    split <;> simp_all [isCompound, Kind.isSilent]
  · simp

end Tree

namespace Declared

variable {known : List Declared} {name : String} {id : Nat}

theorem exists_of_structNamed? (found : known.reverse.findSome? (·.structNamed? name) = some id) :
    ∃ record, .struct record ∈ known ∧ record.name = name ∧ record.symbol = id := by
  rcases List.exists_of_findSome?_eq_some found with ⟨declared, member, named⟩
  cases declared with
  | function signature => contradiction
  | struct record =>
      simp only [structNamed?, Option.ite_none_right_eq_some, Option.some.injEq] at named
      exact ⟨record, List.mem_reverse.mp member, named⟩

end Declared

namespace Expression

section

variable {location : Location} {text : String} {note : Note} (untyped : note.IsUntyped)

/-! ## The rules -/

theorem identifier_hasType {node : Tree}
    (isIdentifier : node.kind = .identifier) (untyped : node.note.IsUntyped)
    (state : AnalysisState) :
    Reports (identifier node) state fun annotated problems => NoError problems →
      ∀ known, Knows known state → annotated.HasType known := by
  unfold identifier
  apply Reports.bind
  apply Reports.get
  cases found : state.scopes.find? node.text with
  | none =>
      rw [Scopes.lookup_of_missing found]
      apply Reports.bind
      apply Reports.report
      apply Reports.pure
      intro accepted
      contradiction
  | some id =>
      rw [Scopes.lookup_of_found found]
      apply Reports.bind
      apply Reports.symbol
      apply Reports.pure
      intro _ known knows
      rcases Scopes.mem_tables_of_find? found with ⟨table, member, bound⟩
      have proper := knows.symbol_isProper (knows.bound table member _ _ bound)
      rcases node with ⟨kind, location, text, note, children⟩
      simp only at isIdentifier
      subst isIdentifier
      exact {
        type := proper.of_eq (Note.type_addType untyped.type _ _)
        returnsNothing := rfl
        suited := .of_walked rfl rfl trivial (by simp) }

theorem callArguments_meets (name : String) (place : Location) (parameters : List Nat)
    (arguments : List Tree) (state : AnalysisState) :
    Reports (callArguments name place parameters arguments) state fun _ problems =>
      NoError problems → ∀ types, parameters.Forall₂
        (fun id type => ∃ symbol, state.symbols[id]? = some symbol ∧ symbol.type = type) types →
      (∀ type ∈ types, type.IsProper) → (∀ argument ∈ arguments, argument.note.type.IsProper) →
        types.Forall₂ ValueType.Meets (arguments.map (·.note.type)) := by
  unfold callArguments
  split
  · apply Reports.report
    intro accepted
    contradiction
  · rename_i counted
    have sameLength : parameters.length = arguments.length := by simpa using counted
    clear counted
    induction parameters generalizing arguments state with
    | nil =>
        rw [List.length_nil, eq_comm, List.length_eq_zero_iff] at sameLength
        subst sameLength
        apply Reports.pure
        intro _ types held _ _
        cases held
        exact .nil
    | cons parameter parameters induction =>
        cases arguments with
        | nil => contradiction
        | cons argument rest =>
            apply Reports.bind
            apply Reports.bind
            apply Reports.symbol
            apply (requireCompatible_meets _ _ _ _).imp
            intro _ problems meets
            apply (induction rest (state.reporting problems) (by simpa using sameLength)).imp
            intro _ more meetsRest accepted types held proper properArguments
            cases held with
            | cons here held =>
              rcases here with ⟨symbol, stored, rfl⟩
              rw [AnalysisState.symbol_of_getElem? stored] at meets
              simp only [noError_append] at accepted
              simp only [List.forall_mem_cons] at proper properArguments
              exact .cons (meets accepted.1.2 proper.1 properArguments.1)
                (meetsRest accepted.2 _ held proper.2 properArguments.2)

include untyped

theorem call_hasType (callee : Tree) (arguments : List Tree) (state : AnalysisState) :
    Reports (call ⟨.call, location, text, note, []⟩ callee arguments) state
      fun annotated problems => NoError problems → ∀ known, Knows known state →
        (∀ argument ∈ arguments, argument.HasType known) → annotated.HasType known := by
  unfold call
  apply Reports.bind
  apply Reports.get
  cases found : state.scopes.globals.find? callee.text with
  | none =>
      rw [Scopes.lookupGlobal_of_missing found]
      apply Reports.bind
      apply Reports.report
      apply Reports.pure
      intro accepted
      contradiction
  | some id =>
      rw [Scopes.lookupGlobal_of_found found]
      apply Reports.bind
      apply Reports.symbol
      rw [AnalysisState.reporting_nil]
      split
      · apply Reports.bind
        apply Reports.report
        apply Reports.pure
        intro accepted
        contradiction
      · rename_i function
        have isFunction : (state.symbol id).isFunction = true := by simpa using function
        apply Reports.bind
        apply (callArguments_meets _ _ _ _ _).imp
        intro _ problems meets
        apply Reports.pure
        intro accepted known knows typed
        rcases knows.functions _ _ found isFunction with ⟨signature, member, named, rfl⟩
        rcases knows.recorded _ member with ⟨symbol, parameters, stored, role, types⟩
        have symbolHere := AnalysisState.symbol_of_getElem? stored
        have parametersHere : symbol.parameters = parameters := by
          rw [Symbol.parameters, Symbol.parameters?, role]
          rfl
        have proper : ∀ type ∈ signature.parameters, type.IsProper := by
          intro type inside
          rcases List.getElem_of_mem inside with ⟨place, bound, rfl⟩
          rcases (List.forall₂_iff_get.mp types).2 place
            (types.length_eq ▸ bound) bound with ⟨parameter, storedParameter, same⟩
          exact (knows.types _ _ storedParameter).of_eq same.symm
        rw [symbolHere, parametersHere] at meets
        rw [symbolHere]
        refine ⟨(knows.types _ _ stored).of_eq (Note.type_addType untyped.type _ _), rfl,
          .of_walked rfl rfl ⟨signature, member, named, rfl, ?_⟩ ?_⟩
        · exact meets (by simpa using accepted) _ types proper
            fun argument inside => (typed argument inside).type
        · rw [Tree.walkedAll_eq_flatMap]
          intro node inside
          rcases List.mem_flatMap.mp inside with ⟨argument, among, below⟩
          exact (typed argument among).suited node below

omit untyped in
theorem selectedField_known (node object field : Tree) (state : AnalysisState) :
    Reports (selectedField node object field) state fun found problems => NoError problems →
      ∃ id, found = some id ∧ ∀ known, Knows known state →
        (state.symbol id).type.IsProper ∧
          ∃ record, .struct record ∈ known ∧ object.note.structName = some record.name ∧
            ∃ declared ∈ record.fields, declared.text = field.text ∧
              declared.note.symbol = some id := by
  unfold selectedField
  dsimp only
  split
  · rename_i structName named plain
    apply Reports.bind
    apply Reports.get
    cases found : state.structs.find? structName with
    | none =>
        apply Reports.bind
        apply Reports.report
        apply Reports.pure
        intro accepted
        contradiction
    | some id =>
        apply Reports.bind
        apply Reports.symbol
        cases selected : (state.symbol id).fields?.bind (·.find? field.text) with
        | none =>
            simp only [AnalysisState.symbol_reporting, selected]
            apply Reports.bind
            apply Reports.report
            apply Reports.pure
            intro accepted
            contradiction
        | some fieldId =>
            simp only [AnalysisState.symbol_reporting, selected]
            apply Reports.pure
            intro _
            refine ⟨fieldId, rfl, ?_⟩
            intro known knows
            have whole := knows.structs structName
            rw [found, eq_comm] at whole
            rcases Declared.exists_of_structNamed? whole with ⟨record, member, rfl, rfl⟩
            rcases knows.recorded _ member with ⟨symbol, table, stored, role, tabulates, held⟩
            have fieldsHere : (state.symbol record.symbol).fields? = some table := by
              rw [AnalysisState.symbol_of_getElem? stored, Symbol.fields?, role]
            rw [fieldsHere, Option.bind_some] at selected
            rcases tabulates.held _ _ selected with ⟨declared, among, symbolOf⟩
            rcases held declared among _ symbolOf with ⟨fieldSymbol, storedField, _⟩
            refine ⟨?_, record, member, named, declared, among, ?_, symbolOf⟩
            · rw [AnalysisState.symbol_of_getElem? storedField]
              exact knows.types _ _ storedField
            · exact tabulates.same _ _ selected declared among symbolOf
  · apply Reports.bind
    apply Reports.report
    apply Reports.pure
    intro accepted
    contradiction

theorem select_hasType (object field : Tree) (state : AnalysisState) :
    Reports (select ⟨.select, location, text, note, []⟩ object field) state
      fun annotated problems => NoError problems → ∀ known, Knows known state →
        object.HasType known → annotated.HasType known := by
  unfold select
  dsimp only
  split
  · rename_i objectUntyped
    apply Reports.pure
    intro _ known _ typed
    have objectTyped : object.note.isTyped = true := typed.type.isTyped
    simp [objectTyped] at objectUntyped
  · apply Reports.bind
    apply (selectedField_known _ object field state).imp
    intro found problems selects
    cases found with
    | none =>
        apply Reports.pure
        intro accepted
        rcases selects (by simpa using accepted) with ⟨id, none, _⟩
        contradiction
    | some id =>
        apply Reports.bind
        apply Reports.symbol
        apply Reports.pure
        intro accepted known knows typed
        rcases selects (by simpa using accepted) with ⟨_, same, declared⟩
        cases same
        rcases declared known knows with ⟨proper, record, member, named, name, among, text, noted⟩
        exact ⟨proper.of_eq (Note.type_addType untyped.type _ _), rfl,
          .of_walked rfl rfl ⟨record, member, named, name, among, text, id, noted, rfl⟩
            typed.suited⟩

theorem index_hasType (state : AnalysisState) (array position : Tree) :
    Reports (index ⟨.index, location, text, note, []⟩ array position) state
      fun annotated problems => NoError problems → ∀ known, array.HasType known →
        position.HasType known → annotated.HasType known := by
  have suited {known : List Declared} (note : Note) (typed : array.HasType known)
      (typedPosition : position.HasType known) :
      Tree.IsSuited known ⟨.index, location, text, note, [array, position]⟩ :=
    .of_walked rfl rfl trivial (List.forall_mem_append.mpr ⟨typed.suited, typedPosition.suited⟩)
  unfold index
  apply Reports.bind
  apply (requireInteger_reports _ _ _).imp
  intro _ problems _
  dsimp only
  split
  · rename_i arrayUntyped
    apply Reports.pure
    intro _ known typed _
    have arrayTyped : array.note.type.isTyped = true := typed.type.isTyped
    simp [arrayTyped] at arrayUntyped
  · split
    · rename_i isArray
      apply Reports.pure
      intro _ known typed typedPosition
      have proper := typed.type.element (Bool.and_eq_true_iff.mp isArray).1
      exact ⟨proper.of_eq (Note.type_addType untyped.type _ _), rfl,
        suited _ typed typedPosition⟩
    · split
      · apply Reports.pure
        intro _ known typed typedPosition
        exact ⟨⟨.plain .int, Note.type_add untyped _⟩, rfl, suited _ typed typedPosition⟩
      · apply Reports.bind
        apply Reports.report
        apply Reports.pure
        intro accepted
        simp only [noError_append] at accepted
        rcases accepted with ⟨_, refused, _⟩
        contradiction

theorem newStruct_hasType (state : AnalysisState) (type : Tree) (children : List Tree) :
    Reports (newStruct ⟨.allocate .struct, location, text, note, children⟩ type) state
      fun annotated problems => NoError problems → ∀ known, annotated.HasType known := by
  unfold newStruct
  apply Reports.bind
  apply (declaredType_proper none type state).imp
  intro declared problems proper
  apply Reports.pure
  intro accepted known
  have properType := (proper (by simpa using accepted)).1
  exact ⟨properType.of_eq (Note.type_addType untyped.type _ _), rfl,
    .of_walked rfl rfl trivial (by simp)⟩

theorem newArray_hasType (state : AnalysisState) (type size : Tree) (declared : ValueType) :
    Reports (newArray ⟨.allocate .array, location, text, note, []⟩ declared type size) state
      fun annotated _ => declared.IsProper ∧ declared.flags.null = false →
        ∀ known, size.HasType known → annotated.HasType known := by
  unfold newArray
  apply Reports.bind
  apply (requireInteger_reports _ _ _).imp
  intro _ problems _
  apply Reports.pure
  intro proper known typed
  exact ⟨(proper.1.array proper.2).of_eq (Note.type_addType untyped.type _ _), rfl,
    .of_walked rfl rfl trivial typed.suited⟩

theorem newString_hasType (state : AnalysisState) (size : Tree) :
    Reports (newString ⟨.allocate .string, location, text, note, []⟩ size) state
      fun annotated _ => ∀ known, size.HasType known → annotated.HasType known := by
  unfold newString
  apply Reports.bind
  apply (requireInteger_reports _ _ _).imp
  intro _ problems _
  apply Reports.pure
  intro known typed
  exact ⟨⟨.plain .string, Note.type_add untyped _⟩, rfl, .of_walked rfl rfl trivial typed.suited⟩

theorem assign_hasType (state : AnalysisState) (target value : Tree) :
    Reports (assign ⟨.assign, location, text, note, []⟩ target value) state
      fun annotated problems => NoError problems → ∀ known, target.HasType known →
        value.HasType known → annotated.HasType known := by
  have rest (state : AnalysisState) : Reports (do
        requireCompatible "assignment" target.note.type value
        return {
          (⟨.assign, location, text, note, []⟩ : Tree) with
          note := note.addType target.note.type target.note.attributes.roles
          children := [target, value] }) state fun annotated problems =>
      NoError problems → ∀ known, target.HasType known → value.HasType known →
        annotated.HasType known := by
    apply Reports.bind
    apply (requireCompatible_meets _ _ _ _).imp
    intro _ problems meets
    apply Reports.pure
    intro accepted known typed typedValue
    refine ⟨typed.type.of_eq (Note.type_addType untyped.type _ _), rfl, .of_walked rfl rfl ?_ ?_⟩
    · exact meets (by simpa using accepted) typed.type typedValue.type
    · exact List.forall_mem_append.mpr ⟨typed.suited, typedValue.suited⟩
  unfold assign
  dsimp only
  split
  · apply Reports.bind
    apply Reports.report
    apply (rest _).imp
    intro _ more _ accepted
    simp only [noError_append] at accepted
    rcases accepted with ⟨refused, _⟩
    contradiction
  · exact rest state

theorem binary_hasType (state : AnalysisState) (operator : BinaryOperator) (left right : Tree) :
    Reports (binary operator
        ⟨.binary operator, location, text, note.add operatorAttributes, []⟩ left right) state
      fun annotated problems => NoError problems → ∀ known, left.HasType known →
        right.HasType known → annotated.HasType known := by
  have suited {known : List Declared} (typed : left.HasType known)
      (typedRight : right.HasType known)
      (fits : operator.isEquality = true → left.note.type.Meets right.note.type) :
      Tree.HasType known
        ⟨.binary operator, location, text, note.add operatorAttributes, [left, right]⟩ :=
    ⟨⟨.plain .int, Note.type_add untyped _⟩, rfl,
      .of_walked rfl rfl fits (List.forall_mem_append.mpr ⟨typed.suited, typedRight.suited⟩)⟩
  unfold binary
  dsimp only
  split
  · apply Reports.bind
    apply (requireCompatible_meets _ _ _ _).imp
    intro _ problems meets
    apply Reports.pure
    intro accepted known typed typedRight
    exact suited typed typedRight fun _ =>
      meets (by simpa using accepted) typed.type typedRight.type
  · rename_i other
    apply Reports.bind
    apply (requireInteger_reports _ _ _).imp
    intro _ problems _
    apply Reports.bind
    apply (requireInteger_reports _ _ _).imp
    intro _ more _
    apply Reports.pure
    intro _ known typed typedRight
    exact suited typed typedRight fun equality => absurd equality other

omit untyped

/-! ## The walk -/

theorem closed_hasType {node : Tree} (untyped : node.note.IsUntyped) (state : AnalysisState) :
    Reports (closed node) state fun annotated problems => NoError problems →
      ∀ known, Knows known state → annotated.HasType known := by
  unfold closed
  split
  · rename_i isIdentifier
    exact identifier_hasType isIdentifier untyped state
  · rename_i what isLiteral
    apply Reports.pure
    intro _ known _
    rcases node with ⟨kind, location, text, note, children⟩
    simp only at isLiteral
    subst isLiteral
    refine ⟨?_, rfl, .of_walked rfl rfl trivial (by simp)⟩
    have same := Note.type_add untyped (literalAttributes what)
    cases what with
    | int | char => exact ⟨.plain .int, same⟩
    | string => exact ⟨.plain .string, same⟩
    | null => exact ⟨.null, same⟩
  · rename_i type isAllocation only
    rcases node with ⟨kind, location, text, note, children⟩
    simp only at isAllocation only
    subst isAllocation only
    apply (newStruct_hasType untyped state type [type]).imp
    intro annotated _ typed accepted known _
    exact typed accepted known
  all_goals
    apply Reports.bind
    apply Reports.report
    apply Reports.pure
    intro accepted
    contradiction

theorem isCheckLaw_hasType : IsCheckLaw (fun _ => Numbering.IsPlain)
    (fun state _ annotated problems => NoError problems →
      ∀ known, Knows known state → annotated.HasType known)
    (fun state _ annotated problems => NoError problems →
      ∀ known, Knows known state → ∀ tree ∈ annotated, tree.HasType known)
    (fun _ _ declared problems => NoError problems →
      declared.IsProper ∧ declared.flags.null = false) where
  operand plain member _ := plain.child (Tree.mem_children_of_mem_operands member)
  nil _ := by simp
  cons {_ _ _ _ _ problems _} typed typedRest accepted known knows := by
    rw [noError_append] at accepted
    rw [List.forall_mem_cons]
    exact ⟨typed accepted.1 known knows,
      typedRest accepted.2 known (knows.reporting problems)⟩
  call {_ _ _ _ callee _ arguments problems} plain typed := by
    apply (call_hasType plain.isUntyped callee arguments _).imp
    intro annotated more typedCall accepted known knows
    rw [noError_append] at accepted
    exact typedCall accepted.2 known (knows.reporting problems) (typed accepted.1 known knows)
  select {_ _ _ _ _ field object problems} plain typed := by
    apply (select_hasType (plain.isUntyped.add _) object field _).imp
    intro annotated more typedSelect accepted known knows
    rw [noError_append] at accepted
    exact typedSelect accepted.2 known (knows.reporting problems) (typed accepted.1 known knows)
  index {_ _ _ _ _ _ array position problems _} plain typed typedPosition := by
    apply (index_hasType (plain.isUntyped.add _) _ array position).imp
    intro annotated last typedIndex accepted known knows
    simp only [noError_append] at accepted
    exact typedIndex accepted.2 known (typed accepted.1.1 known knows)
      (typedPosition accepted.1.2 known (knows.reporting problems))
  declared state type := declaredType_proper none type state
  newArray {_ _ _ _ type _ size declared problems _} plain proper typed := by
    apply (newArray_hasType plain.isUntyped _ type size declared).imp
    intro annotated last typedArray accepted known knows
    simp only [noError_append] at accepted
    exact typedArray (proper accepted.1.1) known
      (typed accepted.1.2 known (knows.reporting problems))
  newString {_ _ _ _ _ size _} plain typed := by
    apply (newString_hasType plain.isUntyped _ size).imp
    intro annotated more typedString accepted known knows
    rw [noError_append] at accepted
    exact typedString known (typed accepted.1 known knows)
  assign {_ _ _ _ _ _ target value problems _} plain typed typedValue := by
    apply (assign_hasType plain.isUntyped _ target value).imp
    intro annotated last typedAssign accepted known knows
    simp only [noError_append] at accepted
    exact typedAssign accepted.2 known (typed accepted.1.1 known knows)
      (typedValue accepted.1.2 known (knows.reporting problems))
  binary {_ operator _ _ _ _ _ left right problems _} plain typed typedRight := by
    apply (binary_hasType plain.isUntyped _ operator left right).imp
    intro annotated last typedBinary accepted known knows
    simp only [noError_append] at accepted
    exact typedBinary accepted.2 known (typed accepted.1.1 known knows)
      (typedRight accepted.1.2 known (knows.reporting problems))
  unary plain typed := by
    apply (requireInteger_reports _ _ _).imp
    intro _ more _ accepted known knows
    rw [noError_append] at accepted
    exact ⟨⟨.plain .int, Note.type_add plain.isUntyped _⟩, rfl,
      .of_walked rfl rfl trivial (typed accepted.1 known knows).suited⟩
  leaf plain _ := closed_hasType plain.isUntyped _

/-- An expression without errors has a type. -/
theorem check_hasType (tree : Tree) (plain : Numbering.IsPlain tree) (state : AnalysisState) :
    Reports (check tree) state fun annotated problems => NoError problems →
      ∀ known, Knows known state → annotated.HasType known :=
  isCheckLaw_hasType.expression plain

end

end Expression

end OcLang
