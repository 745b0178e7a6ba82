import OcLang.Proofs.Analysis.StatementChecks
import OcLang.Proofs.Typing.Expressions
import OcLang.Proofs.Typing.Laws
import OcLang.Tree.Build

namespace OcLang

open Check

/-! # Well-formed types

Flags are only ever added to notes, and the names of structs travel beside them.
Still no type ever has two bases, and a struct always has its name. -/

namespace ValueType

/-- At most one base, no array of nulls, and a name for structs and nothing else. -/
structure IsWellFormed (type : ValueType) : Prop where
  base : [type.flags.void, type.flags.int, type.flags.null, type.flags.string,
    type.flags.struct].count true ≤ 1
  array : ¬(type.flags.null = true ∧ type.flags.array = true)
  name : type.flags.struct = type.structName.isSome

namespace IsWellFormed

theorem empty : IsWellFormed {} := by
  constructor <;> decide

theorem null : IsWellFormed { flags := { null := true } } := by
  constructor <;> decide

theorem plain (base : BaseType) : (OcType.plain base).valueType.IsWellFormed := by
  cases base <;> constructor <;> simp [OcType.valueType, BaseType.flags, BaseType.structName?]

theorem literal (what : Literal) :
    IsWellFormed { flags := (Expression.literalAttributes what).type } := by
  cases what <;> constructor <;> decide

variable {type : ValueType}

theorem element (wellFormed : type.IsWellFormed) :
    ({ type with flags := { type.flags with array := false } } : ValueType).IsWellFormed where
  base := wellFormed.base
  array := by simp
  name := wellFormed.name

theorem toArray (wellFormed : type.IsWellFormed) (notNull : type.flags.null = false) :
    ({ type with flags := { type.flags with array := true } } : ValueType).IsWellFormed where
  base := wellFormed.base
  array := by simp [notNull]
  name := wellFormed.name

theorem marked (wellFormed : type.IsWellFormed) (notNull : type.flags.null = false)
    (array : Bool) : (type.marked array).IsWellFormed := by
  cases array with
  | false => exact wellFormed
  | true => exact wellFormed.toArray notNull

end IsWellFormed

end ValueType

namespace Describes

variable {declarator : Tree} {problems : List Problem} {type : ValueType}

theorem notNull (describes : Describes declarator problems type) : type.flags.null = false := by
  cases describes with
  | base base => cases base <;> cases declarator.hasArrayMark <;> rfl
  | refused => cases declarator.hasArrayMark <;> rfl

theorem wellFormed (describes : Describes declarator problems type) : type.IsWellFormed := by
  cases describes with
  | base base =>
      have notNull : base.flags.null = false := by cases base <;> rfl
      exact (ValueType.IsWellFormed.plain base).marked notNull _
  | refused => exact ValueType.IsWellFormed.empty.marked rfl _

end Describes

def wellFormedness : TypeLaw where
  holds _ type := type.IsWellFormed
  later _ wellFormed := wellFormed
  declared _ describes := describes.wellFormed
  struct _ name := ValueType.IsWellFormed.plain (.struct name)

theorem AnalysisState.Obeys.wellFormed {state : AnalysisState} (obeys : state.Obeys wellFormedness)
    (id : Nat) : (state.symbol id).type.IsWellFormed := by
  cases found : state.symbols[id]? with
  | none =>
      rw [AnalysisState.symbol, found]
      exact ValueType.IsWellFormed.empty
  | some symbol =>
      rw [symbol_of_getElem? found]
      exact obeys symbol (Array.mem_of_getElem? found)

/-! ## Trees -/

namespace Tree

/-- The children of a node, but for the declarator of a variable. The analysis
notes on that one what it knows about the initial value as well. -/
def described (tree : Tree) : List Tree :=
  match tree.kind with
  | .variable => tree.children.tail
  | _ => tree.children

def IsDescribed (tree : Tree) : Prop :=
  ∀ node ∈ tree.preorder, ∀ child ∈ node.described, child.note.type.IsWellFormed

theorem isDescribed_iff (tree : Tree) :
    tree.IsDescribed ↔ (∀ child ∈ tree.described, child.note.type.IsWellFormed) ∧
      ∀ child ∈ tree.children, child.IsDescribed := by
  rcases tree with ⟨kind, location, text, note, children⟩
  simp only [IsDescribed, preorder, preorderAll_eq_flatMap, List.forall_mem_cons,
    List.mem_flatMap]
  grind

theorem IsDescribed.with_note {tree : Tree} (below : tree.IsDescribed) (note : Note) :
    IsDescribed { tree with note } :=
  (isDescribed_iff _).mpr ((isDescribed_iff tree).mp below)

structure IsWellTyped (tree : Tree) : Prop where
  here : tree.note.type.IsWellFormed
  below : tree.IsDescribed

theorem mem_children_of_mem_described {tree child : Tree} (member : child ∈ tree.described) :
    child ∈ tree.children := by
  unfold described at member
  split at member
  · exact List.mem_of_mem_tail member
  · exact member

namespace IsWellTyped

variable {tree : Tree}

theorem of_children (here : tree.note.type.IsWellFormed)
    (children : ∀ child ∈ tree.children, child.IsWellTyped) : tree.IsWellTyped where
  here := here
  below := (isDescribed_iff tree).mpr
    ⟨fun child member => (children child (mem_children_of_mem_described member)).here,
      fun child member => (children child member).below⟩

theorem with_note (typed : tree.IsWellTyped) {note : Note} (here : note.type.IsWellFormed) :
    IsWellTyped { tree with note } where
  here := here
  below := typed.below.with_note note

theorem of_plain (plain : Numbering.IsPlain tree) : tree.IsWellTyped := by
  induction tree using Tree.induction with
  | node tree induction =>
      apply of_children
      · have untyped := plain.isUntyped
        rw [Note.type, untyped.type, untyped.structName]
        exact .empty
      · intro child member
        exact induction child member (plain.child member)

/-- A type is noted on a node that has none yet. -/
theorem addType (plain : Numbering.IsPlain tree) {type : ValueType}
    (wellFormed : type.IsWellFormed) (roles : Roles) (place : Option Location) (id : Option Nat) :
    IsWellTyped { tree with
      note := { tree.note.addType type roles with declaredAt := place, symbol := id } } := by
  apply (of_plain plain).with_note
  show (tree.note.addType type roles).type.IsWellFormed
  rw [Note.type_addType plain.isUntyped.type]
  exact wellFormed

end IsWellTyped

end Tree

/-! ## Expressions -/

namespace Expression

variable {state : AnalysisState}

theorem identifier_wellTyped (obeys : state.Obeys wellFormedness) {node : Tree}
    (plain : Numbering.IsPlain node) :
    Reports (identifier node) state fun annotated _ => annotated.IsWellTyped := by
  apply Reports.bind
  apply Reports.get
  split
  · exact .bind (.report (.pure (.of_plain plain)))
  · exact .bind (.symbol (.pure (.addType plain (obeys.wellFormed _) _ _ _)))

section

variable {kind : Kind} {location : Location} {text : String} {note : Note}
  (untyped : note.IsUntyped)

include untyped

/-- A node without a type of its own, made of checked parts. -/
theorem bare_wellTyped {children : List Tree} (typed : ∀ child ∈ children, child.IsWellTyped) :
    Tree.IsWellTyped ⟨kind, location, text, note, children⟩ := by
  apply Tree.IsWellTyped.of_children _ typed
  rw [Note.type, untyped.type, untyped.structName]
  exact .empty

theorem typed_wellTyped {type : ValueType} (wellFormed : type.IsWellFormed) (roles : Roles)
    {children : List Tree} (typed : ∀ child ∈ children, child.IsWellTyped) :
    Tree.IsWellTyped ⟨kind, location, text, note.addType type roles, children⟩ := by
  apply Tree.IsWellTyped.of_children _ typed
  rw [Note.type_addType untyped.type]
  exact wellFormed

/-- A node that gets flags which need no struct name. -/
theorem noted_wellTyped {attributes : Attributes}
    (wellFormed : ValueType.IsWellFormed { flags := attributes.type }) {children : List Tree}
    (typed : ∀ child ∈ children, child.IsWellTyped) :
    Tree.IsWellTyped ⟨kind, location, text, note.add attributes, children⟩ := by
  apply Tree.IsWellTyped.of_children _ typed
  rw [Note.type_add untyped]
  exact wellFormed

theorem call_wellTyped (obeys : state.Obeys wellFormedness) {callee : Tree}
    (plain : Numbering.IsPlain callee) {arguments : List Tree}
    (typed : ∀ argument ∈ arguments, argument.IsWellTyped) :
    Reports (call ⟨kind, location, text, note, []⟩ callee arguments) state
      fun annotated _ => annotated.IsWellTyped := by
  have unchanged : Tree.IsWellTyped ⟨kind, location, text, note, callee :: arguments⟩ :=
    bare_wellTyped untyped (List.forall_mem_cons.mpr ⟨.of_plain plain, typed⟩)
  apply Reports.bind
  apply Reports.get
  split
  · exact .bind (.report (.pure unchanged))
  · apply Reports.bind
    apply Reports.symbol
    split
    · exact .bind (.report (.pure unchanged))
    · apply Reports.bind
      apply (callArguments_reports _ _ _ _ _).imp
      intro _ problems _
      apply Reports.pure
      apply typed_wellTyped untyped (obeys.wellFormed _)
      rw [List.forall_mem_cons]
      exact ⟨.addType plain (obeys.wellFormed _) _ _ _, typed⟩

theorem select_wellTyped (obeys : state.Obeys wellFormedness) {object field : Tree}
    (typed : object.IsWellTyped) (plain : Numbering.IsPlain field) :
    Reports (select ⟨kind, location, text, note, []⟩ object field) state
      fun annotated _ => annotated.IsWellTyped := by
  have unchanged : Tree.IsWellTyped ⟨kind, location, text, note, [object, field]⟩ :=
    bare_wellTyped untyped (by simpa using ⟨typed, .of_plain plain⟩)
  unfold select
  dsimp only
  split
  · exact .pure unchanged
  · apply Reports.bind
    apply (selectedField_reports _ _ _ _).imp
    intro found problems _
    cases found with
    | none => exact .pure unchanged
    | some id =>
        apply Reports.bind
        apply Reports.symbol
        apply Reports.pure
        apply typed_wellTyped untyped (obeys.wellFormed _)
        simpa using ⟨typed, .addType plain (obeys.wellFormed _) _ _ _⟩

theorem index_wellTyped {array position : Tree} (typed : array.IsWellTyped)
    (typedPosition : position.IsWellTyped) (state : AnalysisState) :
    Reports (index ⟨kind, location, text, note, []⟩ array position) state
      fun annotated _ => annotated.IsWellTyped := by
  have parts : ∀ child ∈ [array, position], child.IsWellTyped := by
    simpa using ⟨typed, typedPosition⟩
  unfold index
  apply Reports.bind
  apply (requireInteger_reports _ _ _).imp
  intro _ problems _
  dsimp only
  split
  · exact .pure (bare_wellTyped untyped parts)
  · split
    · exact .pure (typed_wellTyped untyped typed.here.element _ parts)
    · split
      · exact .pure (noted_wellTyped untyped (.plain .int) parts)
      · exact .bind (.report (.pure (bare_wellTyped untyped parts)))

theorem newStruct_wellTyped {type : Tree} (plain : Numbering.IsPlain type)
    (children : List Tree) (state : AnalysisState) :
    Reports (newStruct ⟨kind, location, text, note, children⟩ type) state
      fun annotated _ => annotated.IsWellTyped := by
  apply Reports.bind
  apply (declaredType_describes none type state).imp
  intro declared problems describes
  apply Reports.pure
  apply typed_wellTyped untyped describes.wellFormed
  rw [List.forall_mem_singleton]
  exact .addType plain describes.wellFormed _ _ _

theorem newArray_wellTyped {declared : ValueType} (wellFormed : declared.IsWellFormed)
    (notNull : declared.flags.null = false) {type size : Tree} (plain : Numbering.IsPlain type)
    (typed : size.IsWellTyped) (state : AnalysisState) :
    Reports (newArray ⟨kind, location, text, note, []⟩ declared type size) state
      fun annotated _ => annotated.IsWellTyped := by
  apply Reports.bind
  apply (requireInteger_reports _ _ _).imp
  intro _ problems _
  apply Reports.pure
  apply typed_wellTyped untyped (wellFormed.toArray notNull)
  simpa using ⟨.addType plain wellFormed _ _ _, typed⟩

theorem newString_wellTyped {size : Tree} (typed : size.IsWellTyped) (state : AnalysisState) :
    Reports (newString ⟨kind, location, text, note, []⟩ size) state
      fun annotated _ => annotated.IsWellTyped := by
  apply Reports.bind
  apply (requireInteger_reports _ _ _).imp
  intro _ problems _
  apply Reports.pure
  exact noted_wellTyped untyped (.plain .string) (by simpa using typed)

theorem assign_wellTyped {target value : Tree} (typed : target.IsWellTyped)
    (typedValue : value.IsWellTyped) (state : AnalysisState) :
    Reports (assign ⟨kind, location, text, note, []⟩ target value) state
      fun annotated _ => annotated.IsWellTyped := by
  have rest (state : AnalysisState) : Reports (do
        requireCompatible "assignment" target.note.type value
        return {
          (⟨kind, location, text, note, []⟩ : Tree) with
          note := note.addType target.note.type target.note.attributes.roles
          children := [target, value] }) state fun annotated _ => annotated.IsWellTyped := by
    apply Reports.bind
    apply (requireCompatible_reports _ _ _ _).imp
    intro _ problems _
    apply Reports.pure
    exact typed_wellTyped untyped typed.here _ (by simpa using ⟨typed, typedValue⟩)
  unfold assign
  dsimp only
  split
  · exact .bind (.report (rest _))
  · exact rest state

theorem binary_wellTyped (operator : BinaryOperator) {left right : Tree}
    (typed : left.IsWellTyped) (typedRight : right.IsWellTyped) (state : AnalysisState) :
    Reports (binary operator ⟨kind, location, text, note.add operatorAttributes, []⟩ left right)
      state fun annotated _ => annotated.IsWellTyped := by
  have parts : ∀ child ∈ [left, right], child.IsWellTyped := by
    simpa using ⟨typed, typedRight⟩
  have whole : Tree.IsWellTyped
      ⟨kind, location, text, note.add operatorAttributes, [left, right]⟩ :=
    noted_wellTyped untyped (.plain .int) parts
  unfold binary
  dsimp only
  split
  · exact .bind ((requireCompatible_reports _ _ _ _).imp fun _ _ _ => .pure whole)
  · exact .bind ((requireInteger_reports _ _ _).imp fun _ _ _ =>
      .bind ((requireInteger_reports _ _ _).imp fun _ _ _ => .pure whole))

end

theorem closed_wellTyped (obeys : state.Obeys wellFormedness) {node : Tree}
    (plain : Numbering.IsPlain node) :
    Reports (closed node) state fun annotated _ => annotated.IsWellTyped := by
  have noted {attributes : Attributes}
      (wellFormed : ValueType.IsWellFormed { flags := attributes.type }) :
      (node.mapNote (·.add attributes)).IsWellTyped := by
    apply (Tree.IsWellTyped.of_plain plain).with_note
    rw [Note.type_add plain.isUntyped]
    exact wellFormed
  unfold closed
  split
  · exact identifier_wellTyped obeys plain
  · exact .pure (noted (.literal _))
  · rename_i type _ children
    rcases node with ⟨kind, location, text, note, parts⟩
    simp only at children
    subst children
    exact newStruct_wellTyped plain.isUntyped (plain.child List.mem_cons_self) _ state
  · exact .bind (.report (.pure (noted .empty)))
  · exact .bind (.report (.pure (noted .empty)))
  · exact .bind (.report (.pure (noted (.plain .int))))
  · exact .bind (.report (.pure (noted (.plain .int))))
  · exact .bind (.report (.pure (.of_plain plain)))

theorem isCheckLaw_wellTyped :
    IsCheckLaw (fun state tree => Numbering.IsPlain tree ∧ state.Obeys wellFormedness)
    (fun _ _ annotated _ => annotated.IsWellTyped)
    (fun _ _ annotated _ => ∀ tree ∈ annotated, tree.IsWellTyped)
    (fun _ type declared problems => Describes type problems declared) where
  operand {state _ _} here member problems :=
    ⟨here.1.child (Tree.mem_children_of_mem_operands member),
      (Obeying.reporting state problems).obeys here.2⟩
  nil _ := by simp
  cons typed typedRest := List.forall_mem_cons.mpr ⟨typed, typedRest⟩
  call {state _ _ _ _ _ _ problems} here typed := call_wellTyped here.1.isUntyped
    ((Obeying.reporting state problems).obeys here.2) (here.1.child (by simp)) typed
  select {state _ _ _ _ _ _ problems} here typed := select_wellTyped (here.1.isUntyped.add _)
    ((Obeying.reporting state problems).obeys here.2) typed (here.1.child (by simp))
  index here typed typedPosition :=
    index_wellTyped (here.1.isUntyped.add _) typed typedPosition _
  declared state type := declaredType_describes none type state
  newArray here describes typed := newArray_wellTyped here.1.isUntyped describes.wellFormed
    describes.notNull (here.1.child (by simp)) typed _
  newString here typed := newString_wellTyped here.1.isUntyped typed _
  assign here typed typedValue := assign_wellTyped here.1.isUntyped typed typedValue _
  binary {_ operator _ _ _ _ _ _ _ _ _} here typed typedRight :=
    binary_wellTyped here.1.isUntyped operator typed typedRight _
  unary here typed := by
    apply (requireInteger_reports _ _ _).imp
    intro _ more _
    apply noted_wellTyped here.1.isUntyped (.plain .int)
    rw [List.forall_mem_cons]
    exact ⟨typed, fun child member => .of_plain (here.1.child (List.mem_cons_of_mem _ member))⟩
  leaf here _ := closed_wellTyped here.2 here.1

theorem check_wellTyped (tree : Tree) (plain : Numbering.IsPlain tree)
    (obeys : state.Obeys wellFormedness) :
    Reports (check tree) state fun annotated _ => annotated.IsWellTyped :=
  isCheckLaw_wellTyped.expression ⟨plain, obeys⟩

end Expression

/-! ## Declarations -/

namespace Declaration

variable {state : AnalysisState}

theorem annotateName_wellTyped {declarator : Tree} (plain : Numbering.IsPlain declarator)
    {type : ValueType} (wellFormed : type.IsWellFormed) (roles : Roles) (id : Nat) :
    (annotateName type roles id declarator).IsWellTyped := by
  apply Tree.IsWellTyped.of_children
  · exact (Tree.IsWellTyped.of_plain plain).here
  · intro child member
    rcases Tree.mem_children_mapDeclaredName member with there | ⟨name, declared, rfl⟩
    · exact .of_plain (plain.child there)
    · have member := List.mem_of_getLast? (Option.filter_eq_some_iff.mp declared).1
      exact .addType (plain.child member) wellFormed _ _ _

theorem declarator_wellTyped {declarator : Tree} (plain : Numbering.IsPlain declarator)
    {type : ValueType} (wellFormed : type.IsWellFormed) (roles : Roles) (id : Nat) :
    ((annotateName type roles id declarator).mapNote (·.addType type)).IsWellTyped := by
  apply (annotateName_wellTyped plain wellFormed roles id).with_note
  show (declarator.note.addType type).type.IsWellFormed
  rw [Note.type_addType plain.isUntyped.type]
  exact wellFormed

theorem checkField_wellTyped (structName : String) (table : Table) {declarator : Tree}
    (plain : Numbering.IsPlain declarator) (state : AnalysisState) :
    Ends (checkField structName table declarator) state
      fun result _ => result.2.IsWellTyped := by
  apply Ends.bind
  apply (declaredType_describes _ _ _).ends
  intro type problems describes
  split
  · exact .bind (.modify (.pure (.of_plain plain)))
  · apply Ends.bind
    apply Ends.modifyGet
    have typed := declarator_wellTyped plain describes.wellFormed { isField := true }
    dsimp only
    split
    · exact .bind (.bind (.get (.pure (.bind (.modify (.pure (typed _)))))))
    · exact .bind (.pure (.pure (typed _)))

theorem checkFields_wellTyped (structName : String) (table : Table) {declarators : List Tree}
    (plain : ∀ declarator ∈ declarators, Numbering.IsPlain declarator) (state : AnalysisState) :
    Ends (checkFields structName table declarators) state
      fun result _ => ∀ declarator ∈ result.2, declarator.IsWellTyped := by
  induction declarators generalizing table state with
  | nil => exact .pure (by simp)
  | cons declarator rest induction =>
      rw [List.forall_mem_cons] at plain
      apply Ends.bind
      apply (checkField_wellTyped structName table plain.1 state).imp
      intro first middle typed
      apply Ends.bind
      apply (induction _ plain.2 middle).imp
      intro others after typedRest
      exact .pure (List.forall_mem_cons.mpr ⟨typed, typedRest⟩)

theorem checkStruct_wellTyped {node : Tree} (plain : Numbering.IsPlain node)
    (state : AnalysisState) :
    Ends (checkStruct node) state fun annotated _ => annotated.IsWellTyped := by
  rcases node with ⟨kind, location, text, note, children⟩
  unfold checkStruct
  cases children with
  | nil => exact .bind (.modify (.pure (.of_plain plain)))
  | cons name declarators =>
      dsimp only
      split
      · exact .bind (.modify (.pure (.of_plain plain)))
      · apply Ends.bind
        apply (checkFields_wellTyped _ _ (fun declarator member =>
          plain.child (List.mem_cons_of_mem _ member)) state).imp
        intro fields middle typed
        apply Ends.bind
        apply Ends.modifyGet
        apply Ends.bind
        apply Ends.run
        apply Ends.pure
        have wellFormed := ValueType.IsWellFormed.plain (.struct name.text)
        apply Expression.typed_wellTyped plain.isUntyped wellFormed
        rw [List.forall_mem_cons]
        exact ⟨.addType (plain.child (by simp)) wellFormed _ _ _, typed⟩

theorem checkVariable_wellTyped {node : Tree} (isVariable : node.kind = .variable)
    (plain : Numbering.IsPlain node) (obeys : state.Obeys wellFormedness) :
    Ends (checkVariable node) state fun annotated _ => annotated.IsWellTyped := by
  rcases node with ⟨kind, location, text, note, children⟩
  simp only at isVariable
  subst isVariable
  unfold checkVariable
  cases children with
  | nil => exact .bind (.modify (.pure (.of_plain plain)))
  | cons declarator values =>
      have plainDeclarator : Numbering.IsPlain declarator := plain.child (by simp)
      apply Ends.bind
      apply (declaredType_describes _ _ _).ends
      intro type problems describes
      split
      · exact .bind (.modify (.pure (.of_plain plain)))
      · rename_i name declared
        -- Whatever is noted on the declarator itself.
        have variableTyped (replaces : Option Nat) (id : Nat) (declaratorNote : Note)
            {values : List Tree} (typed : ∀ value ∈ values, value.IsWellTyped) :
            Tree.IsWellTyped ⟨.variable, location, text, note.addType type,
              { annotateName type (SymbolRole.variable replaces).roles id declarator with
                note := declaratorNote } :: values⟩ := by
          refine ⟨?_, (Tree.isDescribed_iff _).mpr
            ⟨fun child member => (typed child member).here, ?_⟩⟩
          · rw [Note.type_addType plain.isUntyped.type]
            exact describes.wellFormed
          · rw [List.forall_mem_cons]
            have named := annotateName_wellTyped plainDeclarator describes.wellFormed
              (SymbolRole.variable replaces).roles id
            exact ⟨named.below.with_note _, fun child member => (typed child member).below⟩
        apply Ends.bind
        apply Ends.bind
        apply Ends.get
        apply Ends.pure
        apply Ends.bind
        apply Ends.get
        apply Ends.bind
        apply Ends.modifyGet
        cases values with
        | nil => exact variableTyped _ _ _ (by simp)
        | cons value rest =>
            have holds : wellFormedness.holds (state.reporting problems) type :=
              describes.wellFormed
            apply Ends.bind
            apply (Expression.check_wellTyped value (plain.child (by simp))
              (((Obeying.reporting state problems).trans (.allocated _ holds)).obeys obeys)).ends
            intro value more typed
            apply Ends.bind
            apply Ends.run
            apply Ends.bind
            apply Ends.pure
            apply variableTyped
            rw [List.forall_mem_cons]
            exact ⟨typed, fun child member => .of_plain (plain.child (by simp [member]))⟩

theorem checkParameter_wellTyped {declarator : Tree} (plain : Numbering.IsPlain declarator)
    (state : AnalysisState) :
    Ends (checkParameter declarator) state fun annotated _ => annotated.IsWellTyped := by
  apply Ends.bind
  apply (declaredType_describes _ _ _).ends
  intro type problems describes
  split
  · exact .bind (.modify (.pure (.of_plain plain)))
  · exact declarator_wellTyped plain describes.wellFormed _ _

theorem checkParameters_wellTyped {declarators : List Tree}
    (plain : ∀ declarator ∈ declarators, Numbering.IsPlain declarator) (state : AnalysisState) :
    Ends (checkParameters declarators) state
      fun annotated _ => ∀ declarator ∈ annotated, declarator.IsWellTyped := by
  induction declarators generalizing state with
  | nil => exact .pure (by simp)
  | cons declarator rest induction =>
      rw [List.forall_mem_cons] at plain
      apply Ends.bind
      apply (checkParameter_wellTyped plain.1 state).imp
      intro first middle typed
      apply Ends.bind
      apply (induction plain.2 middle).imp
      intro others after typedRest
      exact .pure (List.forall_mem_cons.mpr ⟨typed, typedRest⟩)

structure Heading.IsWellTyped (heading : Heading) : Prop where
  type : heading.type.IsWellFormed
  declarator : heading.declarator.IsWellTyped
  parameters : heading.parameters.IsWellTyped

theorem openFunction_wellTyped (node : Tree) {declarator parameters : Tree}
    (plain : Numbering.IsPlain declarator) (plainParameters : Numbering.IsPlain parameters)
    (state : AnalysisState) :
    Ends (openFunction node declarator parameters) state
      fun heading _ => ∀ opened ∈ heading, opened.IsWellTyped := by
  apply Ends.bind
  apply (declaredType_describes _ _ _).ends
  intro type problems describes
  split
  · exact .bind (.modify (.pure (by simp)))
  · apply Ends.bind
    apply Ends.get
    apply Ends.bind
    apply Ends.modifyGet
    apply Ends.bind
    apply Ends.run
    apply Ends.bind
    apply Ends.run
    apply Ends.bind
    apply Ends.modify
    apply Ends.bind
    apply (checkParameters_wellTyped (fun declarator member => plainParameters.child member) _).imp
    intro children after typed
    apply Ends.bind
    apply Ends.modify
    apply Ends.pure
    rintro _ ⟨⟩
    exact {
      type := describes.wellFormed
      declarator := declarator_wellTyped plain describes.wellFormed _ _
      parameters := .of_children (Tree.IsWellTyped.of_plain plainParameters).here typed }

end Declaration

/-! ## Statements -/

namespace Statement

variable {result : Option ValueType} {state : AnalysisState}

theorem simple_wellTyped {node : Tree} (plain : Numbering.IsPlain node)
    (obeys : state.Obeys wellFormedness) :
    Ends (Statement.simple result node) state fun annotated _ => annotated.IsWellTyped := by
  unfold Statement.simple
  split
  case h_1 => exact Declaration.checkStruct_wellTyped plain state
  case h_2 isVariable => exact Declaration.checkVariable_wellTyped isVariable plain obeys
  case h_3 =>
    dsimp only
    split
    · exact .bind (.modify (.pure (.of_plain plain)))
    · exact .pure (.of_plain plain)
  case h_4 value rest _ children =>
    rcases node with ⟨kind, location, text, note, parts⟩
    simp only at children
    subst children
    apply Ends.bind
    apply (Expression.check_wellTyped value (plain.child (by simp)) obeys).ends
    intro value problems typed
    apply Ends.bind
    apply Ends.run
    apply Ends.pure
    apply Expression.typed_wellTyped plain.isUntyped typed.here
    rw [List.forall_mem_cons]
    exact ⟨typed, fun child member => .of_plain (plain.child (by simp [member]))⟩
  case h_16 => exact (Expression.check_wellTyped node plain obeys).ends fun _ _ typed => typed
  all_goals first
    | exact .bind (.modify (.pure (.of_plain plain)))
    | exact .pure (.of_plain plain)

theorem condition_wellTyped {test : Tree} (plain : Numbering.IsPlain test)
    (obeys : state.Obeys wellFormedness) :
    Ends (condition test) state fun annotated _ => annotated.IsWellTyped := by
  apply Ends.bind
  apply (Expression.check_wellTyped test plain obeys).ends
  intro test problems typed
  exact .bind (.run (.pure typed))

theorem closeFunction_wellTyped {node : Tree} (untyped : node.note.IsUntyped)
    {heading : Declaration.Heading} (opened : heading.IsWellTyped) {rest : List Tree}
    (typed : ∀ tree ∈ rest, tree.IsWellTyped) :
    (Declaration.closeFunction node heading rest).IsWellTyped := by
  apply Expression.typed_wellTyped untyped opened.type
  rw [List.forall_mem_cons, List.forall_mem_cons]
  exact ⟨opened.declarator, opened.parameters, typed⟩

theorem isCheckLaw_wellTyped : IsCheckLaw Numbering.IsPlain
    (fun _ state _ annotated _ => state.Obeys wellFormedness → annotated.IsWellTyped)
    (fun _ state _ annotated _ =>
      state.Obeys wellFormedness → ∀ tree ∈ annotated, tree.IsWellTyped)
    (fun state _ _ _ opened inside =>
      (∀ heading ∈ opened, heading.IsWellTyped) ∧ Obeying wellFormedness state inside)
    (fun state _ annotated after => (state.Obeys wellFormedness → annotated.IsWellTyped) ∧
      Obeying wellFormedness state after)
    (fun _ state after => Obeying wellFormedness state after) where
  child plain member := plain.child member
  checked := wellFormedness.isStepLaw.check
  checkedAll := wellFormedness.isStepLaw.checkAll
  nil _ _ := by simp
  cons typed before typedRest _ obeys :=
    List.forall_mem_cons.mpr ⟨typed obeys, typedRest (before.obeys obeys)⟩
  root plain typed obeys := Expression.bare_wellTyped plain.isUntyped (typed obeys)
  block {_ state _ _ _ _ _ _} plain typed := .run fun obeys =>
    Expression.bare_wellTyped plain.isUntyped (typed ((wellFormedness.enter_kept state).obeys obeys))
  opened _ plain := (Declaration.openFunction_wellTyped _ (plain.child (by simp))
    (plain.child (by simp)) _).and (wellFormedness.openFunction_kept _ _ _ _)
  nameless _ plain _ _ := .of_plain plain
  bodiless plain opening := .run fun _ =>
    closeFunction_wellTyped plain.isUntyped (opening.1 _ rfl) (by simp)
  function plain body opening typed _ := by
    apply Ends.run
    intro obeys
    apply closeFunction_wellTyped plain.isUntyped (opening.1 _ rfl)
    rw [List.forall_mem_cons]
    exact ⟨.of_children (Tree.IsWellTyped.of_plain body).here
        (typed (opening.2.obeys obeys)),
      fun tree member => .of_plain (plain.child (by simp [member]))⟩
  prototype plain opening := .run fun _ => closeFunction_wellTyped plain.isUntyped
    (opening.1 _ rfl) fun tree member => .of_plain (plain.child (by simp [member]))
  condition plain := .and (fun obeys => condition_wellTyped plain obeys)
    (wellFormedness.condition_kept _ _)
  control _ plain tested typed _ obeys := Expression.bare_wellTyped plain.isUntyped
    (List.forall_mem_cons.mpr ⟨tested.1 obeys, typed (tested.2.obeys obeys)⟩)
  simple plain _ obeys := simple_wellTyped plain obeys

/-- Checking a statement notes well-formed types on it. -/
theorem check_wellTyped (tree : Tree) (plain : Numbering.IsPlain tree)
    (obeys : state.Obeys wellFormedness) :
    Ends (check result tree) state fun annotated _ => annotated.IsWellTyped :=
  isCheckLaw_wellTyped.statement plain result state obeys

end Statement

/-- Whatever a tree looks like and whatever is wrong with it, the types of all
symbols and of all nodes but the declarators of variables are well formed. -/
theorem analyze_wellFormed (tree : Tree) (fresh : tree.IsFresh) :
    (∀ symbol ∈ (analyze tree).2.symbols, symbol.type.IsWellFormed) ∧
      (analyze tree).1.note.type.IsWellFormed ∧
      ∀ node ∈ (analyze tree).1.preorder, ∀ child ∈ node.described,
        child.note.type.IsWellFormed := by
  have start : AnalysisState.Obeys {} wellFormedness := by simp [AnalysisState.Obeys]
  have ends : Ends (Statement.check none (Numbering.number tree)) {}
      fun annotated _ => annotated.IsWellTyped :=
    Statement.check_wellTyped _ (Numbering.isPlain_number fresh) start
  have typed : (analyze tree).1.IsWellTyped := ends
  exact ⟨(wellFormedness.isStepLaw.check (Numbering.number tree) none {}).obeys start,
    typed.here, typed.below⟩

/-- An array that begins as null, and a field of something unknown. -/
def nullArray : Tree :=
  let b : TreeBuilder := {}
  b.root "nullArray" [
    b.struct ⟨1, 1⟩ ⟨1, 8⟩ "node" [b.declarator .field false "node" ⟨1, 15⟩ ⟨1, 20⟩ "next"],
    b.declaration ⟨2, 1⟩ (b.declarator .declaredName true "node" ⟨2, 1⟩ ⟨2, 8⟩ "list")
      (some (b.null ⟨2, 15⟩)),
    b.select ⟨3, 8⟩ (b.index ⟨3, 5⟩ (b.identifier ⟨3, 1⟩ "list") (b.int ⟨3, 6⟩ 0)) ⟨3, 9⟩ "next",
    b.select ⟨4, 6⟩ (b.identifier ⟨4, 1⟩ "other") ⟨4, 7⟩ "next"]

theorem nullArray_wellFormed : nullArray.IsFresh ∧
    (∀ symbol ∈ (analyze nullArray).2.symbols, symbol.type.IsWellFormed) ∧
      (analyze nullArray).1.note.type.IsWellFormed ∧
      ∀ node ∈ (analyze nullArray).1.preorder, ∀ child ∈ node.described,
        child.note.type.IsWellFormed :=
  ⟨rfl, analyze_wellFormed nullArray rfl⟩

/-- The declarator of the array is noted to be null as well. -/
example : (((analyze nullArray).1.children[1]?.bind (·.children.head?)).map
    (·.note.attributes.type)) = some { null := true, struct := true, array := true } := by
  decide +kernel

end OcLang
