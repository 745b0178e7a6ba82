import OcLang.Proofs.Analysis.Mirrors
import OcLang.Proofs.Scoping.Expressions

namespace OcLang

open Check

/-! # Lookups in expressions

Names are found in tables, and parameters and fields through the symbols of
functions and structs. All of these hold numbers that have been given out, and a
node is given only such a number. -/

/-! ## Numbers on nodes -/

namespace Tree

def Within (limit : Nat) (tree : Tree) : Prop :=
  ∀ node ∈ tree.preorder, ∀ id ∈ node.note.symbol, id < limit

theorem within_iff (limit : Nat) (tree : Tree) :
    tree.Within limit ↔
      (∀ id ∈ tree.note.symbol, id < limit) ∧ ∀ child ∈ tree.children, child.Within limit := by
  rcases tree with ⟨kind, location, text, note, children⟩
  simp only [Within, preorder, preorderAll_eq_flatMap, List.forall_mem_cons, List.mem_flatMap]
  grind

theorem Within.of_none {limit : Nat} {tree : Tree} (number : tree.note.symbol = none)
    (children : ∀ child ∈ tree.children, child.Within limit) : tree.Within limit :=
  (within_iff limit tree).mpr ⟨by simp [number], children⟩

theorem Within.mono {limit more : Nat} {tree : Tree} (within : tree.Within limit)
    (larger : limit ≤ more) : tree.Within more :=
  fun node member id noted => Nat.lt_of_lt_of_le (within node member id noted) larger

theorem Within.with_note {limit : Nat} {tree : Tree} (within : tree.Within limit) {note : Note}
    (number : ∀ id ∈ note.symbol, id < limit) : Within limit { tree with note } :=
  (within_iff limit _).mpr ⟨number, ((within_iff limit tree).mp within).2⟩

theorem Within.mapNote {limit : Nat} {tree : Tree} (within : tree.Within limit)
    {change : Note → Note} (number : ∀ id ∈ (change tree.note).symbol, id < limit) :
    (tree.mapNote change).Within limit :=
  within.with_note number

/-- A note may change as long as it keeps the number. -/
theorem Within.mapNote_keeping {limit : Nat} {tree : Tree} (within : tree.Within limit)
    {change : Note → Note} (keeps : (change tree.note).symbol = tree.note.symbol) :
    (tree.mapNote change).Within limit := by
  apply within.mapNote
  rw [keeps]
  exact ((within_iff limit tree).mp within).1

end Tree

theorem Numbering.IsPlain.within {tree : Tree} (plain : Numbering.IsPlain tree) (limit : Nat) :
    tree.Within limit := by
  induction tree using Tree.induction with
  | node tree induction =>
      rw [Tree.within_iff, plain.untouched.1]
      exact ⟨by simp, fun child member => induction child member (plain.child member)⟩

structure Checked (fresh : Prop) (before : AnalysisState) (annotated : Tree)
    (after : AnalysisState) : Prop extends Proceeds 0 before after where
  within : fresh → annotated.Within after.symbols.size

structure CheckedAll (fresh : Prop) (before : AnalysisState) (annotated : List Tree)
    (after : AnalysisState) : Prop extends Proceeds 0 before after where
  within : fresh → ∀ tree ∈ annotated, tree.Within after.symbols.size

section

variable {fresh : Prop} {before state after : AnalysisState}

theorem Checked.earlier {annotated : Tree} (checked : Checked fresh before annotated state)
    (proceeds : Proceeds 0 state after) : fresh → annotated.Within after.symbols.size :=
  fun given => (checked.within given).mono proceeds.grows.size_le

theorem Checked.of_reports (proceeds : Proceeds 0 before state) {step : Check Tree}
    {reported : Tree → List Problem → Prop} (reports : Reports step state reported)
    (within : fresh → ∀ annotated problems, reported annotated problems →
      annotated.Within state.symbols.size) :
    Mirrors (liftM step) step state (Checked fresh before) :=
  .quiet proceeds.sound reports fun annotated problems here =>
    { toProceeds := proceeds.trans (.reporting proceeds.sound problems)
      within := fun given => within given annotated problems here }

end

/-! ## The rules -/

namespace Expression

variable {fresh : Prop} {before state : AnalysisState}

theorem identifier_mirrors (proceeds : Proceeds 0 before state) {node : Tree}
    (plain : fresh → Numbering.IsPlain node) :
    Mirrors (Strict.identifier node) (identifier node) state (Checked fresh before) := by
  apply Mirrors.bind
  apply Mirrors.get
  cases found : state.scopes.find? node.text with
  | none =>
      rw [Scopes.lookup_of_missing found]
      apply Mirrors.bind
      apply Mirrors.report proceeds.sound
      intro reported
      exact .pure ⟨proceeds.trans reported, fun given => (plain given).within _⟩
  | some id =>
      rcases proceeds.sound.find?_stored found with ⟨symbol, stored⟩
      rw [Scopes.lookup_of_found found]
      apply Mirrors.bind
      apply Mirrors.symbol stored
      refine .pure ⟨proceeds, fun given => ((plain given).within _).mapNote ?_⟩
      rintro _ ⟨⟩
      exact (Array.getElem?_eq_some_iff.mp stored).1

theorem callArguments_mirrors (proceeds : Proceeds 0 before state) (name : String)
    (place : Location) {parameters : List Nat}
    (stored : ∀ id ∈ parameters, id < state.symbols.size) (arguments : List Tree) :
    Mirrors (Strict.callArguments name place parameters arguments)
      (callArguments name place parameters arguments) state fun _ after =>
        Proceeds 0 before after ∧ after.symbols = state.symbols := by
  unfold Strict.callArguments callArguments
  split
  · exact .report proceeds.sound fun reported => ⟨proceeds.trans reported, rfl⟩
  · have all : ∀ pair ∈ arguments.zip parameters, pair.2 < state.symbols.size :=
      fun pair member => stored _ (List.of_mem_zip member).2
    clear stored
    generalize arguments.zip parameters = pairs at all
    induction pairs generalizing state with
    | nil => exact .pure ⟨proceeds, rfl⟩
    | cons pair rest induction =>
        rw [List.forall_mem_cons] at all
        apply Mirrors.bind
        apply Mirrors.bind
        apply Mirrors.symbol (Array.getElem?_eq_getElem all.1)
        apply Mirrors.quiet proceeds.sound (requireCompatible_reports _ _ _ _)
        intro _ problems _
        exact induction (proceeds.trans (.reporting proceeds.sound problems)) all.2

theorem call_mirrors (proceeds : Proceeds 0 before state) {node callee : Tree}
    {arguments : List Tree} (number : fresh → node.note.symbol = none)
    (plain : fresh → Numbering.IsPlain callee)
    (within : fresh → ∀ argument ∈ arguments, argument.Within state.symbols.size) :
    Mirrors (Strict.call node callee arguments) (call node callee arguments) state
      (Checked fresh before) := by
  have parts (given : fresh) {note : Note} {first : Tree} (none : note.symbol = none)
      (whole : first.Within state.symbols.size) :
      Tree.Within state.symbols.size { node with note, children := first :: arguments } := by
    rw [Tree.within_iff, List.forall_mem_cons]
    exact ⟨by simp [none], whole, within given⟩
  have unchanged (given : fresh) :
      Tree.Within state.symbols.size { node with children := callee :: arguments } :=
    parts given (number given) ((plain given).within _)
  apply Mirrors.bind
  apply Mirrors.get
  cases found : state.scopes.globals.find? callee.text with
  | none =>
      rw [Scopes.lookupGlobal_of_missing found]
      apply Mirrors.bind
      apply Mirrors.report proceeds.sound
      intro reported
      exact .pure ⟨proceeds.trans reported, unchanged⟩
  | some id =>
      rcases proceeds.sound.globals_stored found with ⟨function, stored⟩
      rw [Scopes.lookupGlobal_of_found found]
      apply Mirrors.bind
      apply Mirrors.symbol stored
      split
      · apply Mirrors.bind
        apply Mirrors.report proceeds.sound
        intro reported
        exact .pure ⟨proceeds.trans reported, unchanged⟩
      · have parameters : ∀ parameter ∈ function.parameters, parameter < state.symbols.size := by
          intro parameter member
          apply proceeds.sound.links function (Array.mem_of_getElem? stored)
          exact function.mem_links_of_parameter member
        apply Mirrors.bind
        apply (callArguments_mirrors proceeds _ _ parameters _).imp
        intro _ after compared
        refine .pure ⟨compared.1, ?_⟩
        rw [compared.2]
        intro given
        have none : (node.note.addType function.type { inRegister := true }).symbol = none :=
          number given
        apply parts given none
        apply ((plain given).within _).mapNote
        rintro _ ⟨⟩
        exact (Array.getElem?_eq_some_iff.mp stored).1

theorem selectedField_mirrors (proceeds : Proceeds 0 before state) (node object field : Tree) :
    Mirrors (Strict.selectedField node object field) (selectedField node object field) state
      fun found after => Proceeds 0 before after ∧ after.symbols = state.symbols ∧
        ∀ id ∈ found, ∃ symbol, state.symbols[id]? = some symbol := by
  have nothing (problem : Problem) : Mirrors (do report problem; return none)
      (do report problem; return none) state fun (found : Option Nat) after =>
        Proceeds 0 before after ∧ after.symbols = state.symbols ∧
          ∀ id ∈ found, ∃ symbol, state.symbols[id]? = some symbol := by
    apply Mirrors.bind
    apply Mirrors.report proceeds.sound
    intro reported
    exact .pure ⟨proceeds.trans reported, rfl, by simp⟩
  unfold Strict.selectedField selectedField
  dsimp only
  cases object.note.type.structName with
  | none => exact nothing _
  | some structName =>
      cases object.note.type.flags.isPlainStruct with
      | false => exact nothing _
      | true =>
          apply Mirrors.bind
          apply Mirrors.get
          cases known : state.structs.find? structName with
          | none => exact nothing _
          | some id =>
              rcases proceeds.sound.structs_stored known with ⟨symbol, stored⟩
              apply Mirrors.bind
              apply Mirrors.symbol stored
              cases selected : symbol.fields?.bind (·.find? field.text) with
              | none => exact nothing _
              | some fieldId =>
                  refine .pure ⟨proceeds, rfl, ?_⟩
                  rintro _ ⟨⟩
                  exact proceeds.sound.link_stored stored (symbol.mem_links_of_field selected)

theorem select_mirrors (proceeds : Proceeds 0 before state) {node object field : Tree}
    (number : fresh → node.note.symbol = none) (plain : fresh → Numbering.IsPlain field)
    (within : fresh → object.Within state.symbols.size) :
    Mirrors (Strict.select node object field) (select node object field) state
      (Checked fresh before) := by
  have parts (given : fresh) {note : Note} {selected : Tree} (none : note.symbol = none)
      (whole : selected.Within state.symbols.size) :
      Tree.Within state.symbols.size { node with note, children := [object, selected] } := by
    rw [Tree.within_iff]
    exact ⟨by simp [none], by simp [within given, whole]⟩
  have unchanged (given : fresh) :
      Tree.Within state.symbols.size { node with children := [object, field] } :=
    parts given (number given) ((plain given).within _)
  unfold Strict.select select
  dsimp only
  split
  · exact .pure ⟨proceeds, unchanged⟩
  · apply Mirrors.bind
    apply (selectedField_mirrors proceeds _ _ _).imp
    rintro (_ | id) after ⟨selecting, same, known⟩
    · rw [← same] at unchanged
      exact .pure ⟨selecting, unchanged⟩
    · rcases known id rfl with ⟨symbol, stored⟩
      have there : after.symbols[id]? = some symbol := by rwa [same]
      apply Mirrors.bind
      apply Mirrors.symbol there
      refine .pure ⟨selecting, ?_⟩
      rw [same]
      intro given
      have none : (node.note.addType symbol.type).symbol = none := number given
      apply parts given none
      apply ((plain given).within _).mapNote
      rintro _ ⟨⟩
      exact (Array.getElem?_eq_some_iff.mp stored).1

/-! ## The walk -/

/-- Of the nodes that are left alone, only names are given numbers. -/
theorem closed_within {node : Tree} (other : node.kind ≠ .identifier) (limit : Nat)
    (state : AnalysisState) :
    Reports (closed node) state fun annotated _ =>
      Numbering.IsPlain node → annotated.Within limit := by
  have noted (plain : Numbering.IsPlain node) (attributes : Attributes) :
      (node.mapNote (·.add attributes)).Within limit :=
    (plain.within limit).mapNote fun id number => by
      rw [show (node.note.add attributes).symbol = none from plain.untouched.1] at number
      contradiction
  unfold closed
  split
  case h_1 isIdentifier => exact absurd isIdentifier other
  case h_2 => exact .pure fun plain => noted plain _
  case h_3 type _ children =>
    apply (newStruct_reports node type state).imp
    rintro _ problems ⟨⟨note, typeNote, rfl, number, typeNumber⟩, _⟩ plain
    have plainType : Numbering.IsPlain type := plain.child (by simp [children])
    rw [Tree.within_iff]
    constructor
    · simp [number, plain.untouched.1]
    · rw [List.forall_mem_singleton]
      apply (plainType.within limit).with_note
      simp [typeNumber, plainType.untouched.1]
  case h_8 => exact .bind (.report (.pure fun plain => plain.within limit))
  all_goals exact .bind (.report (.pure fun plain => noted plain _))

theorem closed_mirrors (proceeds : Proceeds 0 before state) {node : Tree}
    (plain : fresh → Numbering.IsPlain node) :
    Mirrors (Strict.closed node) (closed node) state (Checked fresh before) := by
  unfold Strict.closed
  split
  · rename_i isIdentifier
    have same : closed node = identifier node := by
      unfold closed
      split <;> simp_all
    rw [same]
    exact identifier_mirrors proceeds plain
  · rename_i other
    exact Checked.of_reports proceeds (closed_within other _ state)
      fun given _ _ within => within (plain given)

theorem expressions_mirrors {trees : List Tree}
    (each : ∀ tree ∈ trees, ∀ {before state : AnalysisState}, Proceeds 0 before state →
      Mirrors (Strict.expression tree) (check tree) state (Checked fresh before))
    (proceeds : Proceeds 0 before state) :
    Mirrors (Strict.expressions trees) (checkAll trees) state (CheckedAll fresh before) := by
  induction trees generalizing before state with
  | nil => exact .pure ⟨proceeds, by simp⟩
  | cons tree rest induction =>
      rw [List.forall_mem_cons] at each
      simp only [Strict.expressions, checkAll]
      apply Mirrors.bind
      apply (each.1 (.refl proceeds.sound)).imp
      intro first middle checked
      apply Mirrors.bind
      apply (induction each.2 (.refl checked.sound)).imp
      intro others after checkedRest
      refine .pure ⟨(proceeds.trans checked.toProceeds).trans checkedRest.toProceeds, ?_⟩
      intro given
      rw [List.forall_mem_cons]
      exact ⟨checked.earlier checkedRest.toProceeds given, checkedRest.within given⟩

theorem pair_mirrors {first second : Tree}
    (left : ∀ {before state : AnalysisState}, (fresh → Numbering.IsPlain first) →
      Proceeds 0 before state →
      Mirrors (Strict.expression first) (check first) state (Checked fresh before))
    (right : ∀ {before state : AnalysisState}, (fresh → Numbering.IsPlain second) →
      Proceeds 0 before state →
      Mirrors (Strict.expression second) (check second) state (Checked fresh before))
    (plain : fresh → ∀ operand ∈ [first, second], Numbering.IsPlain operand)
    {rule : Tree → Tree → Check Tree}
    (reports : ∀ left right state, Reports (rule left right) state fun annotated _ => fresh →
      annotated.note.symbol = none ∧ annotated.children = [left, right])
    (proceeds : Proceeds 0 before state) :
    Mirrors
      (do
        let left ← Strict.expression first
        let right ← Strict.expression second
        liftM (rule left right))
      (do
        let left ← check first
        let right ← check second
        rule left right) state (Checked fresh before) := by
  apply Mirrors.bind
  apply (left (fun given => plain given first (by simp)) (.refl proceeds.sound)).imp
  intro first middle checked
  apply Mirrors.bind
  apply (right (fun given => plain given second (by simp)) (.refl checked.sound)).imp
  intro second after checkedSecond
  apply Checked.of_reports ((proceeds.trans checked.toProceeds).trans checkedSecond.toProceeds)
    (reports first second after)
  intro given annotated _ parts
  rcases parts given with ⟨number, children⟩
  apply Tree.Within.of_none number
  rw [children]
  simpa using ⟨checked.earlier checkedSecond.toProceeds given, checkedSecond.within given⟩

theorem expression_leaf {node : Tree} (leaf : node.hasOperands = false) :
    Strict.expression node = Strict.closed node := by
  unfold Tree.hasOperands at leaf
  split at leaf <;> simp_all [Strict.expression]

theorem expression_mirrors (tree : Tree) (plain : fresh → Numbering.IsPlain tree)
    (proceeds : Proceeds 0 before state) :
    Mirrors (Strict.expression tree) (check tree) state (Checked fresh before) := by
  induction tree using Tree.expressionInduction generalizing before state with
  | call location text note callee arguments induction =>
      simp only [Strict.expression, check]
      apply Mirrors.bind
      apply (expressions_mirrors (fun argument member _ _ => induction argument member
        fun given => (plain given).child (by simp [member])) (.refl proceeds.sound)).imp
      intro arguments middle checked
      exact call_mirrors (proceeds.trans checked.toProceeds)
        (fun given => (plain given).untouched.1)
        (fun given => (plain given).child (by simp)) checked.within
  | select location text note object field induction =>
      simp only [Strict.expression, check]
      apply Mirrors.bind
      apply (induction (fun given => (plain given).child (by simp)) (.refl proceeds.sound)).imp
      intro object middle checked
      exact select_mirrors (proceeds.trans checked.toProceeds)
        (fun given => (plain given).untouched.1)
        (fun given => (plain given).child (by simp)) checked.within
  | index location text note array position first second =>
      simp only [Strict.expression, check]
      apply pair_mirrors first second (fun given _ member => (plain given).child member) _ proceeds
      intro array position state
      apply (index_reports _ _ _ _).imp
      rintro _ problems ⟨⟨note, rfl, number⟩, _⟩ given
      exact ⟨number.trans (plain given).untouched.1, rfl⟩
  | newArray location text note type size induction =>
      simp only [Strict.expression, check]
      apply Mirrors.bind
      apply Mirrors.quiet proceeds.sound (declaredType_reports _ _ _)
      intro declared problems _
      apply Mirrors.bind
      apply (induction (fun given => (plain given).child (by simp))
        (.refl (proceeds.sound.reporting problems))).imp
      intro size after checked
      have whole := (proceeds.trans (.reporting proceeds.sound problems)).trans checked.toProceeds
      apply Checked.of_reports whole (newArray_reports _ _ _ _ _)
      rintro given _ problems ⟨⟨note, typeNote, rfl, number, typeNumber⟩, _⟩
      have plainType : Numbering.IsPlain type := (plain given).child (by simp)
      have typeWithin : Tree.Within after.symbols.size { type with note := typeNote } :=
        (plainType.within _).with_note (by simp [typeNumber, plainType.untouched.1])
      apply Tree.Within.of_none (number.trans (plain given).untouched.1)
      simpa using ⟨typeWithin, checked.within given⟩
  | newString location text note size induction =>
      simp only [Strict.expression, check]
      apply Mirrors.bind
      apply (induction (fun given => (plain given).child (by simp)) (.refl proceeds.sound)).imp
      intro size after checked
      apply Checked.of_reports (proceeds.trans checked.toProceeds) (newString_reports _ _ _)
      rintro given _ problems ⟨⟨note, rfl, number⟩, _⟩
      apply Tree.Within.of_none (number.trans (plain given).untouched.1)
      simpa using checked.within given
  | assign location text note target value first second =>
      simp only [Strict.expression, check]
      apply pair_mirrors first second (fun given _ member => (plain given).child member) _ proceeds
      intro target value state
      apply (assign_reports _ _ _ _).imp
      rintro _ problems ⟨⟨note, rfl, number⟩, _⟩ given
      exact ⟨number.trans (plain given).untouched.1, rfl⟩
  | binary operator location text note left right first second =>
      simp only [Strict.expression, check]
      apply pair_mirrors first second (fun given _ member => (plain given).child member) _ proceeds
      intro left right state
      apply (binary_reports _ _ _ _ _).imp
      rintro _ problems ⟨⟨note, rfl, number⟩, _⟩ given
      exact ⟨number.trans (plain given).untouched.1, rfl⟩
  | unary operator location text note operand rest induction =>
      simp only [Strict.expression, check]
      apply Mirrors.bind
      apply (induction (fun given => (plain given).child (by simp)) (.refl proceeds.sound)).imp
      intro operand after checked
      apply Mirrors.bind
      apply Mirrors.quiet checked.sound (requireInteger_reports _ _ _)
      intro _ problems _
      refine .pure ⟨(proceeds.trans checked.toProceeds).trans (.reporting checked.sound _), ?_⟩
      intro given
      have number : (note.add operatorAttributes).symbol = none := (plain given).untouched.1
      apply Tree.Within.of_none number
      rw [List.forall_mem_cons]
      exact ⟨checked.within given,
        fun child member => ((plain given).child (by simp [member])).within _⟩
  | leaf node leaf =>
      rw [expression_leaf leaf, check_leaf leaf]
      exact closed_mirrors proceeds plain

end Expression

end OcLang
