import OcLang.Proofs.Stepwise
import OcLang.Proofs.Analysis.Forms

namespace OcLang

/-! # Checking expressions twice

A rule adds to the note of its node what it finds out about the node. What it
adds does not depend on what stood there before, and adding it again changes
nothing. -/

@[simp] theorem Attributes.union_self_right (first second : Attributes) :
    first ∪ second ∪ second = first ∪ second := by
  simp [Union.union]

@[simp] theorem Attributes.union_union_self (first second third : Attributes) :
    first ∪ second ∪ third ∪ second = first ∪ second ∪ third := by
  have flag : ∀ first second third : Bool,
      (first || second || third || second) = (first || second || third) := by decide
  simp only [Union.union, flag]

/-- A change of notes that does not change what it has changed, and no block. -/
structure Note.Settles (change : Note → Note) : Prop where
  twice : ∀ note, change (change note) = change note
  block : ∀ note, (change note).block = note.block

namespace Note.Settles

theorem id : Note.Settles fun note => note :=
  ⟨fun _ => rfl, fun _ => rfl⟩

theorem add (attributes : Attributes) : Note.Settles fun note => note.add attributes := by
  constructor <;> simp [Note.add]

theorem addType (type : ValueType) (roles : Roles) :
    Note.Settles fun note => note.addType type roles := by
  constructor <;> simp [Note.addType, Note.add]

end Note.Settles

namespace Check

/-- Run from a state, the rule changes the notes of a node and of one of its
children in ways that settle, whatever is noted. -/
def Annotates (rule : Note → Note → Check Tree) (state : AnalysisState)
    (result : Note → Note → Tree) : Prop :=
  ∃ change inner final, Note.Settles change ∧ Note.Settles inner ∧
    ∀ note child, (rule note child).run state = (result (change note) (inner child), final)

namespace Annotates

variable {Value : Type} {state : AnalysisState} {result : Note → Note → Tree}

theorem pure {rule : Note → Note → Tree} {change inner : Note → Note}
    (same : ∀ note child, rule note child = result (change note) (inner child))
    (settles : Note.Settles change) (innerSettles : Note.Settles inner) :
    Annotates (fun note child => pure (rule note child)) state result :=
  ⟨change, inner, state, settles, innerSettles, fun note child => by simp only [same, run_pure]⟩

theorem bind {step : Check Value} {next : Value → Note → Note → Check Tree}
    (rest : Annotates (next (step.run state).1) (step.run state).2 result) :
    Annotates (fun note child => step >>= fun value => next value note child) state result :=
  rest

theorem get {next : AnalysisState → Note → Note → Check Tree}
    (rest : Annotates (next state) state result) :
    Annotates (fun note child => get >>= fun value => next value note child) state result :=
  rest

theorem symbol {id : Nat} {next : Symbol → Note → Note → Check Tree}
    (rest : Annotates (next (state.symbol id)) state result) :
    Annotates (fun note child => Check.symbol id >>= fun value => next value note child) state
      result :=
  rest

theorem ite {condition : Prop} [Decidable condition] {first second : Note → Note → Check Tree}
    (holds : condition → Annotates first state result)
    (fails : ¬ condition → Annotates second state result) :
    Annotates (fun note child => if condition then first note child else second note child) state
      result := by
  by_cases given : condition
  · simpa only [given, if_true] using holds given
  · simpa only [given, if_false] using fails given

/-- The rule run again from the same state, on the notes that it made. -/
theorem ends {rule : Note → Note → Check Tree} (annotates : Annotates rule state result)
    (note child : Note) :
    Ends (rule note child) state fun tree final => ∃ newNote newChild,
      tree = result newNote newChild ∧ newNote.block = note.block ∧
        newChild.block = child.block ∧ (rule newNote newChild).run state = (tree, final) := by
  obtain ⟨change, inner, final, settles, innerSettles, run⟩ := annotates
  refine ⟨change note, inner child, ?_⟩
  rw [run, run, settles.twice, innerSettles.twice]
  exact ⟨rfl, settles.block note, innerSettles.block child, rfl⟩

end Annotates

/-- Run from a state, the walk changes no block, and gives the same again when it
is run from there on what it gave. -/
def Repeats (walk : Tree → Check Tree) (tree : Tree) : Prop :=
  ∀ state, Ends (walk tree) state fun result final =>
    result.blocksOnly = tree.blocksOnly ∧ (walk result).run state = (result, final)

end Check

namespace Expression

open Check

/-! ## The rules -/

section

variable (location : Location) (text : String) (state : AnalysisState)

theorem identifier_annotates (node : Tree) :
    Annotates (fun note _ => identifier { node with note }) state
      fun note _ => { node with note } := by
  refine .get ?_
  dsimp only
  cases state.scopes.lookup node.text node.location with
  | error problem =>
      refine .bind ?_
      exact .pure (fun _ _ => rfl) .id .id
  | ok id =>
      refine .bind (.pure (fun _ _ => rfl) ?_ .id)
      constructor <;> simp [Note.addType, Note.add]

theorem call_annotates (callee : Tree) (arguments : List Tree) :
    Annotates
      (fun note calleeNote =>
        call ⟨.call, location, text, note, []⟩ { callee with note := calleeNote } arguments)
      state fun note calleeNote =>
        ⟨.call, location, text, note, { callee with note := calleeNote } :: arguments⟩ := by
  refine .get ?_
  dsimp only
  cases state.scopes.lookupGlobal callee.text callee.location with
  | error problem =>
      refine .bind ?_
      exact .pure (fun _ _ => rfl) .id .id
  | ok id =>
      refine .symbol (.ite (fun _ => ?_) fun _ => ?_)
      · refine .bind ?_
        exact .pure (fun _ _ => rfl) .id .id
      · refine .bind (.pure (fun _ _ => rfl) ?_ ?_) <;>
          constructor <;> simp [Note.addType, Note.add]

theorem select_annotates (object field : Tree) :
    Annotates
      (fun note fieldNote => select ⟨.select, location, text, note.add elementAttributes, []⟩ object
        { field with note := fieldNote })
      state fun note fieldNote =>
        ⟨.select, location, text, note, [object, { field with note := fieldNote }]⟩ := by
  have element := Note.Settles.add elementAttributes
  refine .ite (fun _ => .pure (fun _ _ => rfl) element .id) fun _ => ?_
  show Annotates (fun note fieldNote =>
    selectedField ⟨.select, location, text, {}, []⟩ object field >>= fun _ => _) _ _
  refine .bind ?_
  cases ((selectedField ⟨.select, location, text, {}, []⟩ object field).run state).1 with
  | none => exact .pure (fun _ _ => rfl) element .id
  | some id =>
      refine .symbol (.pure (fun _ _ => rfl) ?_ ?_) <;>
        constructor <;> simp [Note.addType, Note.add]

theorem index_annotates (array position : Tree) :
    Annotates
      (fun note _ => index ⟨.index, location, text, note.add elementAttributes, []⟩ array position)
      state fun note _ => ⟨.index, location, text, note, [array, position]⟩ := by
  refine .bind (.ite (fun _ => ?_) fun _ => .ite (fun _ => ?_) fun _ => .ite (fun _ => ?_)
    fun _ => .bind ?_)
  all_goals
    refine .pure (fun _ _ => rfl) ?_ .id
    constructor <;> simp [Note.addType, Note.add]

theorem newStruct_annotates (type : Tree) :
    Annotates
      (fun note typeNote =>
        newStruct ⟨.allocate .struct, location, text, note, []⟩ { type with note := typeNote })
      state fun note typeNote =>
        ⟨.allocate .struct, location, text, note, [{ type with note := typeNote }]⟩ := by
  show Annotates (fun note typeNote => declaredType none type >>= fun _ => _) _ _
  refine .bind (.pure (fun _ _ => rfl) ?_ ?_) <;> constructor <;> simp [Note.addType, Note.add]

theorem newArray_annotates (declared : ValueType) (type size : Tree) :
    Annotates
      (fun note typeNote => newArray ⟨.allocate .array, location, text, note, []⟩ declared
        { type with note := typeNote } size)
      state fun note typeNote =>
        ⟨.allocate .array, location, text, note, [{ type with note := typeNote }, size]⟩ := by
  refine .bind (.pure (fun _ _ => rfl) ?_ ?_) <;> constructor <;> simp [Note.addType, Note.add]

theorem newString_annotates (size : Tree) :
    Annotates (fun note _ => newString ⟨.allocate .string, location, text, note, []⟩ size) state
      fun note _ => ⟨.allocate .string, location, text, note, [size]⟩ := by
  refine .bind (.pure (fun _ _ => rfl) ?_ .id)
  constructor <;> simp [Note.add]

theorem assign_annotates (target value : Tree) :
    Annotates (fun note _ => assign ⟨.assign, location, text, note, []⟩ target value) state
      fun note _ => ⟨.assign, location, text, note, [target, value]⟩ := by
  unfold assign
  dsimp only
  refine .ite (fun _ => .bind (.bind ?_)) fun _ => .bind ?_
  all_goals
    refine .pure (fun _ _ => rfl) ?_ .id
    constructor <;> simp [Note.addType, Note.add]

theorem binary_annotates (operator : BinaryOperator) (left right : Tree) :
    Annotates
      (fun note _ => binary operator
        ⟨.binary operator, location, text, note.add operatorAttributes, []⟩ left right)
      state fun note _ => ⟨.binary operator, location, text, note, [left, right]⟩ := by
  refine .ite (fun _ => .bind ?_) fun _ => .bind (.bind ?_)
  all_goals
    refine .pure (fun _ _ => rfl) ?_ .id
    constructor <;> simp [Note.add]

end

theorem closed_repeats (node : Tree) : Repeats closed node := by
  intro state
  obtain ⟨kind, location, text, note, children⟩ := node
  -- Most nodes keep their children as they are.
  have alone : (Annotates (fun note _ => closed ⟨kind, location, text, note, children⟩) state
      fun note _ => ⟨kind, location, text, note, children⟩) →
      Ends (closed ⟨kind, location, text, note, children⟩) state fun result final =>
        result.blocksOnly = Tree.blocksOnly ⟨kind, location, text, note, children⟩ ∧
          (closed result).run state = (result, final) := by
    intro annotates
    refine (annotates.ends note {}).imp ?_
    rintro _ final ⟨newNote, _, rfl, same, _, again⟩
    exact ⟨by simp [Tree.blocksOnly_mk, same], again⟩
  cases kind with
  | identifier =>
      exact alone (identifier_annotates state ⟨.identifier, location, text, note, children⟩)
  | literal what => exact alone ⟨_, _, _, .add _, .id, fun _ _ => rfl⟩
  | allocate what =>
      have wrong := fun given => alone
        ⟨_, _, ((malformed (.allocate what) location).run state).2, .id, .id, given⟩
      rcases what with _ | _ | _
      · rcases children with _ | ⟨type, _ | ⟨second, rest⟩⟩
        · exact wrong fun _ _ => rfl
        · obtain ⟨typeKind, typeLocation, typeText, typeNote, others⟩ := type
          refine ((newStruct_annotates location text state
            ⟨typeKind, typeLocation, typeText, typeNote, others⟩).ends note typeNote).imp ?_
          rintro _ final ⟨newNote, newType, rfl, same, sameType, again⟩
          exact ⟨by simp [Tree.blocksOnly_mk, same, sameType], again⟩
        · exact wrong fun _ _ => rfl
      all_goals exact wrong fun _ _ => rfl
  | select | index =>
      exact alone ⟨_, _, ((malformed _ location).run state).2, .add elementAttributes, .id,
        fun _ _ => rfl⟩
  | binary what | unary what =>
      exact alone ⟨_, _, ((malformed _ location).run state).2, .add operatorAttributes, .id,
        fun _ _ => rfl⟩
  | _ =>
      exact alone ⟨_, _, ((malformed _ location).run state).2, .id, .id, fun _ _ => rfl⟩

/-! ## The walk -/

theorem checkAll_repeats {trees : List Tree} (each : ∀ tree ∈ trees, Repeats check tree)
    (state : AnalysisState) :
    Ends (checkAll trees) state fun result final =>
      result.map Tree.blocksOnly = trees.map Tree.blocksOnly ∧
        (checkAll result).run state = (result, final) := by
  induction trees generalizing state with
  | nil => exact .pure ⟨rfl, rfl⟩
  | cons tree rest induction =>
      simp only [List.forall_mem_cons] at each
      refine .bind ((each.1 state).imp ?_)
      rintro first middle ⟨sameFirst, again⟩
      refine .bind ((induction each.2 middle).imp ?_)
      rintro others final ⟨sameOthers, againOthers⟩
      refine .pure ⟨by simp [sameFirst, sameOthers], ?_⟩
      rw [checkAll, run_bind, again, run_bind, againOthers, run_pure]

/-- Checking an expression again finds nothing else. -/
theorem check_repeats (tree : Tree) : Repeats check tree := by
  induction tree using Tree.expressionInduction with
  | call location text note callee arguments induction =>
      intro state
      obtain ⟨calleeKind, calleeLocation, calleeText, calleeNote, others⟩ := callee
      let callee : Tree := ⟨calleeKind, calleeLocation, calleeText, calleeNote, others⟩
      rw [check]
      refine .bind ((checkAll_repeats induction state).imp ?_)
      rintro checked middle ⟨same, again⟩
      refine ((call_annotates location text middle callee checked).ends note calleeNote).imp ?_
      rintro _ final ⟨newNote, newCallee, rfl, sameNote, sameCallee, againRule⟩
      refine ⟨by simp [callee, Tree.blocksOnly_mk, sameNote, sameCallee, same], ?_⟩
      rw [check, run_bind, again]
      exact againRule
  | select location text note object field objectRepeats =>
      intro state
      obtain ⟨fieldKind, fieldLocation, fieldText, fieldNote, others⟩ := field
      let field : Tree := ⟨fieldKind, fieldLocation, fieldText, fieldNote, others⟩
      rw [check]
      refine .bind ((objectRepeats state).imp ?_)
      rintro checked middle ⟨same, again⟩
      refine ((select_annotates location text middle checked field).ends note fieldNote).imp ?_
      rintro _ final ⟨newNote, newField, rfl, sameNote, sameField, againRule⟩
      refine ⟨by simp [field, Tree.blocksOnly_mk, sameNote, same, sameField], ?_⟩
      rw [check, run_bind, again]
      exact againRule
  | index location text note array position arrayRepeats positionRepeats =>
      intro state
      rw [check]
      refine .bind ((arrayRepeats state).imp ?_)
      rintro array' middle ⟨sameArray, again⟩
      refine .bind ((positionRepeats middle).imp ?_)
      rintro position' after ⟨samePosition, againPosition⟩
      refine ((index_annotates location text after array' position').ends note {}).imp ?_
      rintro _ final ⟨newNote, _, rfl, sameNote, _, againRule⟩
      refine ⟨by simp [Tree.blocksOnly_mk, sameNote, sameArray, samePosition], ?_⟩
      rw [check, run_bind, again, run_bind, againPosition]
      exact againRule
  | newArray location text note type size sizeRepeats =>
      intro state
      obtain ⟨typeKind, typeLocation, typeText, typeNote, others⟩ := type
      let type : Tree := ⟨typeKind, typeLocation, typeText, typeNote, others⟩
      rw [check]
      refine .bind (.run (.bind ((sizeRepeats _).imp ?_)))
      rintro checked middle ⟨same, again⟩
      refine ((newArray_annotates location text middle ((declaredType none type).run state).1
        type checked).ends note typeNote).imp ?_
      rintro _ final ⟨newNote, newType, rfl, sameNote, sameType, againRule⟩
      refine ⟨by simp [type, Tree.blocksOnly_mk, sameNote, same, sameType], ?_⟩
      rw [check, run_bind]
      show (check checked >>= _).run ((declaredType none type).run state).2 = _
      rw [run_bind, again]
      exact againRule
  | newString location text note size sizeRepeats =>
      intro state
      rw [check]
      refine .bind ((sizeRepeats state).imp ?_)
      rintro checked middle ⟨same, again⟩
      refine ((newString_annotates location text middle checked).ends note {}).imp ?_
      rintro _ final ⟨newNote, _, rfl, sameNote, _, againRule⟩
      refine ⟨by simp [Tree.blocksOnly_mk, sameNote, same], ?_⟩
      rw [check, run_bind, again]
      exact againRule
  | assign location text note target value targetRepeats valueRepeats =>
      intro state
      rw [check]
      refine .bind ((targetRepeats state).imp ?_)
      rintro checkedTarget middle ⟨sameTarget, again⟩
      refine .bind ((valueRepeats middle).imp ?_)
      rintro checkedValue after ⟨sameValue, againValue⟩
      refine ((assign_annotates location text after checkedTarget checkedValue).ends note {}).imp ?_
      rintro _ final ⟨newNote, _, rfl, sameNote, _, againRule⟩
      refine ⟨by simp [Tree.blocksOnly_mk, sameNote, sameTarget, sameValue], ?_⟩
      rw [check, run_bind, again, run_bind, againValue]
      exact againRule
  | binary operator location text note left right leftRepeats rightRepeats =>
      intro state
      rw [check]
      refine .bind ((leftRepeats state).imp ?_)
      rintro checkedLeft middle ⟨sameLeft, again⟩
      refine .bind ((rightRepeats middle).imp ?_)
      rintro checkedRight after ⟨sameRight, againRight⟩
      refine ((binary_annotates location text after operator checkedLeft checkedRight).ends
        note {}).imp ?_
      rintro _ final ⟨newNote, _, rfl, sameNote, _, againRule⟩
      refine ⟨by simp [Tree.blocksOnly_mk, sameNote, sameLeft, sameRight], ?_⟩
      rw [check, run_bind, again, run_bind, againRight]
      exact againRule
  | unary operator location text note operand rest operandRepeats =>
      intro state
      have settles := Note.Settles.add operatorAttributes
      rw [check]
      refine .bind ((operandRepeats state).imp ?_)
      rintro checked middle ⟨same, again⟩
      refine .bind (.run (.pure ⟨by simp [Tree.blocksOnly_mk, settles.block note, same], ?_⟩))
      rw [check, run_bind, again, run_bind, run_pure, settles.twice note]
  | leaf node leaf =>
      intro state
      rw [check_leaf leaf]
      refine (closed_repeats node state).imp ?_
      rintro result final ⟨same, again⟩
      refine ⟨same, ?_⟩
      rw [check_leaf, again]
      -- An annotated leaf is a leaf still.
      rw [← Tree.hasOperands_bare, Tree.bare_eq_of_blocksOnly_eq same, Tree.hasOperands_bare]
      exact leaf

end Expression

end OcLang
