import OcLang.Proofs.Analysis.Forms
import OcLang.Proofs.Keys.Following

namespace OcLang.Keyed.Expression

open Check
open OcLang.Expression (elementAttributes operatorAttributes literalAttributes)

/-! # Keys in expressions

Each rule on keys does what the rule on texts does, and so does the walk. -/

theorem check_leaf (names : Naming) {node : Tree} (leaf : node.hasOperands = false) :
    check names node = closed names node := by
  unfold Tree.hasOperands at leaf
  split at leaf <;> simp_all [check]

variable {names : Naming}

/-! ## The rules -/

section

variable (state : AnalysisState) (node : Tree)

theorem identifier_follows :
    Follows names (Tree.respell names.key) (identifier names (node.respell names.key))
      (OcLang.Expression.identifier node) state := by
  refine .get ?_
  rw [Tree.text_respell, Tree.location_respell, lookup_respell]
  cases state.scopes.lookup node.text node.location with
  | error problem => exact .reported _ rfl
  | ok id =>
      refine (symbol_follows _ _).bind fun symbol _ => .pure ?_
      rw [Symbol.role_respell, SymbolRole.roles_respell]
      exact (Tree.respell_mapNote _ _ (by intro note; rfl)).symm

theorem callArguments_follows (name : String) (place : Location) (parameters : List Nat)
    (arguments : List Tree) :
    Follows names id
      (callArguments names (names.key name) place parameters
        (arguments.map (Tree.respell names.key)))
      (OcLang.Expression.callArguments name place parameters arguments) state := by
  unfold callArguments OcLang.Expression.callArguments
  rw [List.length_map, names.text_key, List.zip_map_left]
  refine .ite (fun _ => report_follows _ _) fun _ => .forM _ fun (argument, parameter) after => ?_
  exact (symbol_follows _ _).bind fun symbol _ => requireCompatible_follows _ _ _ _

theorem call_follows (callee : Tree) (arguments : List Tree) :
    Follows names (Tree.respell names.key)
      (call names (node.respell names.key) (callee.respell names.key)
        (arguments.map (Tree.respell names.key)))
      (OcLang.Expression.call node callee arguments) state := by
  refine .get ?_
  rw [Tree.text_respell, Tree.location_respell, lookupGlobal_respell]
  cases state.scopes.lookupGlobal callee.text callee.location with
  | error problem => exact .reported _ (by simp)
  | ok id =>
      refine (symbol_follows _ _).bind fun function after => ?_
      rw [Symbol.isFunction_respell, names.text_key, Symbol.parameters_respell]
      refine .ite (fun _ => .reported _ (by simp)) fun _ => ?_
      rw [Tree.location_respell]
      refine (callArguments_follows _ _ _ _ _).bind fun _ _ => .pure ?_
      cases callee
      simp [Tree.mapNote, Note.respell, Note.addType, Note.add]

theorem selectedField_follows (object field : Tree) :
    Follows names id
      (selectedField names (node.respell names.key) (object.respell names.key)
        (field.respell names.key))
      (OcLang.Expression.selectedField node object field) state := by
  unfold selectedField OcLang.Expression.selectedField
  simp only [Tree.note_respell, Tree.location_respell, Tree.text_respell, Note.type_respell,
    ValueType.flags_respell, ValueType.structName_respell, describe_respell, names.text_key]
  cases object.note.type.structName with
  | none => exact .reported _ rfl
  | some structName =>
      cases object.note.type.flags.isPlainStruct with
      | false => exact .reported _ rfl
      | true =>
          refine .get ?_
          rw [AnalysisState.structs_respell, Table.find?_respell names.key_injective]
          cases state.structs.find? structName with
          | none =>
              rw [names.text_key]
              exact .reported _ rfl
          | some id =>
              refine (symbol_follows _ _).bind fun symbol after => ?_
              rw [Symbol.fields?_respell, Option.bind_map]
              simp only [Function.comp_def, Table.find?_respell names.key_injective]
              cases symbol.fields?.bind (·.find? field.text) with
              | none =>
                  rw [names.text_key]
                  exact .reported _ rfl
              | some id => exact .pure rfl

theorem select_follows (object field : Tree) :
    Follows names (Tree.respell names.key)
      (select names (node.respell names.key) (object.respell names.key)
        (field.respell names.key))
      (OcLang.Expression.select node object field) state := by
  unfold select OcLang.Expression.select
  simp only [Tree.note_respell, Note.isTyped_respell]
  refine .ite (fun _ => .pure (by simp)) fun _ => ?_
  refine (selectedField_follows _ _ _ _).bind fun found after => ?_
  cases found with
  | none => exact .pure (by simp)
  | some id =>
      refine (symbol_follows _ _).bind fun symbol _ => .pure ?_
      cases field
      simp [Tree.mapNote, Note.respell, Note.addType, Note.add]

theorem index_follows (array position : Tree) :
    Follows names (Tree.respell names.key)
      (index names (node.respell names.key) (array.respell names.key)
        (position.respell names.key))
      (OcLang.Expression.index node array position) state := by
  refine (requireInteger_follows _ _ _).bind fun _ after => ?_
  simp only [Tree.note_respell, Tree.location_respell, Note.type_respell,
    ValueType.isTyped_respell, ValueType.flags_respell, describe_respell]
  refine .ite (fun _ => .pure (by simp)) fun _ => .ite (fun _ => .pure ?_) fun _ =>
    .ite (fun _ => .pure ?_) fun _ => .reported _ (by simp)
  all_goals simp [Tree.mapNote, ValueType.respell]

theorem newStruct_follows (type : Tree) :
    Follows names (Tree.respell names.key)
      (newStruct names (node.respell names.key) (type.respell names.key))
      (OcLang.Expression.newStruct node type) state := by
  refine (declaredType_follows state none type).bind fun declared _ => .pure ?_
  cases type
  simp [Tree.mapNote]

theorem newArray_follows (declared : ValueType) (type size : Tree) :
    Follows names (Tree.respell names.key)
      (newArray names (node.respell names.key) (declared.respell names.key)
        (type.respell names.key) (size.respell names.key))
      (OcLang.Expression.newArray node declared type size) state := by
  refine (requireInteger_follows _ _ _).bind fun _ _ => .pure ?_
  cases type
  simp [Tree.mapNote, ValueType.respell]

theorem newString_follows (size : Tree) :
    Follows names (Tree.respell names.key)
      (newString names (node.respell names.key) (size.respell names.key))
      (OcLang.Expression.newString node size) state := by
  refine (requireInteger_follows _ _ _).bind fun _ _ => .pure ?_
  simp

theorem assign_follows (target value : Tree) :
    Follows names (Tree.respell names.key)
      (assign names (node.respell names.key) (target.respell names.key)
        (value.respell names.key))
      (OcLang.Expression.assign node target value) state := by
  unfold assign OcLang.Expression.assign
  simp only [Tree.note_respell, Tree.location_respell, Note.isTyped_respell,
    Note.attributes_respell, Note.type_respell]
  refine .ite (fun _ => (report_follows _ _).bind fun _ _ => ?_) fun _ => ?_
  all_goals exact (requireCompatible_follows _ _ _ _).bind fun _ _ => .pure (by simp)

theorem binary_follows (operator : BinaryOperator) (left right : Tree) :
    Follows names (Tree.respell names.key)
      (binary names operator (node.respell names.key) (left.respell names.key)
        (right.respell names.key))
      (OcLang.Expression.binary operator node left right) state := by
  unfold binary OcLang.Expression.binary
  simp only [Tree.note_respell, Note.type_respell]
  refine .ite (fun _ => (requireCompatible_follows _ _ _ _).bind fun _ _ => .pure (by simp))
    fun _ => (requireInteger_follows _ _ _).bind fun _ after => ?_
  exact (requireInteger_follows _ _ _).bind fun _ _ => .pure (by simp)

theorem closed_follows :
    Follows names (Tree.respell names.key) (closed names (node.respell names.key))
      (OcLang.Expression.closed node) state := by
  have noted : ∀ attributes after, Follows names (Tree.respell names.key)
      (return (node.respell names.key).mapNote (·.add attributes))
      (return node.mapNote (·.add attributes)) after := fun attributes after =>
    .pure (Tree.mapNote_add_respell _ _ attributes)
  have wrong : ∀ kind, Follows names (Tree.respell names.key)
      (malformed kind node.location >>= fun _ => return node.respell names.key)
      (malformed kind node.location >>= fun _ => return node) state := fun kind =>
    .reported _ rfl
  unfold closed OcLang.Expression.closed
  rw [Tree.kind_respell, Tree.children_respell, Tree.location_respell]
  cases node.kind with
  | identifier => exact identifier_follows state node
  | literal what => exact noted _ state
  | select | index | binary what | unary what =>
      exact (malformed_follows _ _ _).bind fun _ after => noted _ after
  | allocate what =>
      cases what with
      | struct =>
          rcases node.children with _ | ⟨type, _ | ⟨second, rest⟩⟩
          · exact wrong _
          · exact newStruct_follows state node type
          · exact wrong _
      | _ => exact wrong _
  | _ => exact wrong _

end

/-! ## The walk -/

theorem checkAll_follows {trees : List Tree}
    (each : ∀ tree ∈ trees, ∀ state, Follows names (Tree.respell names.key)
      (check names (tree.respell names.key)) (OcLang.Expression.check tree) state)
    (state : AnalysisState) :
    Follows names (List.map (Tree.respell names.key))
      (checkAll names (trees.map (Tree.respell names.key)))
      (OcLang.Expression.checkAll trees) state := by
  induction trees generalizing state with
  | nil => exact .pure rfl
  | cons tree rest induction =>
      simp only [List.forall_mem_cons] at each
      exact (each.1 state).bind fun _ after => (induction each.2 after).bind fun _ _ => .pure rfl

theorem check_follows (tree : Tree) (state : AnalysisState) :
    Follows names (Tree.respell names.key) (check names (tree.respell names.key))
      (OcLang.Expression.check tree) state := by
  induction tree using Tree.expressionInduction generalizing state with
  | call location text note callee arguments induction =>
      rw [Tree.respell_mk, List.map_cons, check, OcLang.Expression.check]
      refine (checkAll_follows induction state).bind fun arguments after => ?_
      simpa using call_follows after ⟨.call, location, text, note, []⟩ callee arguments
  | select location text note object field objectFollows =>
      rw [Tree.respell_mk, List.map_cons, List.map_singleton, check, OcLang.Expression.check]
      refine (objectFollows state).bind fun object after => ?_
      simpa using select_follows after
        ⟨.select, location, text, note.add elementAttributes, []⟩ object field
  | index location text note array position arrayFollows positionFollows =>
      rw [Tree.respell_mk, List.map_cons, List.map_singleton, check, OcLang.Expression.check]
      refine (arrayFollows state).bind fun array after => ?_
      refine (positionFollows after).bind fun position final => ?_
      simpa using index_follows final
        ⟨.index, location, text, note.add elementAttributes, []⟩ array position
  | newArray location text note type size sizeFollows =>
      rw [Tree.respell_mk, List.map_cons, List.map_singleton, check, OcLang.Expression.check]
      refine (declaredType_follows state none type).bind fun declared after => ?_
      refine (sizeFollows after).bind fun size final => ?_
      simpa using newArray_follows final ⟨.allocate .array, location, text, note, []⟩ declared
        type size
  | newString location text note size sizeFollows =>
      rw [Tree.respell_mk, List.map_singleton, check, OcLang.Expression.check]
      refine (sizeFollows state).bind fun size after => ?_
      simpa using newString_follows after ⟨.allocate .string, location, text, note, []⟩ size
  | assign location text note target value targetFollows valueFollows =>
      rw [Tree.respell_mk, List.map_cons, List.map_singleton, check, OcLang.Expression.check]
      refine (targetFollows state).bind fun target after => ?_
      refine (valueFollows after).bind fun value final => ?_
      simpa using assign_follows final ⟨.assign, location, text, note, []⟩ target value
  | binary operator location text note left right leftFollows rightFollows =>
      rw [Tree.respell_mk, List.map_cons, List.map_singleton, check, OcLang.Expression.check]
      refine (leftFollows state).bind fun left after => ?_
      refine (rightFollows after).bind fun right final => ?_
      simpa using binary_follows final
        ⟨.binary operator, location, text, note.add operatorAttributes, []⟩ operator left right
  | unary operator location text note operand rest operandFollows =>
      rw [Tree.respell_mk, List.map_cons, check, OcLang.Expression.check]
      refine (operandFollows state).bind fun operand after => ?_
      exact (requireInteger_follows _ _ _).bind fun _ _ => .pure (by simp)
  | leaf node leaf =>
      have leafToo : (node.respell names.key).hasOperands = false :=
        (Tree.hasOperands_mapNodes _ _ node).trans leaf
      rw [check_leaf names leafToo, OcLang.Expression.check_leaf leaf]
      exact closed_follows state node

end OcLang.Keyed.Expression
