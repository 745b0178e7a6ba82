import OcLang.Proofs.Oil.Output
import OcLang.Proofs.Oil.Reflection.Statements

namespace OcLang

open Lexical

/-! # Programs follow their outlines -/

namespace Oil

section

variable {analysis : Analysis} {context : Context}

/-! ## The entry point -/

theorem lowerItems_reflects {items : List Tree} (shaped : ∀ item ∈ items, item.IsShaped)
    (resolved : Resolved analysis.symbols (eventsAll context items)) (number : Nat) :
    Ends (lowerItems analysis items) number fun lines _ =>
      Reflects lines (entryMarks context items) := by
  induction items generalizing context number with
  | nil => exact .pure .nil
  | cons item rest induction =>
      simp only [eventsAll, Resolved.append] at resolved
      have others (middle : Nat) := induction (fun item member => shaped item (by simp [member]))
        resolved.2 middle
      unfold lowerItems entryMarks
      dsimp only
      split
      · exact .bind (.pure (.bind ((others number).imp fun lines _ reflects => .pure reflects)))
      · refine .bind ((lowerStatement_reflects (shaped item (by simp)) resolved.1 .file number).imp
          fun first middle reflects => ?_)
        exact .bind ((others middle).imp fun lines _ reflectsRest =>
          .pure (reflects.append reflectsRest))

/-! ## Functions -/

structure ReflectsFunction (function : Function) (outline : FunctionOutline) : Prop where
  parameters : function.parameterNames = outline.parameters.map Variable.spelling
  body : Reflects function.body outline.body

theorem parameters_reflect {parameters : List Tree}
    (resolved : Resolved analysis.symbols (parameterEvents context parameters)) :
    (parameters.filterMap (parameter? analysis)).map (·.name.spelling) =
      (parameters.filterMap Tree.declaredName?).map fun name =>
        Variable.spelling ⟨context.innermost, name.text⟩ := by
  induction parameters generalizing context with
  | nil => rfl
  | cons declarator rest induction =>
      cases declared : declarator.declaredName? with
      | none =>
          simp only [parameterEvents, declared] at resolved
          simpa [parameter?, declared] using induction resolved
      | some name =>
          simp only [parameterEvents, declared] at resolved
          have named := variableName_declaration (resolved _ List.mem_cons_self).1
          have others := induction fun event member => resolved event (List.mem_cons_of_mem _ member)
          simp only [List.filterMap_cons, parameter?, declared, Option.map_some, List.map_cons,
            named, others]
          rfl

structure ReflectFunctions (functions : List Function) (outlines : List FunctionOutline) :
    Prop where
  forth : ∀ function ∈ functions, ∃ outline ∈ outlines, ReflectsFunction function outline
  back : ∀ outline ∈ outlines, ∃ function ∈ functions, ReflectsFunction function outline

namespace ReflectFunctions

variable {functions more : List Function} {outlines others : List FunctionOutline}

theorem nil : ReflectFunctions [] [] := ⟨by simp, by simp⟩

theorem single {function : Function} {outline : FunctionOutline}
    (reflects : ReflectsFunction function outline) : ReflectFunctions [function] [outline] :=
  ⟨by simpa using reflects, by simpa using reflects⟩

theorem append (first : ReflectFunctions functions outlines)
    (second : ReflectFunctions more others) :
    ReflectFunctions (functions ++ more) (outlines ++ others) where
  forth function member := by
    rcases List.mem_append.mp member with here | there
    · rcases first.forth function here with ⟨outline, found, reflects⟩
      exact ⟨outline, List.mem_append_left _ found, reflects⟩
    · rcases second.forth function there with ⟨outline, found, reflects⟩
      exact ⟨outline, List.mem_append_right _ found, reflects⟩
  back outline member := by
    rcases List.mem_append.mp member with here | there
    · rcases first.back outline here with ⟨function, found, reflects⟩
      exact ⟨function, List.mem_append_left _ found, reflects⟩
    · rcases second.back outline there with ⟨function, found, reflects⟩
      exact ⟨function, List.mem_append_right _ found, reflects⟩

theorem forall_iff (reflect : ReflectFunctions functions outlines) {holds : Function → Prop}
    {outlineHolds : FunctionOutline → Prop}
    (each : ∀ {function outline}, ReflectsFunction function outline →
      (holds function ↔ outlineHolds outline)) :
    (∀ function ∈ functions, holds function) ↔ ∀ outline ∈ outlines, outlineHolds outline := by
  constructor
  · intro all outline member
    rcases reflect.back outline member with ⟨function, found, reflects⟩
    exact (each reflects).mp (all function found)
  · intro all function member
    rcases reflect.forth function member with ⟨outline, found, reflects⟩
    exact (each reflects).mpr (all outline found)

end ReflectFunctions

theorem lowerFunction_reflects {function : Tree} (shaped : function.IsShaped)
    (kind : function.kind = .function)
    (resolved : Resolved analysis.symbols (events context function)) (later : List Tree)
    (number : Nat) :
    Ends (lowerFunction analysis function later) number fun result _ =>
      ReflectFunctions result.toList (functionOutline? context function later).toList := by
  rcases function with ⟨_, location, text, note, children⟩
  subst kind
  rcases shaped.function with
    ⟨declarator, parameters, place, word, bodyNote, statements, name, rfl, _, declared, _⟩
  have shapedBody : Tree.IsShaped ⟨.block, place, word, bodyNote, statements⟩ :=
    shaped.child (by simp)
  simp only [events, declared, headingEvents, Resolved.append, bodyEvents] at resolved
  have resolvedParameters : Resolved analysis.symbols
      (parameterEvents (context.declare .function name).enter parameters.children) :=
    fun event member => resolved.1 event (List.mem_cons_of_mem _ member)
  have innermost : (context.heading name parameters).innermost =
      (context.declare .function name).enter.innermost := by
    simp [Context.innermost, Context.enter, Context.declare]
  simp only [lowerFunction, functionOutline?, declared, Option.bind_some]
  split
  · exact .pure .nil
  · refine .bind ((lowerStatements_reflects
      (fun tree _ {context} shaped resolved => lowerStatement_reflects shaped resolved)
      (fun tree member => shapedBody.child member) resolved.2 number).imp
        fun lines _ reflects => .pure (.single ⟨?_, reflects⟩))
    have same := parameters_reflect resolvedParameters
    simp only [Function.parameterNames, innermost, List.map_map, Function.comp_def, ← same]
    split
    · rename_i empty
      simp [List.isEmpty_iff.mp empty]
    · rfl

theorem lowerFunctions_reflects {items : List Tree} (shaped : ∀ item ∈ items, item.IsShaped)
    (resolved : Resolved analysis.symbols (eventsAll context items)) (number : Nat) :
    Ends (lowerFunctions analysis (items.filter (·.kind == .function))) number fun functions _ =>
      ReflectFunctions functions (functionOutlines context items) := by
  induction items generalizing context number with
  | nil => exact .pure .nil
  | cons item rest induction =>
      simp only [eventsAll, Resolved.append] at resolved
      have others (middle : Nat) := induction (fun item member => shaped item (by simp [member]))
        resolved.2 middle
      by_cases function : item.kind = .function
      · have isFunction : (item.kind == .function) = true := by simpa using function
        simp only [List.filter_cons, functionOutlines, isFunction, if_true]
        refine .bind ((lowerFunction_reflects (shaped item (by simp)) function resolved.1 _
          number).imp fun first middle reflects => ?_)
        exact .bind ((others middle).imp fun functions _ reflectRest =>
          .pure (reflects.append reflectRest))
      · have isOther : ¬(item.kind == .function) = true := by simpa using function
        simp only [List.filter_cons, functionOutlines, if_neg isOther]
        exact others number

/-! ## Variables at file scope -/

theorem globalVariable_reflects {item : Tree} (shaped : item.IsShaped)
    (resolved : Resolved analysis.symbols (events context item)) :
    (globalVariable? analysis item).map (·.2.spelling) =
      (itemVariable? context item).map Variable.spelling := by
  rcases item with ⟨kind, location, text, note, children⟩
  cases kind with
  | «variable» =>
      rcases shaped.variable with ⟨declarator, values, name, rfl, _, declared, _⟩
      simp only [events, simpleEvents, declared, Resolved.append] at resolved
      have here := (resolved.2 _ List.mem_cons_self).1
      simp only [globalVariable?, itemVariable?, declared, Option.bind_some]
      split
      · rfl
      · cases replaces : context.replaced? (.variable values.head?) name.text <;>
          simp [Option.filter, Event.introduces?, Role.isVariable,
            replacesVariable_declaration here, variableName_declaration here, replaces,
            Variable.spelling, Variable.oilName]
  | _ => rfl

theorem globalVariables_reflect {items : List Tree} (shaped : ∀ item ∈ items, item.IsShaped)
    (resolved : Resolved analysis.symbols (eventsAll context items)) :
    (items.filterMap (globalVariable? analysis)).map (·.2.spelling) =
      (itemVariables context items).map Variable.spelling := by
  induction items generalizing context with
  | nil => rfl
  | cons item rest induction =>
      simp only [eventsAll, Resolved.append] at resolved
      have others := induction (fun item member => shaped item (by simp [member])) resolved.2
      have here := globalVariable_reflects (shaped item (by simp)) resolved.1
      simp only [itemVariables, List.map_append, ← others]
      cases found : globalVariable? analysis item with
      | none =>
          simp only [found, Option.map_none] at here
          simp [found, Option.map_eq_none_iff.mp here.symm]
      | some global =>
          simp only [found, Option.map_some] at here
          rcases Option.map_eq_some_iff.mp here.symm with ⟨held, outlined, equal⟩
          simp [found, outlined, equal]

/-! ## String literals -/

def boundName? (analysis : Analysis) (node : Tree) : Option String :=
  (stringBinding? analysis node).bind StringBinding.declared?

theorem boundName?_variable {location : Location} {text : String} {note : Note}
    {declarator name : Tree} {values : List Tree} (declared : declarator.declaredName? = some name)
    (single : values = values.head?.toList)
    (holds : (Event.declaration context (.variable values.head?) name).Holds False
      analysis.symbols) :
    boundName? analysis ⟨.variable, location, text, note, declarator :: values⟩ =
      (Event.declaration context (.variable values.head?) name).bindsString?.map
        Variable.spelling := by
  rcases values with _ | ⟨value, rest⟩
  · simp [boundName?, stringBinding?, Event.bindsString?]
  · have empty : rest = [] := by simpa using single
    subst empty
    simp only [List.head?_cons] at holds ⊢
    cases string : value.kind == .literal .string with
    | false => simp [boundName?, stringBinding?, Event.bindsString?, string]
    | true =>
        cases replaces : context.replaced? (.variable (some value)) name.text <;>
          simp [boundName?, stringBinding?, Event.bindsString?, string, declared,
            Event.introduces?, Role.isVariable, StringBinding.declared?,
            replacesVariable_declaration holds, variableName_declaration holds, replaces,
            Variable.spelling, Variable.oilName]

theorem boundName?_other {node : Tree} (other : node.kind ≠ .variable) :
    boundName? analysis node = none := by
  rcases node with ⟨kind, location, text, note, children⟩
  unfold boundName? stringBinding?
  split
  · contradiction
  · split <;> rfl
  · rfl

theorem boundNames_barren {tree : Tree} (barren : tree.IsBarren) :
    tree.preorder.filterMap (boundName? analysis) = [] :=
  List.filterMap_eq_nil_iff.mpr fun node member => boundName?_other (barren node member)

theorem boundNames_inside {kind : Kind} {location : Location} {text : String} {note : Note}
    {children : List Tree} (other : kind ≠ .variable) :
    (Tree.preorder ⟨kind, location, text, note, children⟩).filterMap (boundName? analysis) =
      (Tree.preorderAll children).filterMap (boundName? analysis) := by
  simp [Tree.preorder, boundName?_other, other]

theorem bindsString?_uses (tree : Tree) :
    (uses context tree).filterMap Event.bindsString? = [] := by
  refine List.filterMap_eq_nil_iff.mpr fun event member => ?_
  have still := (uses_still context tree event member).1
  cases event with
  | declaration => simp [Event.declaration?] at still
  | _ => rfl

theorem bindsString?_parameterEvents (parameters : List Tree) :
    (parameterEvents context parameters).filterMap Event.bindsString? = [] := by
  induction parameters generalizing context with
  | nil => rfl
  | cons declarator rest induction =>
      cases declared : declarator.declaredName? with
      | none => simpa [parameterEvents, declared] using induction
      | some name => simpa [parameterEvents, declared, Event.bindsString?] using induction

theorem bindsString?_headingEvents (name parameters : Tree) :
    (headingEvents context name parameters).filterMap Event.bindsString? = [] :=
  (List.filterMap_cons_none rfl).trans (bindsString?_parameterEvents parameters.children)

/-- Where no node is misplaced, expressions hold no variables. -/
theorem isBarren_of_uses (context : Context) {tree : Tree} (shaped : tree.IsShaped)
    (accepted : ¬Refused (uses context tree)) : tree.IsBarren := by
  induction tree using Tree.expressionInduction with
  | call location text note callee arguments induction =>
      have fine := shaped.fault
      have named : callee.kind = .identifier := by simpa [Tree.shapeFault?, Tree.require] using fine
      simp only [uses, Refused.append, not_or, usesAll_eq_flatMap] at accepted
      rw [Tree.isBarren_mk]
      refine ⟨by simp, fun child member => ?_⟩
      rcases List.mem_cons.mp member with rfl | argument
      · exact Tree.isBarren_of_leaf (shaped.child member) (.inr (.inr named))
      · refine induction child argument (shaped.child member) fun refused => accepted.1 ?_
        rcases refused with ⟨node, found⟩
        exact ⟨node, List.mem_flatMap.mpr ⟨child, argument, found⟩⟩
  | select location text note object field induction =>
      have fine := shaped.fault
      have named : field.kind = .field := by simpa [Tree.shapeFault?, Tree.require] using fine
      have barren := induction (shaped.child (by simp)) accepted
      have shapedField : field.IsShaped := shaped.child (by simp)
      have barrenField := Tree.isBarren_of_leaf shapedField (.inl (by simp [named, Kind.isNaming]))
      simp [Tree.isBarren_mk, barren, barrenField]
  | newArray location text note type size induction =>
      have fine := shaped.fault
      have isType : type.kind.isType = true := by simpa [Tree.shapeFault?, Tree.require] using fine
      have barren := induction (shaped.child (by simp)) accepted
      have shapedType : type.IsShaped := shaped.child (by simp)
      have barrenType := Tree.isBarren_of_type shapedType isType
      simp [Tree.isBarren_mk, barren, barrenType]
  | newString location text note size induction =>
      simp [Tree.isBarren_mk, induction (shaped.child (by simp)) accepted]
  | unary operator location text note operand rest induction =>
      have single : rest = [] := by
        have fine := shaped.fault
        cases rest <;> simp_all [Tree.shapeFault?]
      subst single
      simp [Tree.isBarren_mk, induction (shaped.child (by simp)) accepted]
  | index | assign | binary =>
      rename_i first second
      simp only [uses, Refused.append, not_or] at accepted
      have barren := first (shaped.child (by simp)) accepted.1
      have barrenSecond := second (shaped.child (by simp)) accepted.2
      simp [Tree.isBarren_mk, barren, barrenSecond]
  | leaf node leaf =>
      rw [uses_leaf context leaf] at accepted
      by_cases identifier : node.kind = .identifier
      · exact Tree.isBarren_of_leaf shaped (.inr (.inr identifier))
      · have constant : node.kind.isConstant = true := by
          cases constant : node.kind.isConstant with
          | true => rfl
          | false => exact (accepted ⟨node, by simp [leafEvents, identifier, constant]⟩).elim
        rcases node with ⟨kind, location, text, note, children⟩
        have fine := shaped.fault
        cases kind with
        | literal => cases children <;> simp_all [Tree.shapeFault?, Tree.isBarren_mk]
        | allocate what =>
            rw [Tree.isBarren_mk]
            refine ⟨by simp, fun child member => Tree.isBarren_of_type (shaped.child member) ?_⟩
            cases what <;> rcases children with _ | ⟨first, _ | ⟨second, _ | ⟨third, rest⟩⟩⟩ <;>
              simp_all [Tree.shapeFault?, Tree.hasOperands, Tree.require, Kind.isType]
        | _ => simp [Kind.isConstant] at constant

/-- A statement that holds no statements and declares no variable. -/
theorem isBarren_of_simple (context : Context) {tree : Tree} (shaped : tree.IsShaped)
    (simple : tree.isCompound = false) (other : tree.kind ≠ .variable)
    (accepted : ¬Refused (simpleEvents context tree)) : tree.IsBarren := by
  rcases tree with ⟨kind, location, text, note, children⟩
  have fine := shaped.fault
  cases kind with
  | «variable» => contradiction
  | root | block => simp [Tree.isCompound] at simple
  | function =>
      rcases shaped.function with ⟨_, _, _, _, _, _, _, rfl, _⟩
      simp [Tree.isCompound] at simple
  | prototype =>
      rcases shaped.prototype with ⟨_, _, _, rfl, _⟩
      simp [Tree.isCompound] at simple
  | whileLoop | ifThen | ifElse | returnVoid =>
      cases children <;> simp_all [Tree.shapeFault?, Tree.isCompound, Tree.isBarren_mk]
  | returnValue =>
      rcases children with _ | ⟨value, _ | ⟨second, rest⟩⟩ <;> simp [Tree.shapeFault?] at fine
      simp [Tree.isBarren_mk, isBarren_of_uses context (shaped.child (by simp)) accepted]
  | struct =>
      rcases children with _ | ⟨name, fields⟩
      · exact (accepted ⟨_, List.mem_singleton_self _⟩).elim
      · by_cases named : name.kind = .type .named
        · simp only [Tree.shapeFault?, named, beq_self_eq_true, if_true, Tree.require] at fine
          split at fine
          · rename_i declare
            have barren := Tree.isBarren_of_declarators
              (fun field member => shaped.child (List.mem_cons_of_mem _ member)) declare
            have barrenName := Tree.isBarren_of_type (shaped.child List.mem_cons_self)
              (by simp [named, Kind.isType])
            simpa [Tree.isBarren_mk] using ⟨barrenName, barren⟩
          · contradiction
        · have refused : simpleEvents context
              ⟨.struct, location, text, note, name :: fields⟩ =
                [.misplaced ⟨.struct, location, text, note, name :: fields⟩] := by
            simp [simpleEvents, structEvents, named]
          exact (accepted ⟨_, refused ▸ List.mem_singleton_self _⟩).elim
  | type => exact Tree.isBarren_of_type shaped rfl
  | parameters => exact Tree.isBarren_of_parameters shaped rfl
  | field | declaredName => exact Tree.isBarren_of_leaf shaped (.inl rfl)
  | arrayMark => exact Tree.isBarren_of_leaf shaped (.inr (.inl rfl))
  | _ => exact isBarren_of_uses context shaped accepted

theorem bindsString?_simple {tree : Tree} (other : tree.kind ≠ .variable) :
    (simpleEvents context tree).filterMap Event.bindsString? = [] := by
  unfold simpleEvents
  split
  · contradiction
  · exact bindsString?_uses _
  · unfold structEvents
    split <;> rfl
  · split
    · rfl
    · exact bindsString?_uses _

theorem boundNames_variable {location : Location} {text : String} {note : Note}
    {children : List Tree} (shaped : Tree.IsShaped ⟨.variable, location, text, note, children⟩)
    (resolved : Resolved analysis.symbols
      (simpleEvents context ⟨.variable, location, text, note, children⟩))
    (accepted : ¬Refused (simpleEvents context ⟨.variable, location, text, note, children⟩)) :
    (Tree.preorder ⟨.variable, location, text, note, children⟩).filterMap (boundName? analysis) =
      ((simpleEvents context ⟨.variable, location, text, note, children⟩).filterMap
        Event.bindsString?).map Variable.spelling := by
  rcases shaped.variable with ⟨declarator, values, name, rfl, type, declared, single⟩
  simp only [simpleEvents, declared, Resolved.append, Refused.append, not_or]
    at resolved accepted ⊢
  have here : boundName? analysis ⟨.variable, location, text, note, declarator :: values⟩ = _ :=
    boundName?_variable declared single (resolved.2 _ List.mem_cons_self).1
  have barren : declarator.preorder.filterMap (boundName? analysis) = [] :=
    boundNames_barren (Tree.isBarren_of_type (shaped.child List.mem_cons_self) type)
  have barrenValues : (Tree.preorderAll values).filterMap (boundName? analysis) = [] ∧
      (usesAll context values.head?.toList).filterMap Event.bindsString? = [] := by
    rcases values with _ | ⟨value, rest⟩
    · exact ⟨rfl, rfl⟩
    · have empty : rest = [] := by simpa using single
      subst empty
      have shapedValue : value.IsShaped := shaped.child (by simp)
      have barrenValue := isBarren_of_uses context shapedValue (by simpa [usesAll] using accepted.1)
      exact ⟨by simpa [Tree.preorderAll] using boundNames_barren barrenValue,
        by simpa [usesAll] using bindsString?_uses value⟩
  simp only [Tree.preorder, Tree.preorderAll, List.filterMap_append, barren, barrenValues,
    List.filterMap_cons, List.nil_append, here]
  cases (Event.declaration context (.variable values.head?) name).bindsString? <;> rfl

theorem boundNames_children {trees : List Tree}
    (each : ∀ tree ∈ trees, ∀ {context : Context}, tree.IsShaped →
      Resolved analysis.symbols (events context tree) → ¬Refused (events context tree) →
        tree.preorder.filterMap (boundName? analysis) =
          ((events context tree).filterMap Event.bindsString?).map Variable.spelling)
    (shaped : ∀ tree ∈ trees, tree.IsShaped)
    (resolved : Resolved analysis.symbols (eventsAll context trees))
    (accepted : ¬Refused (eventsAll context trees)) :
    (Tree.preorderAll trees).filterMap (boundName? analysis) =
      ((eventsAll context trees).filterMap Event.bindsString?).map Variable.spelling := by
  induction trees generalizing context with
  | nil => rfl
  | cons tree rest induction =>
      simp only [eventsAll, Resolved.append, Refused.append, not_or] at resolved accepted
      have here := each tree (by simp) (shaped tree (by simp)) resolved.1 accepted.1
      have others := induction (fun tree member => each tree (by simp [member]))
        (fun tree member => shaped tree (by simp [member])) resolved.2 accepted.2
      simp only [Tree.preorderAll, eventsAll, List.filterMap_append, List.map_append, here, others]

theorem boundNames_reflect {tree : Tree} (shaped : tree.IsShaped)
    (resolved : Resolved analysis.symbols (events context tree))
    (accepted : ¬Refused (events context tree)) :
    tree.preorder.filterMap (boundName? analysis) =
      ((events context tree).filterMap Event.bindsString?).map Variable.spelling := by
  induction tree using Tree.statementInduction generalizing context with
  | root location text note children induction =>
      rw [boundNames_inside (by simp)]
      exact boundNames_children (fun tree member {context} shaped resolved accepted =>
        induction tree member shaped resolved accepted) (fun child member => shaped.child member)
        resolved accepted
  | block location text note children induction =>
      rw [boundNames_inside (by simp)]
      exact boundNames_children (fun tree member {context} shaped resolved accepted =>
        induction tree member shaped resolved accepted) (fun child member => shaped.child member)
        resolved accepted
  | function location text note declarator parameters rest induction =>
      rcases shaped.function with
        ⟨_, _, place, word, bodyNote, statements, name, same, type, declared, list⟩
      cases same
      have shapedBody : Tree.IsShaped ⟨.block, place, word, bodyNote, statements⟩ :=
        shaped.child (by simp)
      simp only [events, declared, bodyEvents, Resolved.append, Refused.append, not_or]
        at resolved accepted
      have body := boundNames_children (fun tree member {context} shaped resolved accepted =>
        induction _ List.mem_cons_self tree member shaped resolved accepted)
        (fun child member => shapedBody.child member) resolved.2 accepted.2
      have inside : (Tree.preorder ⟨.block, place, word, bodyNote, statements⟩).filterMap
          (boundName? analysis) = _ := (boundNames_inside (by simp)).trans body
      -- Names and parameters bind no text, so all that is bound is in the body.
      rw [boundNames_inside (by simp)]
      simp only [Tree.preorderAll, List.filterMap_append, inside,
        boundNames_barren (Tree.isBarren_of_type (shaped.child (by simp)) type),
        boundNames_barren (Tree.isBarren_of_parameters (shaped.child (by simp)) list), events,
        declared, bodyEvents, bindsString?_headingEvents]
      simp
  | prototype location text note declarator parameters rest =>
      rcases shaped.prototype with ⟨_, _, name, same, type, declared, list⟩
      cases same
      rw [boundNames_inside (by simp)]
      simp only [Tree.preorderAll, List.filterMap_append,
        boundNames_barren (Tree.isBarren_of_type (shaped.child (by simp)) type),
        boundNames_barren (Tree.isBarren_of_parameters (shaped.child (by simp)) list), events,
        declared, bindsString?_headingEvents]
      simp
  | control kind location text note test bodies control induction =>
      rw [events_control _ control, Resolved.append] at resolved
      rw [events_control _ control, Refused.append, not_or] at accepted
      have other : kind ≠ .variable := by
        rintro rfl
        contradiction
      have others := boundNames_children (fun tree member {context} shaped resolved accepted =>
        induction tree member shaped resolved accepted) (fun child member => shaped.child
          (by simp [member])) resolved.2 accepted.2
      rw [boundNames_inside other, events_control _ control]
      simp only [Tree.preorderAll, List.filterMap_append, others, bindsString?_uses,
        boundNames_barren (isBarren_of_uses context (shaped.child (by simp)) accepted.1)]
      simp
  | simple tree simple =>
      rw [events_simple _ simple] at resolved accepted ⊢
      by_cases other : tree.kind = .variable
      · rcases tree with ⟨_, location, text, note, children⟩
        subst other
        exact boundNames_variable shaped resolved accepted
      · rw [bindsString?_simple other]
        exact boundNames_barren (isBarren_of_simple context shaped simple other accepted)

end

/-! ## Programs -/

structure ReflectsProgram (program : Program) (outline : Outline) : Prop where
  file : program.fileNames = outline.file.map Variable.spelling
  functions : ReflectFunctions program.functions outline.functions
  main : Reflects program.main outline.entry

theorem generate_reflects {analysis : Analysis} {root : Tree} (shaped : root.IsShaped)
    (isRoot : root.kind = .root) (resolved : Resolved analysis.symbols (events {} root))
    (placed : ¬Refused (events {} root)) :
    ReflectsProgram (generate analysis root) (outline root) := by
  rcases root with ⟨_, location, text, note, children⟩
  subst isRoot
  have items : ∀ item ∈ children, item.IsShaped := fun item member => shaped.child member
  have strings := boundNames_reflect shaped resolved placed
  have globals := globalVariables_reflect items resolved
  have code : Ends (generateNumbered analysis ⟨.root, location, text, note, children⟩)
      firstTemporary fun program _ =>
        ReflectsProgram program (outline ⟨.root, location, text, note, children⟩) := by
    refine .bind ((lowerFunctions_reflects items resolved firstTemporary).imp
      fun functions middle reflect => ?_)
    refine .bind ((lowerItems_reflects items resolved middle).imp
      fun main _ reflects => .pure ⟨?_, reflect, reflects⟩)
    simp only [Program.fileNames, outline, List.map_append, ← strings, ← globals,
      List.filterMap_filterMap]
    rfl
  exact code

theorem program_reflects {root : Tree} (shaped : root.IsShaped) (isRoot : root.kind = .root)
    (accepted : (analyze root).2.diagnostics.hasErrors = false) :
    ReflectsProgram root.program (outline root) := by
  have same := (analyze_follows False root False.elim).1
  have sameKind := (kind_analyze root).trans isRoot
  rcases events_of_accepted accepted with ⟨resolved, placed⟩
  rw [← outline_congr same]
  exact generate_reflects (shaped.congr same) sameKind resolved placed

end Oil

end OcLang
