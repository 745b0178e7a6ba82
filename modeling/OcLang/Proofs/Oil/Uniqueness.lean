import OcLang.Proofs.Oil.Reflection.Files

namespace OcLang

open Lexical

/-! # Declared once

Inside of functions and blocks a variable is introduced once, and so declared once.
Two parameters may have one name, however, and a function at file scope parts the
variables of its name before and behind it. -/

namespace Oil

theorem nodup_map_spelling {declared : List Variable} :
    (declared.map Variable.spelling).Nodup ↔ declared.Nodup := by
  rw [List.Nodup, List.pairwise_map]
  constructor
  · exact List.Pairwise.imp fun apart same => apart (by rw [same])
  · exact List.Pairwise.imp fun apart same => apart (Variable.spelling_injective same)

theorem nodup_iff_file {declared : List Variable}
    (inner : (declared.filter (·.scope ≠ 0)).Nodup) :
    declared.Nodup ↔ (declared.filter (·.scope = 0)).Nodup := by
  induction declared with
  | nil => simp
  | cons held rest induction =>
      by_cases file : held.scope = 0
      · simp_all
      · simp_all

/-! ## Declared variables are introduced -/

theorem declared_sublist_declaration (context : Context) (placement : Placement) (name : Tree)
    (value : Option Tree) :
    (declaredMarks (declarationMarks context placement name value)).Sublist
      (Event.declaration context (.variable value) name).introduces?.toList := by
  cases replaces : context.replaced? (.variable value) name.text <;> cases placement <;>
    cases value <;>
      simp [declarationMarks, Event.introduces?, Role.isVariable, Context.scopeOf, replaces]
  all_goals split <;> simp

theorem declared_sublist_simple (context : Context) (placement : Placement) (node : Tree) :
    (declaredMarks (simpleMarks context placement node)).Sublist
      ((simpleEvents context node).filterMap Event.introduces?) := by
  rw [introductions_simple]
  unfold simpleMarks
  split
  · rename_i declarator values isVariable children
    cases declared : declarator.declaredName? with
    | none => exact List.nil_sublist _
    | some name =>
        simp only [isVariable, children, declared, Option.bind_some]
        exact declared_sublist_declaration context placement name values.head?
  · simp
  · simp
  · exact List.nil_sublist _
  · exact List.nil_sublist _
  · exact List.nil_sublist _
  · split <;> simp

theorem declared_sublist_children {trees : List Tree}
    (each : ∀ tree ∈ trees, ∀ context placement,
      (declaredMarks (statementMarks context placement tree)).Sublist
        ((events context tree).filterMap Event.introduces?)) (context : Context) :
    (declaredMarks (statementsMarks context trees)).Sublist
      ((eventsAll context trees).filterMap Event.introduces?) := by
  induction trees generalizing context with
  | nil => exact .slnil
  | cons tree rest induction =>
      simp only [statementsMarks, eventsAll, declaredMarks_append, List.filterMap_append]
      exact (each tree (by simp) context .nested).append
        (induction (fun tree member => each tree (by simp [member])) (after context tree))

theorem declared_sublist (tree : Tree) (context : Context) (placement : Placement) :
    (declaredMarks (statementMarks context placement tree)).Sublist
      ((events context tree).filterMap Event.introduces?) := by
  induction tree using Tree.statementInduction generalizing context placement with
  | block location text note children induction =>
      exact declared_sublist_children induction context.enter
  | control kind location text note test bodies control induction =>
      rw [statementMarks_control control, events_control _ control, declaredMarks_append,
        declaredMarks_ofUses, List.filterMap_append]
      exact (declared_sublist_children induction context).trans (List.sublist_append_right _ _)
  | simple tree simple =>
      rw [statementMarks_simple simple, events_simple _ simple]
      exact declared_sublist_simple context placement tree
  | _ =>
      rw [statementMarks_hidden (by rfl) (by simp [Kind.isControl]), declaredMarks_ofHidden]
      exact List.nil_sublist _

theorem declared_sublist_all (trees : List Tree) (context : Context) :
    (declaredMarks (statementsMarks context trees)).Sublist
      ((eventsAll context trees).filterMap Event.introduces?) :=
  declared_sublist_children (fun tree _ => declared_sublist tree) context

/-! ## The parts of an outline -/

theorem declared_sublist_items (items : List Tree) (context : Context) :
    (declaredMarks (entryMarks context items)).Sublist
      ((eventsAll context items).filterMap Event.introduces?) := by
  induction items generalizing context with
  | nil => exact .slnil
  | cons item rest induction =>
      simp only [entryMarks, eventsAll, declaredMarks_append, List.filterMap_append]
      refine .append ?_ (induction (after context item))
      split
      · exact List.nil_sublist _
      · exact declared_sublist item context .file

theorem bound_sublist (events : List Event) :
    (events.filterMap Event.bindsString?).Sublist (events.filterMap Event.introduces?) := by
  induction events with
  | nil => exact .slnil
  | cons event rest induction =>
      have here : event.bindsString? = none ∨ event.bindsString? = event.introduces? := by
        unfold Event.bindsString?
        split
        · split
          · exact .inr rfl
          · exact .inl rfl
        · exact .inl rfl
      cases introduces : event.introduces? with
      | none =>
          have nothing : event.bindsString? = none := here.elim id (·.trans introduces)
          simpa [introduces, nothing] using induction
      | some held =>
          rcases here with nothing | same
          · simpa [introduces, nothing] using induction.cons held
          · simpa [introduces, same] using induction.cons_cons held

/-- Lines at file scope that are not for strings are for variables of the file. -/
theorem itemVariables_scope {context : Context} (file : context.enclosing = []) (items : List Tree) :
    ∀ held ∈ itemVariables context items, held.scope = 0 := by
  induction items generalizing context with
  | nil => simp [itemVariables]
  | cons item rest induction =>
      simp only [itemVariables, List.forall_mem_append]
      refine ⟨fun held member => ?_, induction (by rw [enclosing_after, file])⟩
      unfold itemVariable? at member
      split at member
      · split at member
        · contradiction
        · rcases Option.bind_eq_some_iff.mp (Option.mem_toList.mp member) with
            ⟨name, _, introduces⟩
          rcases introduces?_eq introduces with ⟨rfl, _⟩
          simp [Context.scopeOf, Context.innermost, file]
      · contradiction

theorem isDeclared_later {declared later : List Declaration} {events : List Event}
    (traces : Traces declared events later) {held : Variable} (known : held.IsDeclared declared) :
    held.IsDeclared later := by
  induction events generalizing declared with
  | nil =>
      subst traces
      exact known
  | cons event rest induction =>
      rcases known with ⟨declaration, member, same⟩
      exact induction traces.2 ⟨declaration, List.mem_append_right _ member, same⟩

theorem parameters_declared (parameters : List Tree) (context : Context) :
    ∀ name ∈ parameters.filterMap Tree.declaredName?,
      Variable.IsDeclared (context.declareParameters parameters).declared
        ⟨context.innermost, name.text⟩ := by
  induction parameters generalizing context with
  | nil => simp
  | cons declarator rest induction =>
      cases declared : declarator.declaredName? with
      | none => simpa [Context.declareParameters, declared] using induction context
      | some name =>
          simp only [List.filterMap_cons, declared, Context.declareParameters, List.forall_mem_cons]
          refine ⟨?_, induction (context.declare .parameter name)⟩
          refine isDeclared_later (parameterEvents_traces (context.declare .parameter name) rest) ?_
          exact ⟨context.declaration .parameter name, List.mem_cons_self, rfl, rfl⟩

theorem function_nodup {context : Context} (only : OnlyVariables context.declared)
    {function : Tree} {later : List Tree} {outlined : FunctionOutline}
    (found : functionOutline? context function later = some outlined) :
    (outlined.parameters ++ declaredMarks outlined.body).Nodup ↔ outlined.parameters.Nodup := by
  unfold functionOutline? at found
  split at found
  · rename_i declarator parameters body _
    rcases Option.bind_eq_some_iff.mp found with ⟨name, _, rest⟩
    split at rest
    · contradiction
    · cases rest
      have inside : (context.heading name parameters).innermost ≠ 0 := by simp [Context.innermost]
      have onlyInside : OnlyVariables (context.heading name parameters).declared :=
        only.later (headingEvents_traces context name parameters)
      have traces := eventsAll_traces (context.heading name parameters) body.children
      have sublist := declared_sublist_all body.children (context.heading name parameters)
      have away := inside_eventsAll body.children inside
      have bodyNodup : (declaredMarks
          (statementsMarks (context.heading name parameters) body.children)).Nodup := by
        have once := introductions_nodup traces onlyInside
        rw [List.filter_eq_self.mpr fun held member => by simpa using away held member] at once
        exact sublist.nodup once
      have known := parameters_declared parameters.children
        (context.declare .function name).enter
      have apart : ∀ parameter ∈ (parameters.children.filterMap Tree.declaredName?).map
          (fun parameter => Variable.mk (context.heading name parameters).innermost parameter.text),
          ∀ held ∈ declaredMarks
            (statementsMarks (context.heading name parameters) body.children),
            parameter ≠ held := by
        rintro parameter isParameter held member rfl
        rcases List.mem_map.mp isParameter with ⟨declared, listed, rfl⟩
        have introduced := sublist.subset member
        refine introductions_new traces onlyInside _ introduced (away _ introduced) ?_
        have here := known declared listed
        have sameScope : (context.heading name parameters).innermost =
            (context.declare .function name).enter.innermost := by
          simp [Context.innermost, Context.enter, Context.declare]
        rw [sameScope]
        exact here
      simp only [List.nodup_append, bodyNodup, true_and]
      exact ⟨fun parts => parts.1, fun nodup => ⟨nodup, apart⟩⟩
  · contradiction

theorem functions_nodup {context : Context} (only : OnlyVariables context.declared)
    (items : List Tree) : ∀ function ∈ functionOutlines context items,
      (function.parameters ++ declaredMarks function.body).Nodup ↔ function.parameters.Nodup := by
  induction items generalizing context with
  | nil => simp [functionOutlines]
  | cons item rest induction =>
      simp only [functionOutlines, List.forall_mem_append]
      refine ⟨fun function member => ?_, induction (only.later (events_traces item context))⟩
      split at member
      · exact function_nodup only (Option.mem_toList.mp member)
      · contradiction

/-! ## Programs -/

/-- No two parameters of a function have the same name, and no variable is introduced
in the file again: neither for a line at file scope nor for one of the entry point. -/
structure Outline.IntroducesOnce (outline : Outline) : Prop where
  parameters : ∀ function ∈ outline.functions, function.parameters.Nodup
  file : (outline.file.filter (·.scope = 0)).Nodup
  entry : ((declaredMarks outline.entry).filter (·.scope = 0)).Nodup

instance (outline : Outline) : Decidable outline.IntroducesOnce :=
  decidable_of_iff (_ ∧ _ ∧ _) ⟨fun ⟨parameters, file, entry⟩ => ⟨parameters, file, entry⟩,
    fun once => ⟨once.parameters, once.file, once.entry⟩⟩

theorem ReflectsProgram.declaresOnce_iff {program : Program} {outline : Outline}
    (reflects : ReflectsProgram program outline) :
    program.DeclaresOnce ↔ outline.file.Nodup ∧ (declaredMarks outline.entry).Nodup ∧
      ∀ function ∈ outline.functions,
        (function.parameters ++ declaredMarks function.body).Nodup := by
  have file : program.fileNames.Nodup ↔ outline.file.Nodup := by
    rw [reflects.file, nodup_map_spelling]
  have entry : (declaredNames program.main).Nodup ↔ (declaredMarks outline.entry).Nodup := by
    rw [reflects.main.declared, nodup_map_spelling]
  have functions : (∀ function ∈ program.functions,
        (function.parameterNames ++ declaredNames function.body).Nodup) ↔
      ∀ function ∈ outline.functions,
        (function.parameters ++ declaredMarks function.body).Nodup :=
    reflects.functions.forall_iff fun reflectsFunction => by
      rw [reflectsFunction.parameters, reflectsFunction.body.declared, ← List.map_append,
        nodup_map_spelling]
  rw [← file, ← entry, ← functions]
  exact ⟨fun once => ⟨once.file, once.main, once.functions⟩, fun ⟨file, main, functions⟩ =>
    ⟨file, functions, main⟩⟩

theorem outline_nodup_iff {root : Tree} (isRoot : root.kind = .root) :
    ((outline root).file.Nodup ∧ (declaredMarks (outline root).entry).Nodup ∧
      ∀ function ∈ (outline root).functions,
        (function.parameters ++ declaredMarks function.body).Nodup) ↔
      (outline root).IntroducesOnce := by
  rcases root with ⟨_, location, text, note, children⟩
  subst isRoot
  have only : OnlyVariables ({} : Context).declared := by simp [OnlyVariables]
  have once := introductions_nodup (eventsAll_traces {} children) only
  have file : ((outline ⟨.root, location, text, note, children⟩).file.filter
      (·.scope ≠ 0)).Nodup := by
    have items : (itemVariables {} children).filter (·.scope ≠ 0) = [] :=
      List.filter_eq_nil_iff.mpr fun held member => by
        simpa using itemVariables_scope rfl children held member
    simp only [outline, List.filter_append, items, List.append_nil]
    exact ((bound_sublist (eventsAll {} children)).filter _).nodup once
  have entry : ((declaredMarks (outline ⟨.root, location, text, note, children⟩).entry).filter
      (·.scope ≠ 0)).Nodup :=
    ((declared_sublist_items children {}).filter _).nodup once
  rw [nodup_iff_file file, nodup_iff_file entry]
  have functions := functions_nodup only children
  constructor
  · rintro ⟨file, entry, each⟩
    exact ⟨fun function member => (functions function member).mp (each function member), file, entry⟩
  · intro once
    exact ⟨once.file, once.entry, fun function member =>
      (functions function member).mpr (once.parameters function member)⟩

end Oil

/-- The generated text declares nothing twice just when no parameter has the name of
another one and the file introduces no variable again. -/
theorem compile_declaresOnce_iff {source text : String} {root : Tree} {warningsAsErrors : Bool}
    (loaded : Tree.load source = .ok root) (isRoot : root.kind = .root)
    (generated : (compile warningsAsErrors root).oil = some text) :
    text = root.program.render ∧
      (root.program.DeclaresOnce ↔ (Oil.outline root).IntroducesOnce) := by
  have accepted := accepted_of_oil (Option.isSome_iff_exists.mpr ⟨text, generated⟩)
  have reflects := Oil.program_reflects (Tree.isShaped_of_load loaded) isRoot accepted
  refine ⟨oil_eq generated, ?_⟩
  rw [reflects.declaresOnce_iff, Oil.outline_nodup_iff isRoot]

def takingOver : String :=
  "[\"root\",[0,0,0],\"t\",[
    [\"function\",[0,1,0],\"\",[
      [\"int\",[0,1,0],\"int\",[[\"declid\",[0,1,4],\"f\"]]],
      [\"paramlist\",[0,1,6],\"\",[[\"int\",[0,1,6],\"int\",[[\"declid\",[0,1,10],\"a\"]]]]],
      [\"block\",[0,1,13],\"\",[[\"vardecl\",[0,2,4],\"\",[
        [\"int\",[0,2,4],\"int\",[[\"declid\",[0,2,8],\"a\"]]],[\"intcon\",[0,2,12],\"1\"]]]]]]],
    [\"vardecl\",[0,3,0],\"\",[[\"int\",[0,3,0],\"int\",[[\"declid\",[0,3,4],\"x\"]]]]],
    [\"vardecl\",[0,4,0],\"\",[[\"int\",[0,4,0],\"int\",[[\"declid\",[0,4,4],\"x\"]]]]]]]"

set_option maxRecDepth 4096 in
theorem takingOver_declaresOnce : ∃ root text, Tree.load takingOver = .ok root ∧
    root.kind = .root ∧ (compile false root).oil = some text ∧ root.program.DeclaresOnce := by
  have accepted : ((Tree.load takingOver).toOption.any fun root => root.kind == .root &&
      (compile false root).oil.isSome && decide (Oil.outline root).IntroducesOnce) = true := by
    rw [show takingOver = String.ofList _ from rfl, Tree.load_ofList]
    decide +kernel
  rcases exists_compiled accepted with ⟨root, text, loaded, isRoot, generated, once⟩
  exact ⟨root, text, loaded, isRoot, generated,
    (compile_declaresOnce_iff loaded isRoot generated).2.mpr (of_decide_eq_true once)⟩

def interrupted : String :=
  "[\"root\",[0,0,0],\"t\",[
    [\"vardecl\",[0,1,0],\"\",[[\"int\",[0,1,0],\"int\",[[\"declid\",[0,1,4],\"x\"]]]]],
    [\"prototype\",[0,2,0],\"\",[
      [\"int\",[0,2,0],\"int\",[[\"declid\",[0,2,4],\"x\"]]],[\"paramlist\",[0,2,5]]]],
    [\"vardecl\",[0,3,0],\"\",[[\"int\",[0,3,0],\"int\",[[\"declid\",[0,3,4],\"x\"]]]]]]]"

set_option maxRecDepth 4096 in
/-- The second variable is declared again. -/
theorem interrupted_declaresTwice : ∃ root text, Tree.load interrupted = .ok root ∧
    root.kind = .root ∧ (compile false root).oil = some text ∧ ¬root.program.DeclaresOnce := by
  have accepted : ((Tree.load interrupted).toOption.any fun root => root.kind == .root &&
      (compile false root).oil.isSome && decide (¬root.program.DeclaresOnce)) = true := by
    rw [show interrupted = String.ofList _ from rfl, Tree.load_ofList]
    decide +kernel
  rcases exists_compiled accepted with ⟨root, text, loaded, isRoot, generated, twice⟩
  exact ⟨root, text, loaded, isRoot, generated, of_decide_eq_true twice⟩

end OcLang
