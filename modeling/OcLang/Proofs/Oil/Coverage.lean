import OcLang.Proofs.Oil.Reflection.Files

namespace OcLang

open Lexical

/-! # Declared before they are mentioned

A variable of a function or block is in scope only behind its declaration, and the
code declares it there. That is not so for names of the file, which may be those of
functions, and for variables that are declared where no lines are generated. -/

namespace Oil

def Lined (hidden : Variable → Prop) (known : List Variable) (context : Context) : Prop :=
  ∀ held : Variable, held.scope ∈ context.enclosing → held.IsDeclared context.declared →
    hidden held ∨ held ∈ known

def IsLocal (hidden : Variable → Prop) (held : Variable) : Prop :=
  held.scope ≠ 0 ∧ ¬hidden held

structure Covers (hidden : Variable → Prop) (known : List Variable) (marks : List Mark)
    (later : Context) : Prop where
  covered : Covered (IsLocal hidden) known marks
  lined : Lined hidden (known ++ declaredMarks marks) later

section

variable {hidden : Variable → Prop} {known : List Variable} {context : Context}

theorem Covers.append {marks more : List Mark} {middle later : Context}
    (first : Covers hidden known marks middle)
    (second : Covers hidden (known ++ declaredMarks marks) more later) :
    Covers hidden known (marks ++ more) later where
  covered := (covered_append known).mpr ⟨first.covered, second.covered⟩
  lined := by
    rw [declaredMarks_append, ← List.append_assoc]
    exact second.lined

/-! ## Uses -/

theorem resolve?_isDeclared {name : String} {meant : Declaration}
    (resolved : context.resolve? name = some meant) :
    (meant.scope ∈ context.enclosing ∨ meant.scope = 0) ∧
      Variable.IsDeclared context.declared ⟨meant.scope, name⟩ := by
  rcases List.exists_of_findSome?_eq_some resolved with ⟨scope, member, latest⟩
  have same := List.find?_some latest
  have here : meant.scope = scope ∧ meant.name = name := by simpa using same
  refine ⟨?_, meant, List.mem_of_find?_eq_some latest, rfl, here.2⟩
  rw [here.1]
  exact (List.mem_append.mp member).imp id List.mem_singleton.mp

theorem covered_uses (lined : Lined hidden known context) {events : List Event} {tree : Tree}
    (subset : events ⊆ uses context tree) :
    Covered (IsLocal hidden) known (Mark.ofUses events) := by
  rw [covered_ofUses]
  intro held member counts
  rcases List.mem_filterMap.mp member with ⟨event, used, mentions⟩
  have still := (uses_still context tree event (subset used)).2
  cases event with
  | use place node =>
      have same : place = context := still place rfl
      subst same
      rcases Option.map_eq_some_iff.mp mentions with ⟨meant, resolved, rfl⟩
      rcases resolve?_isDeclared resolved with ⟨scope, declared⟩
      exact (lined _ (scope.resolve_right counts.1) declared).resolve_left counts.2
  | _ => contradiction

theorem effects_subset (context : Context) (tree : Tree) :
    effects context tree ⊆ uses context tree := by
  induction tree using Tree.expressionInduction with
  | call location text note callee arguments induction =>
      simp only [effects, uses, effectsAll_eq_flatMap, usesAll_eq_flatMap]
      refine List.subset_append_of_subset_left _ fun event member => ?_
      rcases List.mem_flatMap.mp member with ⟨argument, argumentMember, inside⟩
      exact List.mem_flatMap.mpr ⟨argument, argumentMember, induction argument argumentMember inside⟩
  | leaf node leaf =>
      rw [effects_leaf context leaf]
      split
      · exact List.nil_subset _
      · exact fun event member => member
  | unary operator location text note operand rest induction =>
      cases conversion : operator.isConversion with
      | true => simpa [effects, conversion, uses] using induction
      | false => simp [effects, conversion]
  | select location text note object field induction => exact induction
  | index location text note array position first second =>
      simp only [effects, uses]
      exact List.append_subset.mpr ⟨List.subset_append_of_subset_left _ first,
        List.subset_append_of_subset_right _ second⟩
  | _ => exact fun event member => member

/-! ## Statements -/

def Binds (known : List Variable) (events : List Event) : Prop :=
  ∀ held ∈ events.filterMap Event.bindsString?, held ∈ known

theorem Binds.append {events later : List Event} :
    Binds known (events ++ later) ↔ Binds known events ∧ Binds known later := by
  simp only [Binds, List.filterMap_append, List.forall_mem_append]

theorem Binds.mono {events : List Event} (binds : Binds known events) {more : List Variable} :
    Binds (known ++ more) events :=
  fun held member => List.mem_append_left _ (binds held member)

theorem Lined.later {events : List Event} {later : Context} (lined : Lined hidden known context)
    (ordered : context.Ordered) (traces : Traces context.declared events later.declared)
    (enclosing : later.enclosing = context.enclosing) {more : List Variable}
    (introduced : ∀ held ∈ events.filterMap Event.introduces?, held.scope ∈ context.enclosing →
      hidden held ∨ held ∈ known ++ more) : Lined hidden (known ++ more) later := by
  intro held member declared
  rw [enclosing] at member
  have inside : held.scope ≠ 0 := Nat.pos_iff_ne_zero.mp (ordered.enclosing_pos member)
  rcases isDeclared_or_introduced traces inside declared with before | here
  · exact (lined held member before).imp id (List.mem_append_left _)
  · exact introduced held here member

/-- A variable that needs no line of its own has one already. -/
theorem mem_known_of_existing {placement : Placement} {name : String} {value : Option Tree}
    (lined : Lined hidden known context) (placed : placement = .file → context.enclosing = [])
    (existing : (placement == .file || (context.replaced? (.variable value) name).isSome) = true)
    (counts : IsLocal hidden ⟨context.innermost, name⟩) : ⟨context.innermost, name⟩ ∈ known := by
  have inside : context.innermost ∈ context.enclosing := by
    have outside := counts.1
    unfold Context.innermost at outside ⊢
    cases enclosing : context.enclosing with
    | nil => simp [enclosing] at outside
    | cons scope outer => simp
  cases placement with
  | file => simp [placed rfl] at inside
  | nested =>
      have replaces : (context.replaced? (.variable value) name).isSome = true := by
        simpa using existing
      exact (lined _ inside (isDeclared_of_replaced? replaces)).resolve_left counts.2

theorem declarationMarks_covered {placement : Placement} (lined : Lined hidden known context)
    (placed : placement = .file → context.enclosing = []) (name : Tree) (value : Option Tree) :
    Covered (IsLocal hidden) known (declarationMarks context placement name value) := by
  have existing : (placement == .file ||
      (context.replaced? (.variable value) name.text).isSome) = true →
        IsLocal hidden ⟨context.innermost, name.text⟩ → ⟨context.innermost, name.text⟩ ∈ known :=
    mem_known_of_existing lined placed
  unfold declarationMarks
  dsimp only
  split
  · split <;> trivial
  · split
    · split
      · rename_i replaces
        exact ⟨existing (by simp [replaces]), trivial⟩
      · trivial
    · refine (covered_append known).mpr ⟨covered_uses lined fun event member => member, ?_⟩
      rw [declaredMarks_ofUses, List.append_nil]
      split
      · rename_i exists_
        exact ⟨existing exists_, trivial⟩
      · trivial

theorem declarationMarks_lined {placement : Placement} {name : Tree} {value : Option Tree}
    (nested : placement = .nested) {held : Variable}
    (introduces : (Event.declaration context (.variable value) name).introduces? = some held) :
    (Event.declaration context (.variable value) name).bindsString? = some held ∨
      held ∈ declaredMarks (declarationMarks context placement name value) := by
  rcases introduces?_eq introduces with ⟨same, _, fresh⟩
  subst same nested
  rcases value with _ | value
  · right
    simp [declarationMarks, fresh, Context.scopeOf]
  · cases string : value.kind == .literal .string with
    | true =>
        left
        simp only [Event.bindsString?, string, if_true, introduces]
    | false =>
        right
        simp [declarationMarks, string, fresh, Context.scopeOf]

theorem simpleMarks_lined {node : Tree} {placement : Placement} (ordered : context.Ordered)
    (lined : Lined hidden known context)
    (placed : placement = .file → context.enclosing = [])
    (binds : Binds known (simpleEvents context node)) :
    Lined hidden (known ++ declaredMarks (simpleMarks context placement node))
      (afterSimple context node) := by
  refine lined.later ordered (simpleEvents_traces context node) (enclosing_afterSimple context node)
    fun held member scope => .inr ?_
  have nested : placement = .nested := by
    cases placement with
    | nested => rfl
    | file => simp [placed rfl] at scope
  rw [introductions_simple] at member
  split at member
  · rename_i declarator values isVariable children
    rcases Option.bind_eq_some_iff.mp (Option.mem_toList.mp member) with
      ⟨name, declared, introduces⟩
    rcases declarationMarks_lined nested introduces with bound | here
    · refine List.mem_append_left _ (binds held (List.mem_filterMap.mpr ⟨_, ?_, bound⟩))
      simp [simpleEvents, isVariable, children, declared]
    · refine List.mem_append_right _ ?_
      simpa [simpleMarks, isVariable, children, declared] using here
  · contradiction

theorem simpleMarks_covered {node : Tree} {placement : Placement} (lined : Lined hidden known context)
    (placed : placement = .file → context.enclosing = []) :
    Covered (IsLocal hidden) known (simpleMarks context placement node) := by
  unfold simpleMarks
  split
  · split
    · trivial
    · exact declarationMarks_covered lined placed _ _
  · exact covered_uses lined fun event member => member
  · exact covered_uses lined fun event member => member
  · trivial
  · trivial
  · trivial
  · split
    · trivial
    · exact covered_uses lined (effects_subset context node)

theorem statementsMarks_covers {trees : List Tree}
    (each : ∀ tree ∈ trees, ∀ {context : Context} {known : List Variable} {placement : Placement},
      context.Ordered → Lined hidden known context →
      (placement = .file → context.enclosing = []) → Binds known (events context tree) →
      (∀ held, .hide held ∈ statementMarks context placement tree → hidden held) →
        Covers hidden known (statementMarks context placement tree) (after context tree))
    (ordered : context.Ordered) (lined : Lined hidden known context)
    (binds : Binds known (eventsAll context trees))
    (hides : ∀ held, .hide held ∈ statementsMarks context trees → hidden held) :
    Covers hidden known (statementsMarks context trees) (afterAll context trees) := by
  induction trees generalizing context known with
  | nil => exact ⟨trivial, by simpa [statementsMarks, afterAll] using lined⟩
  | cons tree rest induction =>
      simp only [eventsAll, Binds.append] at binds
      have nested : Placement.nested = .file → context.enclosing = [] := by simp
      have first := each tree (by simp) ordered lined nested binds.1
        fun held member => hides held (List.mem_append_left _ member)
      exact first.append (induction (fun tree member => each tree (by simp [member]))
        (precedes_after tree ordered).ordered first.lined binds.2.mono
        fun held member => hides held (List.mem_append_right _ member))

/-- The lines of a statement declare its variables before they mention them. -/
theorem statementMarks_covers {tree : Tree} {placement : Placement} (ordered : context.Ordered)
    (lined : Lined hidden known context)
    (placed : placement = .file → context.enclosing = [])
    (binds : Binds known (events context tree))
    (hides : ∀ held, .hide held ∈ statementMarks context placement tree → hidden held) :
    Covers hidden known (statementMarks context placement tree) (after context tree) := by
  induction tree using Tree.statementInduction generalizing context known placement with
  | block location text note children induction =>
      have inner : Lined hidden known context.enter := by
        intro held member declared
        rcases List.mem_cons.mp member with new | outer
        · rcases declared with ⟨declaration, earlier, sameScope, _⟩
          have opened := ordered.known declaration earlier
          omega
        · exact lined held outer declared
      have children := statementsMarks_covers (fun child member {context known placement} =>
        induction child member) ordered.enter inner binds hides
      refine ⟨children.covered, fun held member declared => ?_⟩
      refine children.lined held ?_ declared
      rw [enclosing_afterAll]
      exact List.mem_cons_of_mem _ member
  | control kind location text note test bodies control induction =>
      rw [events_control _ control, Binds.append] at binds
      rw [statementMarks_control control] at hides ⊢
      rw [after_control _ control]
      have first : Covers hidden known (Mark.ofUses (uses context test)) context :=
        ⟨covered_uses lined fun event member => member, by simpa using lined⟩
      exact first.append (statementsMarks_covers (fun child member {context known placement} =>
        induction child member) ordered first.lined binds.2.mono
        fun held member => hides held (List.mem_append_right _ member))
  | simple tree simple =>
      rw [events_simple _ simple] at binds
      rw [statementMarks_simple simple, after_simple _ simple]
      exact ⟨simpleMarks_covered lined placed, simpleMarks_lined ordered lined placed binds⟩
  | _ =>
      rw [statementMarks_hidden (by rfl) (by simp [Kind.isControl])] at hides ⊢
      refine ⟨covered_ofHidden known _, ?_⟩
      refine lined.later ordered (events_traces _ context) (enclosing_after _ context)
        fun held introduced _ => .inl (hides held ?_)
      exact List.mem_map_of_mem introduced

/-! ## The parts of an outline -/

theorem lined_of_file (file : context.enclosing = []) : Lined hidden known context := by
  intro held member
  simp [file] at member

theorem entryMarks_covered {items : List Tree} (ordered : context.Ordered)
    (file : context.enclosing = []) (binds : Binds known (eventsAll context items))
    (hides : ∀ held, .hide held ∈ entryMarks context items → hidden held) :
    Covered (IsLocal hidden) known (entryMarks context items) := by
  induction items generalizing context known with
  | nil => trivial
  | cons item rest induction =>
      simp only [eventsAll, Binds.append] at binds
      unfold entryMarks at hides ⊢
      have others {more : List Variable} :
          Covered (IsLocal hidden) (known ++ more) (entryMarks (after context item) rest) :=
        induction (precedes_after item ordered).ordered (by rw [enclosing_after, file])
          binds.2.mono fun held member => hides held (List.mem_append_right _ member)
      refine (covered_append known).mpr ⟨?_, others⟩
      split
      · trivial
      · rename_i statement
        rw [if_neg statement] at hides
        exact (statementMarks_covers ordered (lined_of_file file) (fun _ => file) binds.1
          fun held member => hides held (List.mem_append_left _ member)).covered

theorem introductions_parameters (parameters : List Tree) (context : Context) :
    ∀ held ∈ (parameterEvents context parameters).filterMap Event.introduces?,
      held ∈ (parameters.filterMap Tree.declaredName?).map fun name =>
        Variable.mk context.innermost name.text := by
  induction parameters generalizing context with
  | nil => simp [parameterEvents]
  | cons declarator rest induction =>
      cases declared : declarator.declaredName? with
      | none => simpa [parameterEvents, declared] using induction context
      | some name =>
          intro held member
          simp only [parameterEvents, declared, List.filterMap_cons, List.map_cons,
            List.mem_cons] at member ⊢
          have others := induction (context.declare .parameter name) held
          cases introduces : (Event.declaration context .parameter name).introduces? with
          | none => exact .inr (others (by simpa [introduces] using member))
          | some other =>
              simp only [introduces, List.mem_cons] at member
              rcases member with rfl | later
              · exact .inl (introduces?_eq introduces).1
              · exact .inr (others later)

/-- Behind the heading of a function only its parameters are in scope. -/
theorem heading_lined (ordered : context.Ordered) (outside : context.enclosing = [])
    (name parameters : Tree) (file : List Variable) :
    Lined hidden (file ++ (parameters.children.filterMap Tree.declaredName?).map fun parameter =>
        ⟨(context.heading name parameters).innermost, parameter.text⟩)
      (context.heading name parameters) := by
  have traces := parameterEvents_traces (context.declare .function name).enter parameters.children
  intro held member declared
  have scope : held.scope = context.opened + 1 := by simpa [outside] using member
  rcases isDeclared_or_introduced traces (by omega) declared with before | introduced
  · rcases before with ⟨declaration, earlier, sameScope, _⟩
    have opened : declaration.scope ≤ context.opened :=
      (ordered.declare .function name).known declaration earlier
    omega
  · have parameter := introductions_parameters _ _ held introduced
    have innermost : (context.heading name parameters).innermost =
        (context.declare .function name).enter.innermost := by
      simp [Context.innermost, Context.enter, Context.declare]
    rw [innermost]
    exact .inr (List.mem_append_right _ parameter)

theorem functionOutline?_covered {function : Tree} {later : List Tree} {file : List Variable}
    {outlined : FunctionOutline} (ordered : context.Ordered) (outside : context.enclosing = [])
    (found : functionOutline? context function later = some outlined)
    (isFunction : function.kind = .function) (binds : Binds file (events context function)) :
    Covered (IsLocal (.hide · ∈ outlined.body)) (file ++ outlined.parameters) outlined.body := by
  rcases function with ⟨_, location, text, note, children⟩
  subst isFunction
  unfold functionOutline? at found
  split at found
  · rename_i declarator parameters body form
    rcases Option.bind_eq_some_iff.mp found with ⟨name, declared, rest⟩
    split at rest
    · contradiction
    · cases rest
      simp only at form
      subst form
      rcases body with ⟨kind, place, word, bodyNote, statements⟩
      simp only [events, declared, bodyEvents, Binds.append] at binds
      exact (statementsMarks_covers (fun _ _ {_ _ _} => statementMarks_covers)
        (ordered.heading name parameters) (heading_lined ordered outside name parameters file)
        binds.2.mono fun _ member => member).covered
  · contradiction

theorem functionOutlines_covered {items : List Tree} {file : List Variable}
    (ordered : context.Ordered) (outside : context.enclosing = [])
    (binds : Binds file (eventsAll context items)) :
    ∀ function ∈ functionOutlines context items, Covered (IsLocal (.hide · ∈ function.body))
      (file ++ function.parameters) function.body := by
  induction items generalizing context with
  | nil => simp [functionOutlines]
  | cons item rest induction =>
      simp only [eventsAll, Binds.append] at binds
      simp only [functionOutlines, List.forall_mem_append]
      refine ⟨fun function member => ?_, induction (precedes_after item ordered).ordered
        (by rw [enclosing_after, outside]) binds.2⟩
      split at member
      · rename_i isFunction
        exact functionOutline?_covered ordered outside (Option.mem_toList.mp member)
          (by simpa using isFunction) binds.1
      · contradiction

end

/-! ## Programs -/

/-- Variables that may lack a line: those of the file and those that are declared in
a nested root or function. -/
def IsExposed (marks : List Mark) (held : Variable) : Prop :=
  held.scope = 0 ∨ .hide held ∈ marks

instance (marks : List Mark) : DecidablePred (IsExposed marks) :=
  fun _ => inferInstanceAs (Decidable (_ ∨ _))

/-- Every exposed variable that is mentioned is declared: at file scope, as a
parameter of the function, or by an earlier line of the same body. -/
structure Outline.DeclaresExposed (outline : Outline) : Prop where
  entry : Covered (IsExposed outline.entry) outline.file outline.entry
  functions : ∀ function ∈ outline.functions,
    Covered (IsExposed function.body) (outline.file ++ function.parameters) function.body

instance (outline : Outline) : Decidable outline.DeclaresExposed :=
  decidable_of_iff (_ ∧ _) ⟨fun ⟨entry, functions⟩ => ⟨entry, functions⟩,
    fun exposed => ⟨exposed.entry, exposed.functions⟩⟩

theorem covered_iff {known : List Variable} {marks all : List Mark}
    (covered : Covered (IsLocal (.hide · ∈ all)) known marks) :
    Covered (fun _ => True) known marks ↔ Covered (IsExposed all) known marks := by
  induction marks generalizing known with
  | nil => exact Iff.rfl
  | cons mark rest induction =>
      cases mark with
      | declare held => exact induction covered
      | hide held => exact induction covered
      | mention held =>
          simp only [Covered, induction covered.2]
          refine and_congr_left fun _ => ⟨fun always _ => always trivial, fun exposed _ => ?_⟩
          by_cases counts : IsExposed all held
          · exact exposed counts
          · exact covered.1 (not_or.mp counts)

theorem ReflectsProgram.declaresAll_iff {program : Program} {outline : Outline}
    (reflects : ReflectsProgram program outline) :
    program.DeclaresAll ↔ Covered (fun _ => True) outline.file outline.entry ∧
      ∀ function ∈ outline.functions,
        Covered (fun _ => True) (outline.file ++ function.parameters) function.body := by
  have entry := reflects.main.declaresFirst outline.file
  have functions : (∀ function ∈ program.functions,
        DeclaresFirst (program.fileNames ++ function.parameterNames) function.body) ↔
      ∀ function ∈ outline.functions,
        Covered (fun _ => True) (outline.file ++ function.parameters) function.body :=
    reflects.functions.forall_iff fun reflectsFunction => by
      rw [reflectsFunction.parameters, reflects.file, ← List.map_append,
        reflectsFunction.body.declaresFirst]
  rw [← functions, ← entry, ← reflects.file]
  exact ⟨fun all => ⟨all.main, all.functions⟩, fun parts => ⟨parts.1, parts.2⟩⟩

theorem outline_covered_iff {root : Tree} (isRoot : root.kind = .root) :
    (Covered (fun _ => True) (outline root).file (outline root).entry ∧
      ∀ function ∈ (outline root).functions,
        Covered (fun _ => True) ((outline root).file ++ function.parameters) function.body) ↔
      (outline root).DeclaresExposed := by
  rcases root with ⟨_, location, text, note, children⟩
  subst isRoot
  have binds : Binds (outline ⟨.root, location, text, note, children⟩).file
      (eventsAll {} children) := fun held member => List.mem_append_left _ member
  have entry := covered_iff (entryMarks_covered .start rfl binds fun _ member => member)
  have functions (function : FunctionOutline) (member : function ∈ functionOutlines {} children) :=
    covered_iff (functionOutlines_covered .start rfl binds function member)
  constructor
  · rintro ⟨main, each⟩
    exact ⟨entry.mp main, fun function member => (functions function member).mp (each function member)⟩
  · intro exposed
    exact ⟨entry.mpr exposed.entry, fun function member =>
      (functions function member).mpr (exposed.functions function member)⟩

end Oil

/-- The generated text declares all variables that it mentions just when it declares
the exposed ones. -/
theorem compile_declaresAll_iff {source text : String} {root : Tree} {warningsAsErrors : Bool}
    (loaded : Tree.load source = .ok root) (isRoot : root.kind = .root)
    (generated : (compile warningsAsErrors root).oil = some text) :
    text = root.program.render ∧
      (root.program.DeclaresAll ↔ (Oil.outline root).DeclaresExposed) := by
  have accepted := accepted_of_oil (Option.isSome_iff_exists.mpr ⟨text, generated⟩)
  have reflects := Oil.program_reflects (Tree.isShaped_of_load loaded) isRoot accepted
  refine ⟨oil_eq generated, ?_⟩
  rw [reflects.declaresAll_iff, Oil.outline_covered_iff isRoot]

def nesting : String :=
  "[\"root\",[0,0,0],\"t\",[
    [\"vardecl\",[0,1,0],\"\",[[\"int\",[0,1,0],\"int\",[[\"declid\",[0,1,4],\"x\"]]]]],
    [\"function\",[0,2,0],\"\",[
      [\"int\",[0,2,0],\"int\",[[\"declid\",[0,2,4],\"f\"]]],
      [\"paramlist\",[0,2,6],\"\",[[\"int\",[0,2,6],\"int\",[[\"declid\",[0,2,10],\"a\"]]]]],
      [\"block\",[0,2,13],\"\",[
        [\"vardecl\",[0,3,4],\"\",[
          [\"int\",[0,3,4],\"int\",[[\"declid\",[0,3,8],\"b\"]]],[\"ident\",[0,3,12],\"a\"]]],
        [\"block\",[0,4,4],\"\",[
          [\"vardecl\",[0,4,6],\"\",[
            [\"int\",[0,4,6],\"int\",[[\"declid\",[0,4,10],\"a\"]]],[\"ident\",[0,4,14],\"b\"]]],
          [\"assign\",[0,4,17],\"\",[[\"ident\",[0,4,17],\"x\"],[\"ident\",[0,4,21],\"a\"]]]]],
        [\"return\",[0,5,4],\"\",[[\"ident\",[0,5,11],\"b\"]]]]]]]]]"

set_option maxRecDepth 8192 in
theorem nesting_declaresAll : ∃ root text, Tree.load nesting = .ok root ∧
    root.kind = .root ∧ (compile false root).oil = some text ∧ root.program.DeclaresAll := by
  have accepted : ((Tree.load nesting).toOption.any fun root => root.kind == .root &&
      (compile false root).oil.isSome && decide (Oil.outline root).DeclaresExposed) = true := by
    rw [show nesting = String.ofList _ from rfl, Tree.load_ofList]
    decide +kernel
  rcases exists_compiled accepted with ⟨root, text, loaded, isRoot, generated, exposed⟩
  exact ⟨root, text, loaded, isRoot, generated,
    (compile_declaresAll_iff loaded isRoot generated).2.mpr (of_decide_eq_true exposed)⟩

def namingFunction : String :=
  "[\"root\",[0,0,0],\"t\",[
    [\"function\",[0,1,0],\"\",[
      [\"int\",[0,1,0],\"int\",[[\"declid\",[0,1,4],\"f\"]]],[\"paramlist\",[0,1,5]],
      [\"block\",[0,1,8],\"\",[[\"return\",[0,1,10],\"\",[[\"intcon\",[0,1,17],\"1\"]]]]]]],
    [\"vardecl\",[0,2,0],\"\",[
      [\"int\",[0,2,0],\"int\",[[\"declid\",[0,2,4],\"y\"]]],[\"ident\",[0,2,8],\"f\"]]]]]"

set_option maxRecDepth 4096 in
/-- The name is mentioned as that of a variable, which nothing declares. -/
theorem namingFunction_lacks : ∃ root text, Tree.load namingFunction = .ok root ∧
    root.kind = .root ∧ (compile false root).oil = some text ∧ ¬root.program.DeclaresAll := by
  have accepted : ((Tree.load namingFunction).toOption.any fun root => root.kind == .root &&
      (compile false root).oil.isSome && decide (¬root.program.DeclaresAll)) = true := by
    rw [show namingFunction = String.ofList _ from rfl, Tree.load_ofList]
    decide +kernel
  rcases exists_compiled accepted with ⟨root, text, loaded, isRoot, generated, lacking⟩
  exact ⟨root, text, loaded, isRoot, generated, of_decide_eq_true lacking⟩

end OcLang
