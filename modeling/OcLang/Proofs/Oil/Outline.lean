import OcLang.Oil.Generate
import OcLang.Proofs.Scoping.Introductions

namespace OcLang

open Lexical

/-! # Outlines

Lexical scoping alone tells which variables the code of a tree has to mention and
to declare, and in which order. That is the outline of the code. -/

namespace Lexical.Event

def mention? : Event → Option Variable
  | .use context node => (context.resolve? node.text).map fun meant => ⟨meant.scope, node.text⟩
  | _ => none

theorem introduces?_bare (event : Event) : event.bare.introduces? = event.introduces? := by
  cases event with
  | declaration context role name =>
      cases role <;>
        simp [Event.bare, Role.bare, Event.introduces?, Role.isVariable, Context.replaced?,
          Context.scopeOf]
  | _ => rfl

def bindsString? (event : Event) : Option Variable :=
  match event with
  | .declaration _ (.variable (some value)) _ =>
      if value.kind == .literal .string then event.introduces? else none
  | _ => none

end Lexical.Event

namespace Oil

inductive Mark where
  | mention (held : Variable)
  | declare (held : Variable)
  /-- The variable is introduced where no lines are generated. -/
  | hide (held : Variable)
deriving DecidableEq, Repr

namespace Mark

def declared? : Mark → Option Variable
  | .declare held => some held
  | .mention _ | .hide _ => none

def ofUses (events : List Event) : List Mark :=
  (events.filterMap Event.mention?).map .mention

def ofHidden (events : List Event) : List Mark :=
  (events.filterMap Event.introduces?).map .hide

end Mark

def declaredMarks (marks : List Mark) : List Variable :=
  marks.filterMap Mark.declared?

def Covered (counts : Variable → Prop) (known : List Variable) : List Mark → Prop
  | [] => True
  | .mention held :: rest => (counts held → held ∈ known) ∧ Covered counts known rest
  | .declare held :: rest => Covered counts (known ++ [held]) rest
  | .hide _ :: rest => Covered counts known rest

instance decidableCovered (counts : Variable → Prop) [DecidablePred counts] :
    (known : List Variable) → (marks : List Mark) → Decidable (Covered counts known marks)
  | _, [] => inferInstanceAs (Decidable True)
  | known, .mention held :: rest =>
      have := decidableCovered counts known rest
      inferInstanceAs (Decidable ((counts held → held ∈ known) ∧ Covered counts known rest))
  | known, .declare held :: rest => decidableCovered counts (known ++ [held]) rest
  | known, .hide _ :: rest => decidableCovered counts known rest

section

variable {marks more : List Mark}

@[simp] theorem declaredMarks_nil : declaredMarks [] = [] := rfl

@[simp] theorem declaredMarks_mention (held : Variable) :
    declaredMarks (.mention held :: marks) = declaredMarks marks := rfl

@[simp] theorem declaredMarks_declare (held : Variable) :
    declaredMarks (.declare held :: marks) = held :: declaredMarks marks := rfl

@[simp] theorem declaredMarks_hide (held : Variable) :
    declaredMarks (.hide held :: marks) = declaredMarks marks := rfl

@[simp] theorem declaredMarks_append :
    declaredMarks (marks ++ more) = declaredMarks marks ++ declaredMarks more :=
  List.filterMap_append ..

@[simp] theorem declaredMarks_ofUses (events : List Event) :
    declaredMarks (Mark.ofUses events) = [] := by
  simp [declaredMarks, Mark.ofUses, Mark.declared?]

@[simp] theorem declaredMarks_ofHidden (events : List Event) :
    declaredMarks (Mark.ofHidden events) = [] := by
  simp [declaredMarks, Mark.ofHidden, Mark.declared?]

variable {counts : Variable → Prop}

theorem covered_append (known : List Variable) :
    Covered counts known (marks ++ more) ↔
      Covered counts known marks ∧ Covered counts (known ++ declaredMarks marks) more := by
  induction marks generalizing known with
  | nil => simp [Covered]
  | cons mark rest induction =>
      cases mark <;> simp [Covered, induction, and_assoc]

theorem covered_ofUses (known : List Variable) (events : List Event) :
    Covered counts known (Mark.ofUses events) ↔
      ∀ held ∈ events.filterMap Event.mention?, counts held → held ∈ known := by
  unfold Mark.ofUses
  induction events.filterMap Event.mention? with
  | nil => simp [Covered]
  | cons held rest induction => simp [Covered, induction]

theorem covered_ofHidden (known : List Variable) (events : List Event) :
    Covered counts known (Mark.ofHidden events) := by
  unfold Mark.ofHidden
  induction events.filterMap Event.introduces? with
  | nil => trivial
  | cons held rest induction => exact induction

end

/-! ## Statements -/

section

variable (context : Context)

mutual
def effects : Tree → List Event
  | ⟨.call, _, _, _, _ :: arguments⟩ => effectsAll arguments
  | ⟨.select, _, _, _, [object, _]⟩ => effects object
  | ⟨.index, _, _, _, [array, position]⟩ => effects array ++ effects position
  | ⟨.unary operator, location, text, note, operand :: rest⟩ =>
      if operator.isConversion then effects operand
      else uses context ⟨.unary operator, location, text, note, operand :: rest⟩
  | ⟨.identifier, _, _, _, _⟩ => []
  | node => uses context node

def effectsAll : List Tree → List Event
  | [] => []
  | tree :: rest => effects tree ++ effectsAll rest
end

/-- A string literal needs a line only where it is bound anew. -/
def declarationMarks (placement : Placement) (name : Tree) (value : Option Tree) : List Mark :=
  let held : Variable := ⟨context.innermost, name.text⟩
  let replaces := (context.replaced? (.variable value) name.text).isSome
  let existing := placement == .file || replaces
  match value with
  | none => if existing then [] else [.declare held]
  | some value =>
      if value.kind == .literal .string then if replaces then [.mention held] else []
      else
        Mark.ofUses (uses context value) ++
          [if existing then .mention held else .declare held]

def simpleMarks (placement : Placement) (node : Tree) : List Mark :=
  match node.kind, node.children with
  | .variable, declarator :: values =>
      match declarator.declaredName? with
      | none => []
      | some name => declarationMarks context placement name values.head?
  | .returnValue, value :: _ => Mark.ofUses (uses context value)
  | .call, _ => Mark.ofUses (uses context node)
  | .root, _ | .block, _ | .struct, _ => []
  | kind, _ => if kind.isSilent then [] else Mark.ofUses (effects context node)

end

mutual
/-- The outline of a statement. What a nested root or function holds leaves no
lines. -/
def statementMarks (context : Context) (placement : Placement) : Tree → List Mark
  | ⟨.block, _, _, _, children⟩ => statementsMarks context.enter children
  | ⟨.whileLoop, _, _, _, test :: bodies⟩ =>
      Mark.ofUses (uses context test) ++ statementsMarks context bodies
  | ⟨.ifThen, _, _, _, test :: bodies⟩ =>
      Mark.ofUses (uses context test) ++ statementsMarks context bodies
  | ⟨.ifElse, _, _, _, test :: bodies⟩ =>
      Mark.ofUses (uses context test) ++ statementsMarks context bodies
  | node =>
      if node.isCompound then Mark.ofHidden (events context node)
      else simpleMarks context placement node

def statementsMarks (context : Context) : List Tree → List Mark
  | [] => []
  | tree :: rest =>
      statementMarks context .nested tree ++ statementsMarks (after context tree) rest
end

/-! ## Files -/

structure FunctionOutline where
  parameters : List Variable
  body : List Mark

def functionOutline? (context : Context) (function : Tree) (later : List Tree) :
    Option FunctionOutline :=
  match function.children with
  | [declarator, parameters, body] =>
      declarator.declaredName?.bind fun name =>
        if later.any (definedName? · == some name.text) then none
        else
          let inside := context.heading name parameters
          some {
            parameters := (parameters.children.filterMap Tree.declaredName?).map fun parameter =>
              ⟨inside.innermost, parameter.text⟩
            body := statementsMarks inside body.children }
  | _ => none

def functionOutlines (context : Context) : List Tree → List FunctionOutline
  | [] => []
  | item :: rest =>
      (if item.kind == .function then
          functionOutline? context item (rest.filter (·.kind == .function))
        else none).toList ++ functionOutlines (after context item) rest

def itemVariable? (context : Context) (item : Tree) : Option Variable :=
  match item.kind, item.children with
  | .variable, declarator :: values =>
      if values.head?.any (·.kind == .literal .string) then none
      else
        declarator.declaredName?.bind fun name =>
          (Event.declaration context (.variable values.head?) name).introduces?
  | _, _ => none

def itemVariables (context : Context) : List Tree → List Variable
  | [] => []
  | item :: rest => (itemVariable? context item).toList ++ itemVariables (after context item) rest

def entryMarks (context : Context) : List Tree → List Mark
  | [] => []
  | item :: rest =>
      (if isDefinition item.kind then [] else statementMarks context .file item) ++
        entryMarks (after context item) rest

/-- The outline of a program. Strings are declared at file scope wherever they are
introduced, other variables where they stand directly in the file. -/
structure Outline where
  file : List Variable
  functions : List FunctionOutline
  entry : List Mark

def outline (root : Tree) : Outline where
  file := (events {} root).filterMap Event.bindsString? ++ itemVariables {} root.children
  functions := functionOutlines {} root.children
  entry := entryMarks {} root.children

/-! ## Notes do not matter -/

section

variable (context : Context)

theorem effects_leaf {node : Tree} (leaf : node.hasOperands = false) :
    effects context node = if node.kind = .identifier then [] else uses context node := by
  by_cases identifier : node.kind = .identifier
  · rcases node with ⟨kind, location, text, note, children⟩
    cases identifier
    simp [effects]
  · have other : ∀ location text note children,
        node ≠ ⟨.identifier, location, text, note, children⟩ := by
      rintro location text note children rfl
      exact identifier rfl
    rw [if_neg identifier]
    unfold Tree.hasOperands at leaf
    split at leaf <;> simp_all [effects]

theorem effectsAll_eq_flatMap (trees : List Tree) :
    effectsAll context trees = trees.flatMap (effects context) := by
  induction trees with
  | nil => rfl
  | cons tree rest induction => simp [effectsAll, induction]

theorem ofUses_bare (events : List Event) :
    Mark.ofUses (events.map Event.bare) = Mark.ofUses events := by
  have same : Event.mention? ∘ Event.bare = Event.mention? := by
    funext event
    cases event <;> simp [Event.bare, Event.mention?]
  rw [Mark.ofUses, List.filterMap_map, same, Mark.ofUses]

theorem ofHidden_bare (events : List Event) :
    Mark.ofHidden (events.map Event.bare) = Mark.ofHidden events := by
  have same : Event.introduces? ∘ Event.bare = Event.introduces? := funext Event.introduces?_bare
  rw [Mark.ofHidden, List.filterMap_map, same, Mark.ofHidden]

theorem effects_bare (tree : Tree) :
    effects context tree.bare = (effects context tree).map Event.bare := by
  have ofUses := uses_bare context
  induction tree using Tree.expressionInduction with
  | call location text note callee arguments induction =>
      simp only [Tree.bare_mk, List.map_cons, effects, effectsAll_eq_flatMap, List.flatMap_map,
        List.map_flatMap]
      rw [List.flatMap_def, List.flatMap_def, List.map_congr_left induction]
  | leaf node leaf =>
      rw [effects_leaf context leaf, effects_leaf context (by simpa using leaf), Tree.bare_kind]
      split
      · rfl
      · exact ofUses node
  | unary operator location text note operand rest induction =>
      have whole := ofUses ⟨.unary operator, location, text, note, operand :: rest⟩
      simp only [Tree.bare_mk, List.map_cons] at whole
      cases conversion : operator.isConversion <;>
        simp [Tree.bare_mk, effects, conversion, induction, whole]
  | select => simp_all [Tree.bare_mk, effects]
  | index => simp_all [Tree.bare_mk, effects]
  | _ =>
      simp only [Tree.bare_mk, List.map_cons, List.map_nil, effects]
      simp [uses, ofUses]

theorem declarationMarks_bare (placement : Placement) (name : Tree) (value : Option Tree) :
    declarationMarks context placement name.bare (value.map Tree.bare) =
      declarationMarks context placement name value := by
  cases value <;>
    simp [declarationMarks, Context.replaced?, Role.isVariable, Context.scopeOf, uses_bare,
      ofUses_bare]

theorem simpleMarks_bare (placement : Placement) (node : Tree) :
    simpleMarks context placement node.bare = simpleMarks context placement node := by
  have ofEffects := effects_bare context node
  have ofUses := uses_bare context node
  rcases node with ⟨kind, location, text, note, children⟩
  rw [Tree.bare_mk] at ofEffects ofUses ⊢
  rcases children with _ | ⟨first, rest⟩
  · cases kind <;> simp_all [simpleMarks, ofUses_bare]
  · cases kind with
    | «variable» =>
        cases declared : first.declaredName? with
        | none => simp [simpleMarks, declared]
        | some name =>
            simpa [simpleMarks, declared, List.head?_map] using
              declarationMarks_bare context placement name rest.head?
    | returnValue => simp [simpleMarks, uses_bare, ofUses_bare]
    | _ => simp_all [simpleMarks, ofUses_bare]

end

theorem statementsMarks_bare {trees : List Tree}
    (each : ∀ tree ∈ trees, ∀ context placement,
      statementMarks context placement tree.bare = statementMarks context placement tree)
    (context : Context) :
    statementsMarks context (trees.map Tree.bare) = statementsMarks context trees := by
  induction trees generalizing context with
  | nil => rfl
  | cons tree rest induction => simp_all [statementsMarks, after_bare]

theorem statementMarks_simple {tree : Tree} (simple : tree.isCompound = false) (context : Context)
    (placement : Placement) :
    statementMarks context placement tree = simpleMarks context placement tree := by
  have same := simple
  unfold Tree.isCompound at simple
  split at simple <;> simp_all [statementMarks]

theorem statementMarks_hidden {tree : Tree} (compound : tree.isCompound = true)
    (hidden : tree.kind ≠ .block ∧ tree.kind.isControl = false) (context : Context)
    (placement : Placement) :
    statementMarks context placement tree = Mark.ofHidden (events context tree) := by
  rcases tree with ⟨kind, location, text, note, children⟩
  cases kind <;> simp [Kind.isControl] at hidden <;> simp [statementMarks, compound]

theorem statementMarks_control {kind : Kind} (control : kind.isControl = true)
    (context : Context) (placement : Placement) (location : Location) (text : String) (note : Note)
    (test : Tree) (bodies : List Tree) :
    statementMarks context placement ⟨kind, location, text, note, test :: bodies⟩ =
      Mark.ofUses (uses context test) ++ statementsMarks context bodies := by
  cases kind <;> simp [Kind.isControl] at control <;> rfl

theorem statementMarks_bare (tree : Tree) (context : Context) (placement : Placement) :
    statementMarks context placement tree.bare = statementMarks context placement tree := by
  induction tree using Tree.statementInduction generalizing context placement with
  | block location text note children induction =>
      simp [Tree.bare_mk, statementMarks, statementsMarks_bare induction]
  | control kind location text note test bodies control induction =>
      simp [Tree.bare_mk, statementMarks_control control, statementsMarks_bare induction,
        uses_bare, ofUses_bare]
  | simple tree simple =>
      rw [statementMarks_simple simple, statementMarks_simple (by simpa using simple),
        simpleMarks_bare]
  | root | function | prototype =>
      rw [statementMarks_hidden (by rfl) (by simp [Kind.isControl]),
        statementMarks_hidden (by simp [Tree.isCompound]) (by simp [Kind.isControl]), events_bare,
        ofHidden_bare]

theorem bindsString?_bare (event : Event) : event.bare.bindsString? = event.bindsString? := by
  have same := event.introduces?_bare
  cases event with
  | declaration context role name =>
      rcases role with _ | _ | _ | value <;> simp_all [Event.bare, Role.bare, Event.bindsString?]
  | _ => rfl

theorem definedName?_bare (function : Tree) :
    definedName? function.bare = definedName? function := by
  rcases function with ⟨kind, location, text, note, _ | ⟨declarator, rest⟩⟩
  · rfl
  · simp [definedName?, Tree.bare_mk, Function.comp_def]

theorem functionOutline?_bare (context : Context) (function : Tree) (later : List Tree) :
    functionOutline? context function.bare (later.map Tree.bare) =
      functionOutline? context function later := by
  have sameNames : definedName? ∘ Tree.bare = definedName? := funext definedName?_bare
  rcases function with ⟨kind, location, text, note, children⟩
  rcases children with _ | ⟨declarator, _ | ⟨parameters, _ | ⟨body, _ | ⟨more, rest⟩⟩⟩⟩
  · rfl
  · rfl
  · rfl
  · have sameBody := statementsMarks_bare
      (fun tree (_ : tree ∈ body.children) => statementMarks_bare tree)
    have sameParameters : (parameters.children.map Tree.bare).filterMap Tree.declaredName? =
        (parameters.children.filterMap Tree.declaredName?).map Tree.bare := by
      rw [List.filterMap_map, List.map_filterMap]
      congr 1
      funext parameter
      simp
    cases declared : declarator.declaredName? with
    | none => simp [functionOutline?, Tree.bare_mk, declared]
    | some name =>
        simp [functionOutline?, Tree.bare_mk, declared, List.any_map, Function.comp_def,
          definedName?_bare, sameBody, sameParameters]
  · rfl

private theorem bare_functions (trees : List Tree) :
    (trees.map Tree.bare).filter (·.kind == .function) =
      (trees.filter (·.kind == .function)).map Tree.bare := by
  simp [List.filter_map, Function.comp_def]

theorem functionOutlines_bare (context : Context) (items : List Tree) :
    functionOutlines context (items.map Tree.bare) = functionOutlines context items := by
  induction items generalizing context with
  | nil => rfl
  | cons item rest induction =>
      simp [functionOutlines, induction, after_bare, bare_functions, functionOutline?_bare]

theorem itemVariables_bare (context : Context) (items : List Tree) :
    itemVariables context (items.map Tree.bare) = itemVariables context items := by
  have each : ∀ context item, itemVariable? context item.bare = itemVariable? context item := by
    rintro context ⟨kind, location, text, note, _ | ⟨declarator, values⟩⟩
    · cases kind <;> rfl
    · cases kind with
      | «variable» =>
          cases declared : declarator.declaredName? with
          | none => simp [itemVariable?, Tree.bare_mk, declared]
          | some name =>
              have same :=
                Event.introduces?_bare (.declaration context (.variable values.head?) name)
              simp only [Event.bare, Role.bare] at same
              simp [itemVariable?, Tree.bare_mk, declared, List.head?_map, Option.any_map, same]
      | _ => rfl
  induction items generalizing context with
  | nil => rfl
  | cons item rest induction => simp [itemVariables, induction, after_bare, each]

theorem entryMarks_bare (context : Context) (items : List Tree) :
    entryMarks context (items.map Tree.bare) = entryMarks context items := by
  induction items generalizing context with
  | nil => rfl
  | cons item rest induction => simp [entryMarks, induction, after_bare, statementMarks_bare]

theorem outline_congr {tree other : Tree} (same : other.bare = tree.bare) :
    outline other = outline tree := by
  have bare : ∀ tree : Tree, outline tree.bare = outline tree := by
    intro tree
    have sameStrings : Event.bindsString? ∘ Event.bare = Event.bindsString? :=
      funext bindsString?_bare
    have sameFile : (events {} tree.bare).filterMap Event.bindsString? =
        (events {} tree).filterMap Event.bindsString? := by
      rw [events_bare, List.filterMap_map, sameStrings]
    simp [outline, sameFile, itemVariables_bare, functionOutlines_bare, entryMarks_bare]
  rw [← bare other, same, bare]

end Oil

end OcLang
