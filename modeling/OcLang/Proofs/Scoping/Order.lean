import OcLang.Proofs.Scoping.Lexical

namespace OcLang.Lexical

/-! # The order of declarations

At every place of a walk the declarations are just those of the events before it. -/

def Event.context? : Event → Option Context
  | .use context _ | .call context _ | .declaration context _ _ => some context
  | .misplaced _ => none

def Event.declaration? : Event → Option Declaration
  | .declaration context role name => some (context.declaration role name)
  | _ => none

def Traces (declared : List Declaration) : List Event → List Declaration → Prop
  | [], later => later = declared
  | event :: rest, later =>
      (∀ context ∈ event.context?, context.declared = declared) ∧
        Traces (event.declaration?.toList ++ declared) rest later

namespace Traces

variable {first middle last : List Declaration} {events more : List Event}

theorem refl (declared : List Declaration) : Traces declared [] declared := rfl

theorem append (traces : Traces first events middle) (tracesMore : Traces middle more last) :
    Traces first (events ++ more) last := by
  induction events generalizing first with
  | nil =>
      subst traces
      exact tracesMore
  | cons event rest induction => exact ⟨traces.1, induction traces.2⟩

/-- Events that declare nothing and happen at one place. -/
theorem of_still {context : Context} (still : ∀ event ∈ events, event.declaration? = none ∧
      ∀ place ∈ event.context?, place = context) :
    Traces context.declared events context.declared := by
  induction events with
  | nil => rfl
  | cons event rest induction =>
      have here := still event (by simp)
      refine ⟨fun place member => by rw [here.2 place member], ?_⟩
      rw [here.1]
      exact induction fun event member => still event (by simp [member])

theorem declaration (context : Context) (role : Role) (name : Tree) :
    Traces context.declared [.declaration context role name]
      (context.declare role name).declared :=
  ⟨by simp [Event.context?], rfl⟩

end Traces

/-! ## The walks -/

section

variable (context : Context)

theorem uses_still (tree : Tree) : ∀ event ∈ uses context tree,
    event.declaration? = none ∧ ∀ place ∈ event.context?, place = context := by
  induction tree using Tree.expressionInduction with
  | call location text note callee arguments induction =>
      simp only [uses, usesAll_eq_flatMap]
      intro event member
      rcases List.mem_append.mp member with inside | here
      · rcases List.mem_flatMap.mp inside with ⟨argument, argumentMember, inArgument⟩
        exact induction argument argumentMember event inArgument
      · rw [List.mem_singleton.mp here]
        simp [Event.declaration?, Event.context?]
  | leaf node leaf =>
      rw [uses_leaf context leaf]
      intro event member
      unfold leafEvents at member
      split at member
      · simp_all [Event.declaration?, Event.context?]
      · split at member <;> simp_all [Event.declaration?, Event.context?]
  | select location text note object field induction => exact induction
  | newArray location text note type size induction => exact induction
  | newString location text note size induction => exact induction
  | unary operator location text note operand rest induction => exact induction
  | _ =>
      rename_i first second
      simp only [uses]
      intro event member
      exact (List.mem_append.mp member).elim (first event) (second event)

theorem uses_traces (tree : Tree) :
    Traces context.declared (uses context tree) context.declared :=
  .of_still (uses_still context tree)

theorem parameterEvents_traces (parameters : List Tree) :
    Traces context.declared (parameterEvents context parameters)
      (context.declareParameters parameters).declared := by
  induction parameters generalizing context with
  | nil => rfl
  | cons declarator rest induction =>
      cases declared : declarator.declaredName? with
      | none => simpa [parameterEvents, Context.declareParameters, declared] using induction context
      | some name =>
          have here := Traces.declaration context .parameter name
          simpa [parameterEvents, Context.declareParameters, declared] using
            here.append (induction (context.declare .parameter name))

theorem headingEvents_traces (name parameters : Tree) :
    Traces context.declared (headingEvents context name parameters)
      (context.heading name parameters).declared :=
  (Traces.declaration context .function name).append
    (parameterEvents_traces (context.declare .function name).enter parameters.children)

theorem simpleEvents_traces (tree : Tree) :
    Traces context.declared (simpleEvents context tree) (afterSimple context tree).declared := by
  have structs : (context.storeStruct tree.children).declared = context.declared := by
    unfold Context.storeStruct
    split
    · rfl
    · split <;> rfl
  have ofUses := uses_traces context tree
  unfold simpleEvents
  split
  · rename_i declarator values isVariable children
    cases declared : declarator.declaredName? with
    | none => simpa [afterSimple, isVariable, children, declared] using .refl context.declared
    | some name =>
        have place : afterSimple context tree = context.declare (.variable values.head?) name := by
          simp [afterSimple, isVariable, children, declared]
        rw [place]
        refine .append ?_ (.declaration context _ name)
        cases values.head? with
        | none => exact .refl _
        | some value => simpa [usesAll] using uses_traces context value
  · rename_i value rest isReturn children
    simpa [afterSimple, isReturn, children] using uses_traces context value
  · rename_i children isStruct
    have place : (afterSimple context tree).declared = context.declared := by
      simpa [afterSimple, isStruct] using structs
    rw [place]
    refine .of_still fun event member => ?_
    unfold structEvents at member
    split at member <;> simp_all [Event.declaration?, Event.context?]
  · have place : afterSimple context tree = context := by
      unfold afterSimple
      split <;> simp_all
    rw [place]
    split
    · exact .refl _
    · exact ofUses

private theorem children_traces {trees : List Tree}
    (each : ∀ tree ∈ trees, ∀ context : Context,
      Traces context.declared (events context tree) (after context tree).declared)
    (context : Context) :
    Traces context.declared (eventsAll context trees) (afterAll context trees).declared := by
  induction trees generalizing context with
  | nil => rfl
  | cons tree rest induction =>
      exact (each tree (by simp) context).append
        (induction (fun tree member => each tree (by simp [member])) (after context tree))

theorem events_traces (tree : Tree) (context : Context) :
    Traces context.declared (events context tree) (after context tree).declared := by
  induction tree using Tree.statementInduction generalizing context with
  | root location text note children induction => exact children_traces induction context
  | block location text note children induction =>
      exact children_traces induction context.enter
  | function location text note declarator parameters rest induction =>
      cases declared : declarator.declaredName? with
      | none => simpa [events, after, declared] using .refl context.declared
      | some name =>
          simp only [events, after, declared]
          refine (headingEvents_traces context name parameters).append ?_
          rcases rest with _ | ⟨⟨kind, place, word, bodyNote, children⟩, rest⟩
          · exact .refl _
          · exact children_traces (induction _ List.mem_cons_self) (context.heading name parameters)
  | prototype location text note declarator parameters rest =>
      cases declared : declarator.declaredName? with
      | none => simpa [events, after, declared] using .refl context.declared
      | some name =>
          simp only [events, after, declared]
          exact headingEvents_traces context name parameters
  | control kind location text note test bodies control induction =>
      rw [events_control _ control, after_control _ control]
      exact (uses_traces context test).append (children_traces induction context)
  | simple tree simple =>
      rw [events_simple _ simple, after_simple _ simple]
      exact simpleEvents_traces context tree

theorem eventsAll_traces (trees : List Tree) :
    Traces context.declared (eventsAll context trees) (afterAll context trees).declared :=
  children_traces (fun tree _ => events_traces tree) context

end

end OcLang.Lexical
