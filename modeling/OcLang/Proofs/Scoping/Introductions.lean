import OcLang.Proofs.Scoping.Order

namespace OcLang.Lexical

/-! # Introductions

A declaration introduces its variable unless it takes over from another one. In
every scope but the one of the file a variable is introduced once, for nothing
else is declared there. -/

structure Variable where
  scope : Nat
  name : String
deriving DecidableEq, Repr

def Event.introduces? : Event → Option Variable
  | .declaration context role name =>
      if role.isVariable && (context.replaced? role name.text).isNone then
        some ⟨context.scopeOf role, name.text⟩
      else none
  | _ => none

theorem introduces?_eq {context : Context} {role : Role} {name : Tree} {held : Variable}
    (introduces : (Event.declaration context role name).introduces? = some held) :
    held = ⟨context.scopeOf role, name.text⟩ ∧ role.isVariable = true ∧
      context.replaced? role name.text = none := by
  simp only [Event.introduces?, Bool.and_eq_true, Option.isNone_iff_eq_none] at introduces
  split at introduces
  · rename_i introducing
    cases introduces
    exact ⟨rfl, introducing⟩
  · contradiction

def OnlyVariables (declared : List Declaration) : Prop :=
  ∀ declaration ∈ declared, declaration.scope = 0 ∨ declaration.isVariable = true

def Variable.IsDeclared (declared : List Declaration) (held : Variable) : Prop :=
  ∃ declaration ∈ declared, declaration.scope = held.scope ∧ declaration.name = held.name

theorem OnlyVariables.next {declared : List Declaration} (only : OnlyVariables declared)
    (event : Event) : OnlyVariables (event.declaration?.toList ++ declared) := by
  intro declaration member
  rcases List.mem_append.mp member with here | earlier
  · cases event with
    | declaration context role name =>
        rw [show declaration = context.declaration role name by
          simpa [Event.declaration?] using here]
        cases role with
        | function => exact .inl rfl
        | _ => exact .inr rfl
    | _ => simp [Event.declaration?] at here
  · exact only declaration earlier

theorem OnlyVariables.later {declared later : List Declaration} {events : List Event}
    (only : OnlyVariables declared) (traces : Traces declared events later) :
    OnlyVariables later := by
  induction events generalizing declared with
  | nil =>
      subst traces
      exact only
  | cons event rest induction => exact induction (only.next event) traces.2

/-- What is introduced inside of functions and blocks has not been declared. -/
theorem introduces?_isNew {event : Event} {declared : List Declaration} {held : Variable}
    (place : ∀ context ∈ event.context?, context.declared = declared)
    (only : OnlyVariables declared) (introduces : event.introduces? = some held)
    (inside : held.scope ≠ 0) : ¬held.IsDeclared declared := by
  cases event with
  | declaration context role name =>
      have here : context.declared = declared := place context rfl
      rcases introduces?_eq introduces with ⟨rfl, introducing, fresh⟩
      rintro ⟨declaration, member, sameScope, sameName⟩
      cases latest : context.latest? (context.scopeOf role) name.text with
      | none =>
          have absent := List.find?_eq_none.mp latest declaration (by rwa [here])
          simp [sameScope, sameName] at absent
      | some found =>
          have known := List.find?_some latest
          have isVariable := (only found (by
            rw [← here]
            exact List.mem_of_find?_eq_some latest)).resolve_left (by simp_all)
          simp [Context.replaced?, introducing, latest, isVariable] at fresh
  | _ => contradiction

theorem isDeclared_of_introduces? {event : Event} {held : Variable}
    (introduces : event.introduces? = some held) (declared : List Declaration) :
    held.IsDeclared (event.declaration?.toList ++ declared) := by
  cases event with
  | declaration context role name =>
      rcases introduces?_eq introduces with ⟨rfl, _⟩
      exact ⟨context.declaration role name, by simp [Event.declaration?], rfl, rfl⟩
  | _ => contradiction

theorem isDeclared_latest? {context : Context} {scope : Nat} {name : String}
    (found : (context.latest? scope name).isSome = true) :
    Variable.IsDeclared context.declared ⟨scope, name⟩ := by
  rcases Option.isSome_iff_exists.mp found with ⟨declaration, latest⟩
  have same := List.find?_some latest
  exact ⟨declaration, List.mem_of_find?_eq_some latest, by simpa using same⟩

theorem isDeclared_of_replaced? {context : Context} {role : Role} {name : String}
    (replaces : (context.replaced? role name).isSome = true) :
    Variable.IsDeclared context.declared ⟨context.scopeOf role, name⟩ := by
  apply isDeclared_latest?
  cases latest : context.latest? (context.scopeOf role) name with
  | none => simp [Context.replaced?, latest] at replaces
  | some found => rfl

/-- A variable that is not introduced takes over from a declared one. -/
theorem isDeclared_of_not_introduced {context : Context} {role : Role} {name : Tree}
    (isVariable : role.isVariable = true)
    (takesOver : (Event.declaration context role name).introduces? = none) :
    Variable.IsDeclared context.declared ⟨context.scopeOf role, name.text⟩ := by
  apply isDeclared_of_replaced?
  cases replaces : context.replaced? role name.text with
  | none => simp [Event.introduces?, isVariable, replaces] at takesOver
  | some earlier => rfl

theorem isDeclared_or_introduced {declared later : List Declaration} {events : List Event}
    (traces : Traces declared events later) {held : Variable} (inside : held.scope ≠ 0)
    (known : held.IsDeclared later) :
    held.IsDeclared declared ∨ held ∈ events.filterMap Event.introduces? := by
  induction events generalizing declared with
  | nil =>
      subst traces
      exact .inl known
  | cons event rest induction =>
      have there {held : Variable} (member : held ∈ rest.filterMap Event.introduces?) :
          held ∈ (event :: rest).filterMap Event.introduces? := by
        cases introduces : event.introduces? <;> simp_all
      rcases induction traces.2 with ⟨declaration, member, sameScope, sameName⟩ | introduced
      · rcases List.mem_append.mp member with here | earlier
        · cases event with
          | declaration context role name =>
              rw [show declaration = context.declaration role name by
                simpa [Event.declaration?] using here] at sameScope sameName
              cases introduces : (Event.declaration context role name).introduces? with
              | some other =>
                  refine .inr (List.mem_filterMap.mpr ⟨_, List.mem_cons_self, ?_⟩)
                  rw [introduces, (introduces?_eq introduces).1]
                  cases held
                  simp_all [Context.declaration]
              | none =>
                  have isVariable : role.isVariable = true := by
                    cases role with
                    | function => exact (inside sameScope.symm).elim
                    | _ => rfl
                  have earlier := isDeclared_of_not_introduced isVariable introduces
                  rw [traces.1 context rfl] at earlier
                  cases held
                  simp_all [Context.declaration]
          | _ => simp [Event.declaration?] at here
        · exact .inl ⟨declaration, earlier, sameScope, sameName⟩
      · exact .inr (there introduced)

theorem introductions_new {declared later : List Declaration} {events : List Event}
    (traces : Traces declared events later) (only : OnlyVariables declared) :
    ∀ held ∈ events.filterMap Event.introduces?, held.scope ≠ 0 → ¬held.IsDeclared declared := by
  induction events generalizing declared with
  | nil => simp
  | cons event rest induction =>
      intro held member inside known
      rcases List.mem_filterMap.mp member with ⟨found, foundMember, introduces⟩
      rcases List.mem_cons.mp foundMember with rfl | later
      · exact introduces?_isNew traces.1 only introduces inside known
      · rcases known with ⟨declaration, declarationMember, same⟩
        exact induction traces.2 (only.next event) held
          (List.mem_filterMap.mpr ⟨found, later, introduces⟩) inside
          ⟨declaration, List.mem_append_right _ declarationMember, same⟩

theorem introductions_nodup {declared later : List Declaration} {events : List Event}
    (traces : Traces declared events later) (only : OnlyVariables declared) :
    ((events.filterMap Event.introduces?).filter (·.scope ≠ 0)).Nodup := by
  induction events generalizing declared with
  | nil => simp
  | cons event rest induction =>
      have others := induction traces.2 (only.next event)
      cases introduces : event.introduces? with
      | none => simpa [introduces] using others
      | some held =>
          by_cases file : held.scope = 0
          · simpa [introduces, file] using others
          · rw [List.filterMap_cons_some introduces, List.filter_cons_of_pos (by simpa using file),
              List.nodup_cons]
            refine ⟨fun member => ?_, others⟩
            exact introductions_new traces.2 (only.next event) held (List.mem_filter.mp member).1
              file (isDeclared_of_introduces? introduces declared)

/-! ## Introductions in the file

Only what stands in the file itself is introduced in its scope. -/

theorem introduces?_uses (context : Context) (tree : Tree) :
    (uses context tree).filterMap Event.introduces? = [] := by
  refine List.filterMap_eq_nil_iff.mpr fun event member => ?_
  have still := (uses_still context tree event member).1
  cases event with
  | declaration => simp [Event.declaration?] at still
  | _ => rfl

theorem introductions_simple (context : Context) (node : Tree) :
    (simpleEvents context node).filterMap Event.introduces? =
      match node.kind, node.children with
      | .variable, declarator :: values =>
          (declarator.declaredName?.bind fun name =>
            (Event.declaration context (.variable values.head?) name).introduces?).toList
      | _, _ => [] := by
  unfold simpleEvents
  split
  · rename_i declarator values isVariable children
    cases declared : declarator.declaredName? with
    | none => simp [isVariable, children, declared]
    | some name =>
        have nothing : (usesAll context values.head?.toList).filterMap Event.introduces? = [] := by
          cases values.head? with
          | none => rfl
          | some value => simpa [usesAll] using introduces?_uses context value
        simp only [isVariable, children, declared, nothing, List.filterMap_append, List.nil_append,
          Option.bind_some]
        cases introduces :
          (Event.declaration context (.variable values.head?) name).introduces? <;>
            simp [introduces]
  · rename_i value rest isReturn children
    simp [isReturn, children, introduces?_uses]
  · rename_i children isStruct
    have nothing : (structEvents node).filterMap Event.introduces? = [] := by
      unfold structEvents
      split <;> rfl
    simp [isStruct, nothing]
  · rename_i notStruct notVariable _
    have nothing : ((if node.kind.isSilent then [] else uses context node).filterMap
        Event.introduces?) = [] := by
      split
      · rfl
      · exact introduces?_uses context node
    rw [nothing]
    split
    · rename_i declarator values isVariable parts
      exact (notVariable declarator values isVariable parts).elim
    · rfl

def Inside (events : List Event) : Prop :=
  ∀ held ∈ events.filterMap Event.introduces?, held.scope ≠ 0

theorem Inside.append {events later : List Event} :
    Inside (events ++ later) ↔ Inside events ∧ Inside later := by
  simp only [Inside, List.filterMap_append, List.forall_mem_append]

section

variable {context : Context}

theorem inside_declaration (role : Role) (name : Tree) (inside : context.innermost ≠ 0) :
    Inside [.declaration context role name] := by
  intro held member
  rcases List.mem_filterMap.mp member with ⟨event, here, introduces⟩
  rw [List.mem_singleton.mp here] at introduces
  rcases introduces?_eq introduces with ⟨rfl, isVariable, _⟩
  cases role with
  | function => contradiction
  | _ => exact inside

theorem inside_parameterEvents (parameters : List Tree) (inside : context.innermost ≠ 0) :
    Inside (parameterEvents context parameters) := by
  induction parameters generalizing context with
  | nil => simp [Inside, parameterEvents]
  | cons declarator rest induction =>
      cases declared : declarator.declaredName? with
      | none => simpa [parameterEvents, declared] using induction inside
      | some name =>
          have others : Inside (parameterEvents (context.declare .parameter name) rest) :=
            induction inside
          simpa [parameterEvents, declared] using
            Inside.append.mpr ⟨inside_declaration .parameter name inside, others⟩

theorem inside_headingEvents (name parameters : Tree) :
    Inside (headingEvents context name parameters) := by
  have others : Inside (parameterEvents (context.declare .function name).enter
      parameters.children) := inside_parameterEvents _ (by simp [Context.innermost, Context.enter])
  intro held member
  exact others held (by simpa [headingEvents, Event.introduces?, Role.isVariable] using member)

theorem inside_simpleEvents (node : Tree) (inside : context.innermost ≠ 0) :
    Inside (simpleEvents context node) := by
  intro held member
  rw [introductions_simple] at member
  split at member
  · rename_i declarator values _ _
    cases declared : declarator.declaredName? with
    | none => simp [declared] at member
    | some name =>
        refine inside_declaration (.variable values.head?) name inside held ?_
        cases introduces : (Event.declaration context (.variable values.head?) name).introduces? <;>
          simp_all
  · contradiction

theorem innermost_after (tree : Tree) : (after context tree).innermost = context.innermost := by
  simp [Context.innermost]

private theorem inside_children {trees : List Tree}
    (each : ∀ tree ∈ trees, ∀ {context : Context}, context.innermost ≠ 0 →
      Inside (events context tree)) (inside : context.innermost ≠ 0) :
    Inside (eventsAll context trees) := by
  induction trees generalizing context with
  | nil => simp [Inside, eventsAll]
  | cons tree rest induction =>
      refine Inside.append.mpr ⟨each tree (by simp) inside, ?_⟩
      exact induction (fun tree member => each tree (by simp [member]))
        (by rwa [innermost_after])

theorem inside_events (tree : Tree) (inside : context.innermost ≠ 0) :
    Inside (events context tree) := by
  induction tree using Tree.statementInduction generalizing context with
  | root location text note children induction =>
      exact inside_children (fun child member {context} => induction child member) inside
  | block location text note children induction =>
      exact inside_children (fun child member {context} => induction child member)
        (by simp [Context.innermost, Context.enter])
  | function location text note declarator parameters rest induction =>
      cases declared : declarator.declaredName? with
      | none => simp [Inside, events, declared]
      | some name =>
          simp only [events, declared]
          refine Inside.append.mpr ⟨inside_headingEvents name parameters, ?_⟩
          rcases rest with _ | ⟨⟨kind, place, word, bodyNote, children⟩, rest⟩
          · simp [Inside, bodyEvents]
          · exact inside_children
              (fun child member {context} => induction _ List.mem_cons_self child member)
              (by simp [Context.innermost])
  | prototype location text note declarator parameters rest =>
      cases declared : declarator.declaredName? with
      | none => simp [Inside, events, declared]
      | some name =>
          simp only [events, declared]
          exact inside_headingEvents name parameters
  | control kind location text note test bodies control induction =>
      rw [events_control _ control]
      refine Inside.append.mpr ⟨by simp [Inside, introduces?_uses], ?_⟩
      exact inside_children (fun child member {context} => induction child member) inside
  | simple tree simple =>
      rw [events_simple _ simple]
      exact inside_simpleEvents tree inside

theorem inside_eventsAll (trees : List Tree) (inside : context.innermost ≠ 0) :
    Inside (eventsAll context trees) :=
  inside_children (fun tree _ {_} => inside_events tree) inside

end

end OcLang.Lexical
