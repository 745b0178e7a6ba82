import OcLang.Proofs.Scoping.Order
import OcLang.Proofs.Tree.Parts

namespace OcLang.Lexical

/-! # The names that a walk declares

Every declared name is a node of the tree. It ends a declarator: that of a function, of a
parameter or of a variable. -/

section

variable {context place : Context} {role : Role} {name : Tree}

theorem not_declared_in_uses {tree : Tree} :
    .declaration place role name ∉ uses context tree := by
  intro member
  have still := (uses_still context tree _ member).1
  contradiction

theorem declares_parameter {declarators : List Tree}
    (member : .declaration place role name ∈ parameterEvents context declarators) :
    place.innermost = context.innermost ∧
      ∃ declarator ∈ declarators, declarator.declaredName? = some name := by
  induction declarators generalizing context with
  | nil => simp [parameterEvents] at member
  | cons declarator rest induction =>
      cases declared : declarator.declaredName? with
      | none =>
          simp only [parameterEvents, declared] at member
          obtain ⟨inside, other, isLater, names⟩ := induction member
          exact ⟨inside, other, List.mem_cons_of_mem _ isLater, names⟩
      | some first =>
          simp only [parameterEvents, declared] at member
          rcases List.mem_cons.mp member with here | later
          · obtain ⟨rfl, _, rfl⟩ := Event.declaration.inj here
            exact ⟨rfl, declarator, List.mem_cons_self, declared⟩
          · obtain ⟨inside, other, isLater, names⟩ := induction later
            exact ⟨inside, other, List.mem_cons_of_mem _ isLater, names⟩

theorem declares_heading {first parameters : Tree}
    (member : .declaration place role name ∈ headingEvents context first parameters) :
    role = .function ∧ name = first ∨ place.innermost = context.opened + 1 ∧
      ∃ declarator ∈ parameters.children, declarator.declaredName? = some name := by
  rcases List.mem_cons.mp member with here | later
  · obtain ⟨_, rfl, rfl⟩ := Event.declaration.inj here
    exact .inl ⟨rfl, rfl⟩
  · exact .inr (declares_parameter later)

/-- Statements that hold no others declare nothing but variables. -/
theorem declares_simple {tree : Tree}
    (member : .declaration place role name ∈ simpleEvents context tree) :
    place = context ∧ ∃ declarator ∈ tree.children, declarator.declaredName? = some name := by
  rcases tree with ⟨kind, location, text, note, children⟩
  unfold simpleEvents at member
  split at member
  · rename_i declarator values isVariable sameChildren
    simp only at sameChildren
    subst sameChildren
    cases declared : declarator.declaredName? with
    | none => simp [declared] at member
    | some first =>
        simp only [declared, usesAll_eq_flatMap] at member
        rcases List.mem_append.mp member with inValue | here
        · obtain ⟨value, _, inside⟩ := List.mem_flatMap.mp inValue
          exact absurd inside not_declared_in_uses
        · obtain ⟨rfl, _, rfl⟩ := Event.declaration.inj (List.mem_singleton.mp here)
          exact ⟨rfl, declarator, List.mem_cons_self, declared⟩
  · exact absurd member not_declared_in_uses
  · unfold structEvents at member
    split at member <;> simp at member
  · split at member
    · simp at member
    · exact absurd member not_declared_in_uses

/-! ## Declared names are nodes -/

theorem mem_preorder_of_declaredName? {declarator : Tree}
    (declared : declarator.declaredName? = some name) : name ∈ declarator.preorder := by
  rw [Tree.declaredName?, Option.filter_eq_some_iff] at declared
  exact Tree.mem_preorder_of_child (List.mem_of_getLast? declared.1) (Tree.mem_preorder_self name)

theorem mem_preorder_of_child_declares {tree : Tree}
    (declares : ∃ declarator ∈ tree.children, declarator.declaredName? = some name) :
    name ∈ tree.preorder := by
  obtain ⟨declarator, isChild, declared⟩ := declares
  exact Tree.mem_preorder_of_child isChild (mem_preorder_of_declaredName? declared)

theorem mem_preorder_of_heading {declarator parameters first : Tree}
    (declared : declarator.declaredName? = some first)
    (member : .declaration place role name ∈ headingEvents context first parameters) :
    name ∈ declarator.preorder ∨ name ∈ parameters.preorder := by
  rcases declares_heading member with ⟨_, rfl⟩ | ⟨_, declares⟩
  · exact .inl (mem_preorder_of_declaredName? declared)
  · exact .inr (mem_preorder_of_child_declares declares)

private theorem mem_preorder_of_all {trees : List Tree}
    (each : ∀ tree ∈ trees, ∀ {context : Context},
      .declaration place role name ∈ events context tree → name ∈ tree.preorder)
    (member : .declaration place role name ∈ eventsAll context trees) :
    name ∈ trees.flatMap Tree.preorder := by
  induction trees generalizing context with
  | nil => simp [eventsAll] at member
  | cons tree rest induction =>
      rw [List.forall_mem_cons] at each
      rw [List.flatMap_cons, List.mem_append]
      exact (List.mem_append.mp member).imp each.1 (induction each.2)

theorem mem_preorder_of_declaration (tree : Tree)
    (member : .declaration place role name ∈ events context tree) : name ∈ tree.preorder := by
  induction tree using Tree.statementInduction generalizing context with
  | root location text note children induction | block location text note children induction =>
      rw [Tree.preorder_mk]
      exact List.mem_cons_of_mem _
        (mem_preorder_of_all (fun child member {_} => induction child member) member)
  | function location text note declarator parameters rest induction =>
      cases declared : declarator.declaredName? with
      | none => simp [events, declared] at member
      | some first =>
          simp only [events, declared] at member
          rcases List.mem_append.mp member with inHeading | inBody
          · rcases mem_preorder_of_heading declared inHeading with inside | inside
            · exact Tree.mem_preorder_of_child List.mem_cons_self inside
            · exact Tree.mem_preorder_of_child (List.mem_cons_of_mem _ List.mem_cons_self) inside
          · rcases rest with _ | ⟨⟨kind, place, word, bodyNote, children⟩, rest⟩
            · simp [bodyEvents] at inBody
            · have below := mem_preorder_of_all
                (fun child member {_} => induction _ List.mem_cons_self child member) inBody
              obtain ⟨child, isChild, inside⟩ := List.mem_flatMap.mp below
              exact Tree.mem_preorder_of_child
                (List.mem_cons_of_mem _ (List.mem_cons_of_mem _ List.mem_cons_self))
                (Tree.mem_preorder_of_child isChild inside)
  | prototype location text note declarator parameters rest =>
      cases declared : declarator.declaredName? with
      | none => simp [events, declared] at member
      | some first =>
          simp only [events, declared] at member
          rcases mem_preorder_of_heading declared member with inside | inside
          · exact Tree.mem_preorder_of_child List.mem_cons_self inside
          · exact Tree.mem_preorder_of_child (List.mem_cons_of_mem _ List.mem_cons_self) inside
  | control kind location text note test bodies control induction =>
      rw [events_control _ control] at member
      rcases List.mem_append.mp member with inTest | inBodies
      · exact absurd inTest not_declared_in_uses
      · have below := mem_preorder_of_all (fun body member {_} => induction body member) inBodies
        obtain ⟨body, isBody, inside⟩ := List.mem_flatMap.mp below
        exact Tree.mem_preorder_of_child (List.mem_cons_of_mem _ isBody) inside
  | simple tree simple =>
      rw [events_simple _ simple] at member
      exact mem_preorder_of_child_declares (declares_simple member).2

end

end OcLang.Lexical
