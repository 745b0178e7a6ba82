import Mathlib.Data.List.Nodup
import OcLang.Proofs.Scoping.Order

namespace OcLang.Lexical

/-! # The symbols of declarations

Every declaration has a symbol of its own, and later ones have greater numbers. -/

structure IsPlaceLaw (holds : Context → Prop) : Prop where
  declare (context : Context) (role : Role) (name : Tree) (here : holds context) :
    holds (context.declare role name)
  store (context : Context) (count : Nat) (here : holds context) :
    holds { context with stored := context.stored + count }
  scope (context : Context) (enclosing : List Nat) (opened : Nat) (here : holds context) :
    holds { context with enclosing, opened }

namespace IsPlaceLaw

variable {holds : Context → Prop} (law : IsPlaceLaw holds) {context : Context}

include law

theorem declareParameters (here : holds context) (parameters : List Tree) :
    holds (context.declareParameters parameters) := by
  induction parameters generalizing context with
  | nil => exact here
  | cons declarator rest induction =>
      cases declared : declarator.declaredName? with
      | none => simpa [Context.declareParameters, declared] using induction here
      | some name =>
          simpa [Context.declareParameters, declared] using
            induction (law.declare context .parameter name here)

theorem heading (here : holds context) (name parameters : Tree) :
    holds (context.heading name parameters) :=
  law.declareParameters (law.scope _ _ _ (law.declare context .function name here)) _

theorem simple (here : holds context) (tree : Tree) : holds (afterSimple context tree) := by
  unfold afterSimple
  split
  · unfold Context.storeStruct
    split
    · exact here
    · split
      · exact law.store context (_ + 1) here
      · exact here
  · split
    · exact here
    · exact law.declare context _ _ here
  · exact here

omit law in
private theorem children {trees : List Tree}
    (each : ∀ tree ∈ trees, ∀ {context : Context}, holds context → holds (after context tree))
    {context : Context} (here : holds context) : holds (afterAll context trees) := by
  induction trees generalizing context with
  | nil => exact here
  | cons tree rest induction =>
      rw [List.forall_mem_cons] at each
      exact induction each.2 (each.1 here)

theorem after (here : holds context) (tree : Tree) : holds (after context tree) := by
  induction tree using Tree.statementInduction generalizing context with
  | root location text note trees induction => exact children induction here
  | block location text note trees induction =>
      exact law.scope _ _ _ (children induction (law.scope _ _ _ here))
  | function location text note declarator parameters rest induction =>
      cases declared : declarator.declaredName? with
      | none => simpa [Lexical.after, declared] using here
      | some name =>
          simp only [Lexical.after, declared]
          apply law.scope
          rcases rest with _ | ⟨⟨kind, place, word, bodyNote, trees⟩, rest⟩
          · exact law.heading here name parameters
          · exact children (induction _ List.mem_cons_self) (law.heading here name parameters)
  | prototype location text note declarator parameters rest =>
      cases declared : declarator.declaredName? with
      | none => simpa [Lexical.after, declared] using here
      | some name =>
          simp only [Lexical.after, declared]
          exact law.scope _ _ _ (law.heading here name parameters)
  | control kind location text note test bodies control induction =>
      rw [after_control _ control]
      exact children induction here
  | simple tree simple =>
      rw [after_simple _ simple]
      exact law.simple here tree

end IsPlaceLaw

def Context.GivesOut (context : Context) : Prop :=
  (context.stored :: context.declared.map (·.symbol)).Pairwise (· > ·)

theorem isPlaceLaw_givesOut : IsPlaceLaw Context.GivesOut where
  declare context role name here := by
    apply List.pairwise_cons.mpr ⟨?_, here⟩
    intro symbol member
    rcases List.mem_cons.mp member with rfl | earlier
    · exact Nat.lt_succ_self _
    · exact Nat.lt_succ_of_lt ((List.pairwise_cons.mp here).1 symbol earlier)
  store context count here := by
    apply List.pairwise_cons.mpr ⟨?_, (List.pairwise_cons.mp here).2⟩
    intro symbol member
    exact Nat.lt_add_right count ((List.pairwise_cons.mp here).1 symbol member)
  scope context enclosing opened here := here

theorem Context.GivesOut.declaration_eq {context : Context} (given : context.GivesOut)
    {first second : Declaration} (member : first ∈ context.declared)
    (other : second ∈ context.declared) (same : first.symbol = second.symbol) :
    first = second := by
  have apart : (context.declared.map (·.symbol)).Nodup :=
    (List.pairwise_cons.mp given).2.imp fun later => Nat.ne_of_gt later
  exact List.inj_on_of_nodup_map apart member other same

theorem Traces.mem_of_declares {declared later : List Declaration} {events : List Event}
    (traces : Traces declared events later) {event : Event} (member : event ∈ events)
    {declaration : Declaration} (declares : event.declaration? = some declaration) :
    declaration ∈ later := by
  have kept {declared : List Declaration} {events : List Event}
      (traces : Traces declared events later) (known : declaration ∈ declared) :
      declaration ∈ later := by
    induction events generalizing declared with
    | nil => exact traces ▸ known
    | cons event rest induction => exact induction traces.2 (List.mem_append_right _ known)
  induction events generalizing declared with
  | nil => contradiction
  | cons first rest induction =>
      rcases List.mem_cons.mp member with rfl | behind
      · exact kept traces.2 (by simp [declares])
      · exact induction traces.2 behind

/-- What is declared behind all events was declared before them or by one of them. -/
theorem Traces.declares_of_mem {declared later : List Declaration} {events : List Event}
    (traces : Traces declared events later) {declaration : Declaration}
    (member : declaration ∈ later) :
    declaration ∈ declared ∨ ∃ event ∈ events, event.declaration? = some declaration := by
  induction events generalizing declared with
  | nil => exact .inl (traces ▸ member)
  | cons event rest induction =>
      rcases induction traces.2 with before | ⟨other, behind, declares⟩
      · rcases List.mem_append.mp before with here | earlier
        · exact .inr ⟨event, List.mem_cons_self, by simpa using here⟩
        · exact .inl earlier
      · exact .inr ⟨other, List.mem_cons_of_mem _ behind, declares⟩

end OcLang.Lexical
