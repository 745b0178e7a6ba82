import OcLang.Proofs.Oil.Reflection.Expressions

namespace OcLang.Oil

open Lexical

/-! # Code follows its outline -/

/-! ## Lines that follow an outline -/

structure Reflects (lines : List Line) (marks : List Mark) : Prop where
  declared : declaredNames lines = (declaredMarks marks).map Variable.spelling
  declaresFirst : ∀ known : List Variable,
    DeclaresFirst (known.map Variable.spelling) lines ↔ Covered (fun _ => True) known marks

namespace Reflects

variable {lines more : List Line} {marks others : List Mark}

theorem nil : Reflects [] [] := ⟨rfl, fun _ => Iff.rfl⟩

theorem append (first : Reflects lines marks) (second : Reflects more others) :
    Reflects (lines ++ more) (marks ++ others) where
  declared := by simp [first.declared, second.declared]
  declaresFirst known := by
    rw [declaresFirst_append, covered_append, first.declaresFirst, first.declared, ← List.map_append,
      second.declaresFirst]

/-- Lines that declare nothing and mention what is used. -/
theorem of_names {events : List Event} (none : declaredNames lines = [])
    (names : ∀ name, name ∈ lines.flatMap Line.mentioned ↔ name ∈ usedNames events) :
    Reflects lines (Mark.ofUses events) where
  declared := by simp [none]
  declaresFirst known := by
    rw [declaresFirst_iff none, covered_ofUses]
    constructor
    · intro mentioned held used _
      have name := mentioned held.oilName ((names _).mpr (List.mem_map_of_mem used))
      exact Variable.mem_map_spelling.mp name
    · intro covered name member
      rcases List.mem_map.mp ((names name).mp member) with ⟨held, used, rfl⟩
      exact Variable.mem_map_spelling.mpr (covered held used trivial)

theorem silent (none : declaredNames lines = []) (nothing : lines.flatMap Line.mentioned = []) :
    Reflects lines [] := by
  have reflects : Reflects lines (Mark.ofUses []) := of_names none (by simp [nothing])
  exact reflects

/-- A line that does nothing but mention a variable. -/
theorem mention {line : Line} {held : Variable} (plain : line.declared? = none)
    (names : line.mentioned = [held.oilName]) : Reflects [line] [.mention held] where
  declared := by simp [declaredNames, plain, declaredMarks, Mark.declared?]
  declaresFirst known := by
    simp only [DeclaresFirst, Covered, names, List.forall_mem_singleton, and_true, forall_const]
    exact Variable.mem_map_spelling

theorem hidden (events : List Event) : Reflects [] (Mark.ofHidden events) where
  declared := by simp
  declaresFirst known := by simp [DeclaresFirst, covered_ofHidden]

theorem declare {type : OilType} {held : Variable} {value : Option Operand}
    (plain : value.toList.flatMap Operand.mentioned = []) :
    Reflects [.declare type held.oilName value] [.declare held] where
  declared := rfl
  declaresFirst known := by simp [DeclaresFirst, Covered, Line.mentioned, plain]

end Reflects

theorem declaredNames_straight {lines : List Line} (straight : IsStraight lines) :
    declaredNames lines = [] := by
  refine List.filterMap_eq_nil_iff.mpr fun line member => ?_
  have here := straight line member
  cases line <;> simp [Line.isStraight] at here <;> rfl

def HoldsNames (events : List Event) (lowered : Lowered) : Prop :=
  IsStraight lowered.lines ∧ ∀ name, name ∈ lowered.lines.flatMap Line.mentioned ∨
    name ∈ lowered.operand.mentioned ↔ name ∈ usedNames events

namespace HoldsNames

variable {events : List Event} {lowered : Lowered}

theorem reflects (holds : HoldsNames events lowered) {line : Line} (plain : line.declared? = none)
    (names : line.mentioned = lowered.operand.mentioned) :
    Reflects (lowered.lines ++ [line]) (Mark.ofUses events) := by
  refine .of_names ?_ fun name => ?_
  · have last : declaredNames [line] = [] := by simp [declaredNames, plain]
    rw [declaredNames_append, declaredNames_straight holds.1, last]
    rfl
  · rw [← holds.2]
    simp [names]

theorem store (holds : HoldsNames events lowered) (held : Variable) :
    Reflects (lowered.lines ++ [.store (.variable held.oilName) lowered.operand])
      (Mark.ofUses events ++ [.mention held]) where
  declared := by
    rw [declaredNames_append, declaredNames_straight holds.1, declaredMarks_append,
      declaredMarks_ofUses]
    rfl
  declaresFirst known := by
    have used : Reflects (lowered.lines ++ [.perform lowered.operand]) (Mark.ofUses events) :=
      holds.reflects rfl rfl
    have same := used.declaresFirst known
    rw [declaresFirst_append, declaredNames_straight holds.1, List.append_nil] at same ⊢
    rw [covered_append, ← same, declaredMarks_ofUses, List.append_nil]
    simp only [DeclaresFirst, Line.mentioned, Operand.mentioned, Covered, List.forall_mem_append,
      List.forall_mem_singleton, and_true, forall_const]
    rw [← Variable.mem_map_spelling]
    exact ⟨fun parts => ⟨⟨parts.1, parts.2.2⟩, parts.2.1⟩, fun parts => ⟨parts.1.1, parts.2, parts.1.2⟩⟩

theorem declare (holds : HoldsNames events lowered) (type : OilType) (held : Variable) :
    Reflects (lowered.lines ++ [.declare type held.oilName (some lowered.operand)])
      (Mark.ofUses events ++ [.declare held]) where
  declared := by
    rw [declaredNames_append, declaredNames_straight holds.1, declaredMarks_append,
      declaredMarks_ofUses]
    rfl
  declaresFirst known := by
    have used : Reflects (lowered.lines ++ [.perform lowered.operand]) (Mark.ofUses events) :=
      holds.reflects rfl rfl
    have same := used.declaresFirst known
    rw [declaresFirst_append, declaredNames_straight holds.1, List.append_nil] at same ⊢
    rw [covered_append, ← same]
    simp [DeclaresFirst, Line.mentioned, Covered]

end HoldsNames

section

variable {analysis : Analysis} {context : Context}

theorem lowerValue_names {value : Tree} (shaped : value.IsShaped)
    (resolved : Resolved analysis.symbols (uses context value)) (number : Nat) :
    Ends (lowerValue analysis value) number fun lowered _ =>
      HoldsNames (uses context value) lowered := by
  refine (lowerValue_straight analysis value number).and (.bind ?_)
  refine (lower_mentions shaped resolved number).imp fun lowered middle mentions => ?_
  exact (readValue_mentioned value lowered middle).imp fun read _ same name => by
    rw [same, mentions.all]

theorem lowerCondition_names {test : Tree} (shaped : test.IsShaped)
    (resolved : Resolved analysis.symbols (uses context test)) (number : Nat) :
    Ends (lowerCondition analysis test) number fun lowered _ =>
      HoldsNames (uses context test) lowered := by
  refine (lowerCondition_straight analysis test number).and (.bind ?_)
  refine (lower_mentions shaped resolved number).imp fun lowered middle mentions => ?_
  split
  · exact .pure mentions.all
  · split
    · exact .pure mentions.all
    · refine (compute_mentioned _ _ _ _ middle).imp ?_
      rintro result _ ⟨lines, operand⟩ name
      rw [lines, operand, ← mentions.all]
      simp [Computation.mentioned]

/-- A declared variable, in a line of its own or not. -/
theorem lowerDeclaration_reflects {location : Location} {text : String} {note : Note}
    {children : List Tree} (shaped : Tree.IsShaped ⟨.variable, location, text, note, children⟩)
    (resolved : Resolved analysis.symbols
      (simpleEvents context ⟨.variable, location, text, note, children⟩))
    (placement : Placement) (number : Nat) :
    Ends (lowerDeclaration analysis placement ⟨.variable, location, text, note, children⟩) number
      fun lines _ =>
        Reflects lines (simpleMarks context placement ⟨.variable, location, text, note, children⟩)
      := by
  rcases shaped.variable with ⟨declarator, values, name, rfl, _, declared, single⟩
  rcases values with _ | ⟨value, rest⟩
  · simp only [simpleEvents, declared, Resolved.append, List.head?_nil] at resolved
    have here := (resolved.2 _ List.mem_cons_self).1
    have target : variableName analysis name = Variable.oilName ⟨context.innermost, name.text⟩ :=
      variableName_declaration here
    simp only [lowerDeclaration, simpleMarks, declared, target, replacesVariable_declaration here,
      List.head?_nil]
    simp only [declarationMarks]
    refine .pure ?_
    by_cases existing :
      (placement == .file || (context.replaced? (.variable none) name.text).isSome) = true
    · rw [if_pos existing, if_pos existing]
      exact .nil
    · rw [if_neg existing, if_neg existing]
      exact .declare rfl
  · have empty : rest = [] := by simpa using single
    subst empty
    simp only [simpleEvents, declared, Resolved.append, List.head?_cons] at resolved
    have here := (resolved.2 _ List.mem_cons_self).1
    have target : variableName analysis name = Variable.oilName ⟨context.innermost, name.text⟩ :=
      variableName_declaration here
    simp only [lowerDeclaration, simpleMarks, declared, target, replacesVariable_declaration here,
      List.head?_cons]
    simp only [declarationMarks]
    split
    · refine .pure ?_
      by_cases replaces : (context.replaced? (.variable (some value)) name.text).isSome = true
      · rw [if_pos replaces, if_pos replaces]
        exact .mention rfl rfl
      · rw [if_neg replaces, if_neg replaces]
        exact .nil
    · have resolvedValue : Resolved analysis.symbols (uses context value) := by
        simpa [usesAll] using resolved.1
      refine .bind ((lowerValue_names (shaped.child (by simp)) resolvedValue number).imp
        fun lowered _ holds => .pure ?_)
      by_cases existing :
        (placement == .file || (context.replaced? (.variable (some value)) name.text).isSome) = true
      · rw [if_pos existing, if_pos existing]
        exact holds.store _
      · rw [if_neg existing, if_neg existing]
        exact holds.declare _ _

theorem lowerSimple_reflects {node : Tree} (shaped : node.IsShaped)
    (resolved : Resolved analysis.symbols (simpleEvents context node)) (placement : Placement)
    (number : Nat) :
    Ends (lowerSimple analysis placement node) number fun lines _ =>
      Reflects lines (simpleMarks context placement node) := by
  rcases node with ⟨kind, location, text, note, children⟩
  cases kind with
  | «variable» => exact lowerDeclaration_reflects shaped resolved placement number
  | returnValue =>
      rcases children with _ | ⟨value, rest⟩
      · exact .pure (.silent rfl rfl)
      · refine .bind ((lowerValue_names (shaped.child (by simp)) resolved number).imp
          fun lowered _ holds => .pure ?_)
        exact holds.reflects rfl rfl
  | call =>
      refine .bind (((lower_straight analysis _ number).and
        (lower_mentions shaped resolved number)).imp fun lowered _ lowers => .pure ?_)
      exact HoldsNames.reflects ⟨lowers.1, lowers.2.all⟩ rfl rfl
  | literal | identifier | select | index | allocate | assign | binary | unary =>
      have resolvedUses : Resolved analysis.symbols (uses context _) := resolved
      refine .bind (((lower_straight analysis _ number).and
        (lower_mentions shaped resolvedUses number)).imp fun lowered _ lowers => .pure ?_)
      exact .of_names (declaredNames_straight lowers.1) lowers.2.lines
  | returnVoid | whileLoop | ifThen | ifElse => exact .pure (.silent rfl rfl)
  | _ => exact .pure .nil

theorem lowerStatements_reflects {trees : List Tree}
    (each : ∀ tree ∈ trees, ∀ {context : Context}, tree.IsShaped →
      Resolved analysis.symbols (events context tree) → ∀ placement number,
        Ends (lowerStatement analysis placement tree) number fun lines _ =>
          Reflects lines (statementMarks context placement tree))
    (shaped : ∀ tree ∈ trees, tree.IsShaped)
    (resolved : Resolved analysis.symbols (eventsAll context trees)) (number : Nat) :
    Ends (lowerStatements analysis trees) number fun lines _ =>
      Reflects lines (statementsMarks context trees) := by
  induction trees generalizing context number with
  | nil => exact .pure .nil
  | cons tree rest induction =>
      simp only [eventsAll, Resolved.append] at resolved
      refine .bind ((each tree (by simp) (shaped tree (by simp)) resolved.1 .nested number).imp
        fun first middle reflects => ?_)
      refine .bind ((induction (fun tree member => each tree (by simp [member]))
        (fun tree member => shaped tree (by simp [member])) resolved.2 middle).imp
        fun lines _ reflectsRest => .pure ?_)
      exact reflects.append reflectsRest

theorem branchLines_reflects {kind : Kind} {location : Location} {test : List Event}
    {condition : Lowered} (holds : HoldsNames test condition) {first : List Line}
    {marks : List Mark} (reflects : Reflects first marks) :
    Reflects (branchLines kind location condition [first]) (Mark.ofUses test ++ marks) ∧
      ∀ {second : List Line} {others : List Mark}, Reflects second others →
        Reflects (branchLines kind location condition [first, second])
          (Mark.ofUses test ++ (marks ++ others)) := by
  have jump (label : Label) : Reflects (condition.lines ++ [.jumpUnless condition.operand label])
      (Mark.ofUses test) := holds.reflects rfl rfl
  have anchor (label : Label) : Reflects [.anchor label] [] := .silent rfl rfl
  constructor
  · simpa [branchLines] using
      ((jump (endLabel location)).append reflects).append (anchor (endLabel location))
  · intro second others reflectsSecond
    have between : Reflects [.jump (endLabel location), .anchor (alternativeLabel location)] [] :=
      .silent rfl rfl
    have consequence := ((jump (alternativeLabel location)).append reflects).append between
    simpa [branchLines] using
      (consequence.append reflectsSecond).append (anchor (endLabel location))

theorem lowerControl_reflects {kind : Kind} {location : Location} {text : String} {note : Note}
    {test : Tree} {bodies : List Tree} (control : kind.isControl = true)
    (each : ∀ body ∈ bodies, ∀ {context : Context}, body.IsShaped →
      Resolved analysis.symbols (events context body) → ∀ placement number,
        Ends (lowerStatement analysis placement body) number fun lines _ =>
          Reflects lines (statementMarks context placement body))
    (shaped : Tree.IsShaped ⟨kind, location, text, note, test :: bodies⟩)
    (resolvedTest : Resolved analysis.symbols (uses context test))
    (resolved : Resolved analysis.symbols (eventsAll context bodies)) (placement : Placement)
    (number : Nat) :
    Ends (lowerStatement analysis placement ⟨kind, location, text, note, test :: bodies⟩) number
      fun lines _ => Reflects lines (Mark.ofUses (uses context test) ++
        statementsMarks context bodies) := by
  have form := shaped.control control
  have condition := lowerCondition_names (shaped.child (by simp)) resolvedTest number
  cases kind <;> simp [Kind.isControl] at control
  · rcases bodies with _ | ⟨body, _ | ⟨second, rest⟩⟩ <;> simp at form
    simp only [eventsAll, List.append_nil] at resolved
    simp only [lowerStatement, statementsMarks, List.append_nil]
    refine .bind (condition.imp fun lowered middle holds => ?_)
    refine .bind ((each body (by simp) (shaped.child (by simp)) resolved .nested middle).imp
      fun lines _ reflects => .pure ?_)
    have start : Reflects [.anchor (loopLabel location)] [] := .silent rfl rfl
    have test : Reflects (lowered.lines ++ [.jumpUnless lowered.operand (exitLabel location)])
        (Mark.ofUses (uses context test)) := holds.reflects rfl rfl
    have last : Reflects [.jump (loopLabel location), .anchor (exitLabel location)] [] :=
      .silent rfl rfl
    simpa using ((start.append test).append reflects).append last
  · rcases bodies with _ | ⟨first, _ | ⟨second, rest⟩⟩ <;> simp at form
    simp only [eventsAll, List.append_nil] at resolved
    simp only [lowerStatement, lowerBranches, statementsMarks, List.append_nil]
    refine .bind (condition.imp fun lowered middle holds => ?_)
    refine .bind (.bind ((each first (by simp) (shaped.child (by simp)) resolved .nested middle).imp
      fun lines _ reflects => .pure (.pure ?_)))
    exact (branchLines_reflects holds reflects).1
  · rcases bodies with _ | ⟨first, _ | ⟨second, _ | ⟨third, rest⟩⟩⟩ <;> simp at form
    simp only [eventsAll, List.append_nil, Resolved.append] at resolved
    simp only [lowerStatement, lowerBranches, statementsMarks, List.append_nil]
    refine .bind (condition.imp fun lowered middle holds => ?_)
    refine .bind (.bind ((each first (by simp) (shaped.child (by simp)) resolved.1 .nested
      middle).imp fun lines _ reflects => ?_))
    refine .bind ((each second (by simp) (shaped.child (by simp)) resolved.2 .nested _).imp
      fun more _ reflectsMore => .pure (.pure ?_))
    exact (branchLines_reflects holds reflects).2 reflectsMore

/-- The lines of a statement follow its outline. -/
theorem lowerStatement_reflects {tree : Tree} (shaped : tree.IsShaped)
    (resolved : Resolved analysis.symbols (events context tree)) (placement : Placement)
    (number : Nat) :
    Ends (lowerStatement analysis placement tree) number fun lines _ =>
      Reflects lines (statementMarks context placement tree) := by
  induction tree using Tree.statementInduction generalizing context placement number with
  | block location text note children induction =>
      exact lowerStatements_reflects (fun child member {context} shaped resolved => induction child
        member shaped resolved) (fun child member => shaped.child member) resolved number
  | control kind location text note test bodies control induction =>
      rw [events_control _ control, Resolved.append] at resolved
      rw [statementMarks_control control]
      exact lowerControl_reflects control (fun body member {context} shaped resolved =>
        induction body member shaped resolved) shaped resolved.1 resolved.2 placement number
  | simple tree simple =>
      rw [events_simple _ simple] at resolved
      rw [lowerStatement_simple simple, statementMarks_simple simple]
      exact lowerSimple_reflects shaped resolved placement number
  | _ =>
      rw [statementMarks_hidden (by rfl) (by simp [Kind.isControl])]
      exact .pure (.hidden _)

end

end OcLang.Oil
