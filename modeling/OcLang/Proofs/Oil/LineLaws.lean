import OcLang.Oil.Generate
import OcLang.Proofs.Oil.Forms
import OcLang.Proofs.Stepwise
import OcLang.Proofs.Tree.Shape

namespace OcLang.Oil

/-! # Laws of lines

What the lines of its parts obey, the lines of a statement obey as a whole. A law may count
the temporaries before the lines and behind them, and it may pair the lines with parts of the
tree, in the order of both. -/

structure IsLineLaw {Part : Type} (law : List Part → Nat → List Line → Nat → Prop) : Prop where
  nil (number : Nat) : law [] number [] number
  append {parts others : List Part} {number middle after : Nat} {lines more : List Line}
    (first : law parts number lines middle) (second : law others middle more after) :
    law (parts ++ others) number (lines ++ more) after
  anchor (number : Nat) (label : Label) : law [] number [.anchor label] number
  jump (number : Nat) (label : Label) : law [] number [.jump label] number

/-- The label that a loop or branch with such bodies jumps to unless its test holds. There is
none for a wrong number of bodies. -/
def skipLabel? (kind : Kind) (location : Location) : List Tree → Option Label
  | [_] => some (if kind = .whileLoop then exitLabel location else endLabel location)
  | [_, _] => if kind = .whileLoop then none else some (alternativeLabel location)
  | _ => none

theorem skipLabel?_of_isShaped {kind : Kind} {location : Location} {text : String} {note : Note}
    {test : Tree} {bodies : List Tree} (control : kind.isControl = true)
    (shaped : Tree.IsShaped ⟨kind, location, text, note, test :: bodies⟩) :
    skipLabel? kind location bodies ≠ none := by
  have form := shaped.control control
  rcases bodies with _ | ⟨first, _ | ⟨second, _ | ⟨third, rest⟩⟩⟩ <;>
    cases kind <;> simp_all [skipLabel?]

section

variable {Part : Type} {analysis : Analysis} {law : List Part → Nat → List Line → Nat → Prop}

/-- A loop or branch without the bodies it needs leaves a gap, behind its test or in its place. -/
theorem IsLineLaw.malformed (lawful : IsLineLaw law) {kind : Kind} {location : Location}
    {text : String} {note : Note} {test : Tree} {bodies : List Tree} (parts : List Part)
    (control : kind.isControl = true) (none : skipLabel? kind location bodies = none)
    {number : Nat} (tested : Ends (lowerCondition analysis test) number fun condition after =>
      law [] number condition.lines after)
    (gap : ∀ number, law parts number [.gap kind] number) (placement : Placement) :
    Ends (lowerStatement analysis placement ⟨kind, location, text, note, test :: bodies⟩) number
      (law parts number) := by
  have behind : Ends (do
      let condition ← lowerCondition analysis test
      return condition.lines ++ [.gap kind]) number (law parts number) := by
    apply Ends.bind
    apply tested.imp
    intro condition middle obeys
    exact .pure (lawful.append obeys (gap middle))
  cases kind with
  | whileLoop =>
      rcases bodies with _ | ⟨body, _ | ⟨second, rest⟩⟩
      · exact .pure (gap number)
      · contradiction
      · exact .pure (gap number)
  | ifThen | ifElse =>
      rcases bodies with _ | ⟨first, _ | ⟨second, _ | ⟨third, rest⟩⟩⟩
      · exact behind
      · contradiction
      · contradiction
      · exact behind
  | _ => contradiction

/-- The lines of statements of a certain form obey the law together with the content of the
statements, where each loop and branch is tested for itself. -/
structure IsStatementLaw (analysis : Analysis) (holds : Tree → Prop)
    (content : Tree → List Part) (tested : Tree → Label → List Part)
    (law : List Part → Nat → List Line → Nat → Prop) : Prop extends IsLineLaw law where
  child {location : Location} {text : String} {note : Note} {children : List Tree} {child : Tree}
    (here : holds ⟨.block, location, text, note, children⟩) (member : child ∈ children) :
    holds child
  body {kind : Kind} {location : Location} {text : String} {note : Note} {test body : Tree}
    {bodies : List Tree} (control : kind.isControl = true)
    (here : holds ⟨kind, location, text, note, test :: bodies⟩) (member : body ∈ bodies) :
    holds body
  block (location : Location) (text : String) (note : Note) (children : List Tree) :
    content ⟨.block, location, text, note, children⟩ = children.flatMap content
  control {kind : Kind} {location : Location} {bodies : List Tree} {label : Label}
    (control : kind.isControl = true) (skips : skipLabel? kind location bodies = some label)
    (text : String) (note : Note) (test : Tree) :
    content ⟨kind, location, text, note, test :: bodies⟩ =
      tested test label ++ bodies.flatMap content
  condition {kind : Kind} {location : Location} {text : String} {note : Note} {test : Tree}
    {bodies : List Tree} (control : kind.isControl = true)
    (here : holds ⟨kind, location, text, note, test :: bodies⟩) (label : Label) (number : Nat) :
    Ends (lowerCondition analysis test) number fun condition after =>
      law (tested test label) number (condition.lines ++ [.jumpUnless condition.operand label])
        after
  malformed {kind : Kind} {location : Location} {text : String} {note : Note} {test : Tree}
    {bodies : List Tree} (control : kind.isControl = true)
    (here : holds ⟨kind, location, text, note, test :: bodies⟩)
    (none : skipLabel? kind location bodies = none) (placement : Placement) (number : Nat) :
    Ends (lowerStatement analysis placement ⟨kind, location, text, note, test :: bodies⟩) number
      (law (content ⟨kind, location, text, note, test :: bodies⟩) number)
  simple {tree : Tree} (here : holds tree) (simple : tree.isCompound = false)
    (placement : Placement) (number : Nat) :
    Ends (lowerSimple analysis placement tree) number (law (content tree) number)
  /-- Files and functions leave no lines where a statement stands. -/
  heading {tree : Tree} (heading : tree.kind = .root ∨ tree.kind = .function ∨
    tree.kind = .prototype) (number : Nat) : law (content tree) number [] number

namespace IsLineLaw

variable (lawful : IsLineLaw law) {content : Tree → List Part}

include lawful

theorem statements {trees : List Tree}
    (each : ∀ tree ∈ trees, ∀ number,
      Ends (lowerStatement analysis .nested tree) number (law (content tree) number))
    (number : Nat) :
    Ends (lowerStatements analysis trees) number (law (trees.flatMap content) number) := by
  induction trees generalizing number with
  | nil => exact .pure (lawful.nil number)
  | cons tree rest induction =>
      rw [List.forall_mem_cons] at each
      simp only [lowerStatements, List.flatMap_cons]
      apply Ends.bind
      apply (each.1 number).imp
      intro first middle obeys
      apply Ends.bind
      apply (induction each.2 middle).imp
      intro others after obeyRest
      exact .pure (lawful.append obeys obeyRest)

theorem loop {test body : Tree} {location : Location} {tested parts : List Part} {number : Nat}
    (condition : Ends (lowerCondition analysis test) number fun condition after =>
      law tested number (condition.lines ++ [.jumpUnless condition.operand (exitLabel location)])
        after)
    (each : ∀ number, Ends (lowerStatement analysis .nested body) number (law parts number))
    (placement : Placement) (text : String) (note : Note) :
    Ends (lowerStatement analysis placement ⟨.whileLoop, location, text, note, [test, body]⟩)
      number (law (tested ++ parts) number) := by
  simp only [lowerStatement]
  apply Ends.bind
  apply condition.imp
  intro condition middle obeys
  apply Ends.bind
  apply (each middle).imp
  intro lines after obeysBody
  apply Ends.pure
  have begins := lawful.append (lawful.anchor number (loopLabel location)) obeys
  rw [← List.append_assoc] at begins
  have back := lawful.append (lawful.jump after (loopLabel location))
    (lawful.anchor after (exitLabel location))
  have whole := lawful.append (lawful.append begins obeysBody) back
  rwa [List.nil_append, List.append_nil, List.append_nil] at whole

theorem branch {test : Tree} {bodies : List Tree} {kind : Kind} {location : Location}
    {label : Label} {tested : List Part} {number : Nat} (branches : kind ≠ .whileLoop)
    (skips : skipLabel? kind location bodies = some label)
    (condition : Ends (lowerCondition analysis test) number fun condition after =>
      law tested number (condition.lines ++ [.jumpUnless condition.operand label]) after)
    (each : ∀ body ∈ bodies, ∀ number,
      Ends (lowerStatement analysis .nested body) number (law (content body) number)) :
    Ends (do
      let condition ← lowerCondition analysis test
      let branches ← lowerBranches analysis bodies
      return branchLines kind location condition branches) number
        (law (tested ++ bodies.flatMap content) number) := by
  apply Ends.bind
  apply condition.imp
  intro condition middle obeys
  rcases bodies with _ | ⟨first, _ | ⟨second, _ | ⟨third, rest⟩⟩⟩ <;>
    simp only [skipLabel?, branches, if_false, Option.some.injEq, reduceCtorEq] at skips
  · subst skips
    apply Ends.bind
    apply Ends.bind
    apply (each first (by simp) middle).imp
    intro lines after obeysFirst
    apply Ends.pure
    apply Ends.pure
    have whole := lawful.append (lawful.append obeys obeysFirst)
      (lawful.anchor after (endLabel location))
    rwa [List.append_assoc tested] at whole
  · subst skips
    apply Ends.bind
    apply Ends.bind
    apply (each first (by simp) middle).imp
    intro lines next obeysFirst
    apply Ends.bind
    apply (each second (by simp) next).imp
    intro others after obeysSecond
    apply Ends.pure
    apply Ends.pure
    have consequence := lawful.append obeys obeysFirst
    have between := lawful.append (lawful.jump next (endLabel location))
      (lawful.anchor next (alternativeLabel location))
    have whole := lawful.append (lawful.append (lawful.append consequence between) obeysSecond)
      (lawful.anchor after (endLabel location))
    rw [List.append_nil, List.append_nil, List.append_nil, List.append_assoc tested] at whole
    rw [List.flatMap_cons, List.flatMap_cons, List.flatMap_nil, List.append_nil]
    exact whole

theorem items {items : List Tree}
    (each : ∀ item ∈ items.filter (!isDefinition ·.kind), ∀ number,
      Ends (lowerStatement analysis .file item) number (law (content item) number))
    (number : Nat) :
    Ends (lowerItems analysis items) number
      (law ((items.filter (!isDefinition ·.kind)).flatMap content) number) := by
  induction items generalizing number with
  | nil => exact .pure (lawful.nil number)
  | cons item rest induction =>
      simp only [lowerItems]
      cases definition : isDefinition item.kind with
      | true =>
          rw [List.filter_cons_of_neg (by simp [definition])] at each ⊢
          apply Ends.bind
          apply Ends.pure
          apply Ends.bind
          exact (induction each number).imp fun lines _ obey => .pure obey
      | false =>
          rw [List.filter_cons_of_pos (by simp [definition])] at each ⊢
          rw [List.forall_mem_cons] at each
          apply Ends.bind
          apply (each.1 number).imp
          intro first middle obeys
          apply Ends.bind
          apply (induction each.2 middle).imp
          intro others after obeyRest
          exact .pure (lawful.append obeys obeyRest)

end IsLineLaw

namespace IsStatementLaw

variable {holds : Tree → Prop} {content : Tree → List Part} {tested : Tree → Label → List Part}
  (lawful : IsStatementLaw analysis holds content tested law)

include lawful

theorem statement {tree : Tree} (here : holds tree) (placement : Placement) (number : Nat) :
    Ends (lowerStatement analysis placement tree) number (law (content tree) number) := by
  induction tree using Tree.statementInduction generalizing placement number with
  | block location text note children induction =>
      simp only [lowerStatement, lawful.block]
      exact lawful.statements (fun child member => induction child member
        (lawful.child here member) .nested) number
  | control kind location text note test bodies control induction =>
      have each (body : Tree) (member : body ∈ bodies) :=
        induction body member (lawful.body control here member) .nested
      cases skips : skipLabel? kind location bodies with
      | none => exact lawful.malformed control here skips placement number
      | some label =>
          have condition := lawful.condition control here label number
          rw [lawful.control control skips text note test]
          cases kind with
          | whileLoop =>
              rcases bodies with _ | ⟨body, _ | ⟨second, _ | ⟨third, rest⟩⟩⟩ <;>
                simp [skipLabel?] at skips
              subst skips
              have loop := lawful.loop condition (each body List.mem_cons_self) placement text note
              simpa only [List.flatMap_cons, List.flatMap_nil, List.append_nil] using loop
          | ifThen | ifElse =>
              simp only [lowerStatement]
              exact lawful.branch (by simp) skips condition each
          | _ => contradiction
  | root => exact .pure (lawful.heading (.inl rfl) number)
  | function => exact .pure (lawful.heading (.inr (.inl rfl)) number)
  | prototype => exact .pure (lawful.heading (.inr (.inr rfl)) number)
  | simple tree simple =>
      rw [lowerStatement_simple simple]
      exact lawful.simple here simple placement number

theorem body_lines {trees : List Tree} (each : ∀ tree ∈ trees, holds tree) (number : Nat) :
    Ends (lowerStatements analysis trees) number (law (trees.flatMap content) number) :=
  lawful.statements (fun tree member => lawful.statement (each tree member) .nested) number

theorem main_lines {items : List Tree}
    (each : ∀ item ∈ items.filter (!isDefinition ·.kind), holds item) (number : Nat) :
    Ends (lowerItems analysis items) number
      (law ((items.filter (!isDefinition ·.kind)).flatMap content) number) :=
  lawful.items (fun item member => lawful.statement (each item member) .file) number

end IsStatementLaw

end

theorem lowerFunctions_each {analysis : Analysis} {holds : Tree → Function → Prop}
    {trees : List Tree}
    (each : ∀ tree ∈ trees, ∀ later number, Ends (lowerFunction analysis tree later) number
      fun result _ => ∀ function ∈ result, holds tree function) (number : Nat) :
    Ends (lowerFunctions analysis trees) number fun functions _ =>
      ∀ function ∈ functions, ∃ tree ∈ trees, holds tree function := by
  induction trees generalizing number with
  | nil => exact .pure (by simp)
  | cons tree later induction =>
      rw [List.forall_mem_cons] at each
      simp only [lowerFunctions]
      apply Ends.bind
      apply (each.1 later number).imp
      intro result middle here
      apply Ends.bind
      apply (induction each.2 middle).imp
      intro others _ there
      apply Ends.pure
      intro function member
      rcases List.mem_append.mp member with made | later
      · exact ⟨tree, List.mem_cons_self, here function (by simpa using made)⟩
      · rcases there function later with ⟨other, known, made⟩
        exact ⟨other, List.mem_cons_of_mem _ known, made⟩

end OcLang.Oil
