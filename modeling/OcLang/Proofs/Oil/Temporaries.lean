import OcLang.Proofs.Oil.Jumps
import OcLang.Proofs.Oil.LineLaws
import OcLang.Proofs.Oil.Operands

namespace OcLang.Oil

/-! # Temporaries are assigned once

Every computed value gets a temporary of its own, with the next number. A line
uses temporaries of its own statement only: they are declared above it in the
same body, and no line in between is an anchor or a jump. -/

def Line.temporary? : Line → Option Temporary
  | .compute _ temporary _ => some temporary
  | _ => none

def temporaries (lines : List Line) : List Temporary :=
  lines.filterMap Line.temporary?

def Line.isLabelled (line : Line) : Bool :=
  line.anchor?.isSome || line.target?.isSome

def StillDeclares (lines : List Line) (held : Temporary) : Prop :=
  ∃ above type value between, lines = above ++ .compute type held value :: between ∧
    ∀ line ∈ between, line.isLabelled = false

/-- The temporaries of a program are numbered from 1 in the order of their
declarations, and no two are spelled alike. A line that uses one stands below
the declaration in the same body, and only this line itself may jump. -/
structure Program.AssignsOnce (program : Program) : Prop where
  numbered : (temporaries program.lines).map (·.number) =
    List.range' 1 (temporaries program.lines).length
  once : ((temporaries program.lines).map (·.spelling)).Nodup
  declared : ∀ body ∈ program.bodies, ∀ before line after, body = before ++ line :: after →
    ∀ held, .temporary held ∈ line.operands → StillDeclares before held

section

variable {lines more : List Line} {line : Line}

@[simp] theorem temporaries_nil : temporaries [] = [] := rfl

@[simp] theorem temporaries_append :
    temporaries (lines ++ more) = temporaries lines ++ temporaries more :=
  List.filterMap_append ..

@[simp] theorem temporaries_cons :
    temporaries (line :: lines) = line.temporary?.toList ++ temporaries lines := by
  cases line <;> rfl

/-! ## Lines and the lines above them -/

def Throughout (holds : List Line → Line → Prop) (lines : List Line) : Prop :=
  ∀ before line after, lines = before ++ line :: after → holds before line

namespace Throughout

variable {holds : List Line → Line → Prop}

theorem nil : Throughout holds [] := by
  simp [Throughout]

theorem concat (above : Throughout holds lines) (here : holds lines line) :
    Throughout holds (lines ++ [line]) := by
  intro before other after split
  rcases List.eq_nil_or_concat after with rfl | ⟨rest, last, rfl⟩
  · rcases List.append_inj' split rfl with ⟨rfl, same⟩
    rwa [← List.singleton_inj.mp same]
  · have longer : lines ++ [line] = (before ++ other :: rest) ++ [last] := by simpa using split
    exact above before other rest (List.append_inj' longer rfl).1

theorem append (stable : ∀ above before line, holds before line → holds (above ++ before) line)
    (first : Throughout holds lines) (second : Throughout holds more) :
    Throughout holds (lines ++ more) := by
  intro before line after split
  rcases List.append_eq_append_iff.mp split with ⟨between, rfl, below⟩ | ⟨between, form, below⟩
  · exact stable lines between line (second between line after below)
  · cases between with
    | nil =>
        rw [List.nil_append] at below
        rw [List.append_nil] at form
        have here := stable lines [] line (second [] line after below.symm)
        rwa [List.append_nil, form] at here
    | cons head between =>
        rw [List.cons_append, List.cons.injEq] at below
        rcases below with ⟨rfl, rfl⟩
        exact first before line between form

theorem imp {weaker : List Line → Line → Prop} (strong : Throughout holds lines)
    (implies : ∀ before line after, lines = before ++ line :: after → holds before line →
      weaker before line) : Throughout weaker lines :=
  fun before line after split => implies before line after split (strong before line after split)

end Throughout

def DeclareAll (lines : List Line) (operands : List Operand) : Prop :=
  ∀ held, .temporary held ∈ operands → held ∈ temporaries lines

theorem DeclareAll.append {operands others : List Operand} (first : DeclareAll lines operands)
    (second : DeclareAll more others) : DeclareAll (lines ++ more) (operands ++ others) := by
  intro held used
  rw [temporaries_append]
  exact List.mem_append.mpr ((List.mem_append.mp used).imp (first held) (second held))

def UsesDeclared (before : List Line) (line : Line) : Prop :=
  DeclareAll before line.operands

def UsesInReach (before : List Line) (line : Line) : Prop :=
  ∀ held, .temporary held ∈ line.operands → StillDeclares before held

theorem UsesDeclared.below (above before : List Line) (line : Line)
    (uses : UsesDeclared before line) : UsesDeclared (above ++ before) line :=
  DeclareAll.append (show DeclareAll above [] by simp [DeclareAll]) uses

theorem UsesInReach.below (above before : List Line) (line : Line)
    (uses : UsesInReach before line) : UsesInReach (above ++ before) line := by
  intro held used
  rcases uses held used with ⟨start, type, value, between, rfl, plain⟩
  exact ⟨above ++ start, type, value, between, (List.append_assoc ..).symm, plain⟩

theorem Line.isLabelled_of_straight (straight : line.isStraight = true) :
    line.isLabelled = false := by
  cases line <;> first | rfl | contradiction

/-- No line of an expression has a label, so that its temporaries stay in reach. -/
theorem UsesDeclared.inReach {before : List Line} (straight : IsStraight before)
    (uses : UsesDeclared before line) : UsesInReach before line := by
  intro held used
  rcases List.mem_filterMap.mp (uses held used) with ⟨declaring, member, declared⟩
  rcases List.append_of_mem member with ⟨above, between, rfl⟩
  cases declaring with
  | compute type temporary value =>
      cases declared
      refine ⟨above, type, value, between, rfl, fun line below => ?_⟩
      exact Line.isLabelled_of_straight (straight line (by simp [below]))
  | _ => contradiction

/-! ## Numbers -/

structure Numbers (number : Nat) (lines : List Line) (after : Nat) : Prop where
  numbered : (temporaries lines).map (·.number) = List.range' number (temporaries lines).length
  after : after = number + (temporaries lines).length

namespace Numbers

variable {number middle after : Nat}

theorem silent (none : temporaries lines = []) : Numbers number lines number :=
  ⟨by simp [none], by simp [none]⟩

theorem append (first : Numbers number lines middle) (second : Numbers middle more after) :
    Numbers number (lines ++ more) after where
  numbered := by
    rw [temporaries_append, List.map_append, List.length_append, first.numbered, second.numbered,
      first.after, List.range'_append_1]
  after := by
    rw [temporaries_append, List.length_append, second.after, first.after, Nat.add_assoc]

theorem concat (first : Numbers number lines after) (none : line.temporary? = none) :
    Numbers number (lines ++ [line]) after :=
  first.append (silent (by simp [none]))

theorem compute (first : Numbers number lines middle) (kind : TemporaryKind) (type : OilType)
    (value : Computation) :
    Numbers number (lines ++ [.compute type ⟨kind, middle⟩ value]) (middle + 1) :=
  first.append ⟨rfl, rfl⟩

end Numbers

end

/-! ## Expressions -/

structure Lowered.Declares (lowered : Lowered) (number after : Nat) : Prop where
  numbers : Numbers number lowered.lines after
  lines : Throughout UsesDeclared lowered.lines
  operand : DeclareAll lowered.lines lowered.operand.within

section

variable (analysis : Analysis) {number middle after : Nat}

theorem compute_declares (kind : TemporaryKind) (type : OilType) {lines : List Line}
    {value : Computation} (numbers : Numbers number lines middle)
    (declared : Throughout UsesDeclared lines)
    (uses : DeclareAll lines value.operands) :
    Ends (compute kind type lines value) middle fun lowered after =>
      lowered.Declares number after := by
  refine .bind (.modifyGet (.pure ⟨numbers.compute kind type value, declared.concat uses, ?_⟩))
  intro held used
  simp_all [Operand.within, Line.temporary?]

theorem readValue_declares (value : Tree) {lowered : Lowered}
    (declares : lowered.Declares number middle) :
    Ends (readValue value lowered) middle fun read after => read.Declares number after := by
  unfold readValue
  split
  · exact .pure declares
  · split
    all_goals exact compute_declares _ _ declares.numbers declares.lines declares.operand

theorem lowerStore_declares (place : Location) (value : Tree) {target source : Lowered}
    (declares : target.Declares number middle) (declaresSource : source.Declares middle after)
    (literal : value.kind = .literal .string → after = middle) :
    Ends (lowerStore place target value source) after fun lowered final =>
      lowered.Declares number final := by
  have stores {lines : List Line} {source : Operand} {final : Nat}
      (numbers : Numbers number lines final) (declared : Throughout UsesDeclared lines)
      (inside : DeclareAll lines (target.operand.within ++ source.within)) :
      Lowered.Declares ⟨lines ++ [.store target.operand source], target.operand⟩ number final := by
    refine ⟨numbers.concat rfl, declared.concat inside, fun held used => ?_⟩
    rw [temporaries_append]
    exact List.mem_append_left _ (inside held (List.mem_append_left _ used))
  unfold lowerStore
  split
  · rename_i string
    rw [literal (by simpa using string)]
    exact .pure (stores declares.numbers declares.lines fun held used =>
      declares.operand held (by simpa [Operand.within] using used))
  · refine .bind ((readValue_declares value declaresSource).imp fun read final declaresRead => ?_)
    exact .pure (stores (declares.numbers.append declaresRead.numbers)
      (declares.lines.append .below declaresRead.lines)
      (declares.operand.append declaresRead.operand))

theorem lowerBinary_declares (operator : BinaryOperator) {left right : Lowered}
    (declares : left.Declares number middle) (declaresRight : right.Declares middle after) :
    Ends (lowerBinary operator left right) after fun lowered final =>
      lowered.Declares number final := by
  have numbers := declares.numbers.append declaresRight.numbers
  have declared := declares.lines.append .below declaresRight.lines
  have inside := declares.operand.append declaresRight.operand
  unfold lowerBinary
  dsimp only
  split <;> exact compute_declares _ _ numbers declared inside

theorem lowerUnary_declares (operator : UnaryOperator) {operand : Lowered}
    (declares : operand.Declares number middle) :
    Ends (lowerUnary operator operand) middle fun lowered after =>
      lowered.Declares number after := by
  have inside (type : OilType) :
      DeclareAll operand.lines (Operand.cast type operand.operand).within := by
    intro held used
    exact declares.operand held (by simpa [Operand.within] using used)
  cases operator with
  | ord => exact .pure { declares with operand := inside .int }
  | chr => exact .pure { declares with operand := inside .char }
  | _ => exact compute_declares _ _ declares.numbers declares.lines declares.operand

theorem noValue_declares (kind : Kind) (number : Nat) :
    (noValue kind).Declares number number :=
  ⟨.silent rfl, Throughout.concat .nil (by simp [UsesDeclared, DeclareAll, Line.operands]),
    by simp [DeclareAll, noValue, Operand.within]⟩

theorem lowerLeaf_declares (node : Tree) (number : Nat) :
    (lowerLeaf analysis node).Declares number number := by
  unfold lowerLeaf
  split
  case h_6 => exact noValue_declares _ number
  all_goals exact ⟨.silent rfl, .nil, by simp [DeclareAll, Operand.within]⟩

/-- A string literal is stored by its name, so nothing is computed for it. -/
structure DeclaresFor (tree : Tree) (number : Nat) (lowered : Lowered) (after : Nat) : Prop where
  declares : lowered.Declares number after
  literal : tree.kind = .literal .string → after = number

theorem declaresFor_of_ends {tree : Tree} (other : tree.kind ≠ .literal .string)
    {step : Numbered Lowered} (ends : Ends step middle fun lowered after =>
      lowered.Declares number after) :
    Ends step middle (DeclaresFor tree number) :=
  ends.imp fun _ _ declares => ⟨declares, fun string => absurd string other⟩

theorem isExpressionLaw_declares : IsExpressionLaw analysis (fun _ => True) DeclaresFor
    (fun _ number lines operands after => Numbers number lines after ∧
      Throughout UsesDeclared lines ∧ DeclareAll lines (Operand.withinAll operands)) where
  operand _ _ := trivial
  nil _ := ⟨.silent rfl, .nil, by simp [DeclareAll, Operand.withinAll]⟩
  cons first others := ⟨first.declares.numbers.append others.1,
    first.declares.lines.append .below others.2.1, first.declares.operand.append others.2.2⟩
  call _ _ obey := by
    refine ⟨⟨obey.1, obey.2.1, fun held used => ?_⟩, by simp⟩
    exact obey.2.2 held (by simpa [Operand.within] using used)
  select _ _ base := by
    refine ⟨{ base.declares with operand := fun held used => ?_ }, by simp⟩
    exact base.declares.operand held (by simpa [Operand.within] using used)
  index _ array position := by
    refine ⟨⟨array.declares.numbers.append position.declares.numbers,
      array.declares.lines.append .below position.declares.lines, fun held used => ?_⟩, by simp⟩
    exact array.declares.operand.append position.declares.operand held
      (by simpa [Operand.within] using used)
  newStruct _ _ := declaresFor_of_ends (by simp) (compute_declares _ _ (.silent rfl) .nil
    (by simp [DeclareAll, Computation.operands, Operand.within]))
  newArray _ size := declaresFor_of_ends (by simp)
    (compute_declares _ _ size.declares.numbers size.declares.lines size.declares.operand)
  newString _ size := declaresFor_of_ends (by simp)
    (compute_declares _ _ size.declares.numbers size.declares.lines size.declares.operand)
  assign _ _ target value := declaresFor_of_ends (by simp)
    (lowerStore_declares _ _ target.declares value.declares value.literal)
  binary _ left right := declaresFor_of_ends (by simp)
    (lowerBinary_declares _ left.declares right.declares)
  unary _ operand := declaresFor_of_ends (by simp) (lowerUnary_declares _ operand.declares)
  crowded _ number := ⟨noValue_declares _ number, fun _ => rfl⟩
  leaf _ _ _ number := ⟨lowerLeaf_declares analysis _ number, fun _ => rfl⟩

/-- An expression declares the temporaries that it uses, one after the other. -/
theorem lower_declares (tree : Tree) (number : Nat) :
    Ends (lower analysis tree) number fun lowered after => lowered.Declares number after :=
  ((isExpressionLaw_declares analysis).expression trivial number).imp
    fun _ _ obeys => obeys.declares

theorem lowerValue_declares (value : Tree) (number : Nat) :
    Ends (lowerValue analysis value) number fun lowered after => lowered.Declares number after :=
  .bind ((lower_declares analysis value number).imp fun _ _ declares =>
    readValue_declares value declares)

theorem lowerCondition_declares (condition : Tree) (number : Nat) :
    Ends (lowerCondition analysis condition) number fun lowered after =>
      lowered.Declares number after :=
  lowerCondition_ends (lower_declares analysis condition number) fun _ _ declares =>
    compute_declares _ _ declares.numbers declares.lines declares.operand

end

/-! ## Statements -/

structure Lowered.Reaches (lowered : Lowered) (number after : Nat) : Prop extends
    lowered.Declares number after where
  straight : IsStraight lowered.lines

structure Settles (number : Nat) (lines : List Line) (after : Nat) : Prop where
  numbers : Numbers number lines after
  lines : Throughout UsesInReach lines

namespace Settles

variable {number middle after : Nat} {lines more : List Line} {line : Line} {lowered : Lowered}

theorem nil : Settles number [] number :=
  ⟨.silent rfl, .nil⟩

theorem append (first : Settles number lines middle) (second : Settles middle more after) :
    Settles number (lines ++ more) after :=
  ⟨first.numbers.append second.numbers, first.lines.append .below second.lines⟩

theorem plain (none : line.temporary? = none)
    (unused : ∀ held, .temporary held ∉ line.operands) : Settles number [line] number :=
  ⟨.silent (by simp [none]), Throughout.concat .nil fun held used => absurd used (unused held)⟩

theorem jump (label : Label) : Settles number [.jump label] number :=
  .plain rfl (by simp [Line.operands])

theorem anchor (label : Label) : Settles number [.anchor label] number :=
  .plain rfl (by simp [Line.operands])

theorem of_reaches (reaches : lowered.Reaches number after) :
    Settles number lowered.lines after := by
  refine ⟨reaches.numbers, reaches.lines.imp fun before line after split uses => ?_⟩
  refine uses.inReach fun other member => reaches.straight other ?_
  rw [split]
  exact List.mem_append_left _ member

theorem concat (reaches : lowered.Reaches number after) (none : line.temporary? = none)
    (uses : DeclareAll lowered.lines line.operands) :
    Settles number (lowered.lines ++ [line]) after where
  numbers := reaches.numbers.concat none
  lines := (of_reaches reaches).lines.concat (UsesDeclared.inReach reaches.straight uses)

theorem jumpUnless (reaches : lowered.Reaches number after) (label : Label) :
    Settles number (lowered.lines ++ [.jumpUnless lowered.operand label]) after :=
  concat reaches rfl reaches.operand

end Settles

section

variable (analysis : Analysis)

theorem lower_reaches (tree : Tree) (number : Nat) :
    Ends (lower analysis tree) number fun lowered after => lowered.Reaches number after :=
  ((lower_declares analysis tree number).and (lower_straight analysis tree number)).imp
    fun _ _ ⟨declares, straight⟩ => { declares with straight }

theorem lowerValue_reaches (value : Tree) (number : Nat) :
    Ends (lowerValue analysis value) number fun lowered after => lowered.Reaches number after :=
  ((lowerValue_declares analysis value number).and
    (lowerValue_straight analysis value number)).imp
    fun _ _ ⟨declares, straight⟩ => { declares with straight }

theorem lowerCondition_reaches (condition : Tree) (number : Nat) :
    Ends (lowerCondition analysis condition) number fun lowered after =>
      lowered.Reaches number after :=
  ((lowerCondition_declares analysis condition number).and
    (lowerCondition_straight analysis condition number)).imp
    fun _ _ ⟨declares, straight⟩ => { declares with straight }

theorem lowerDeclaration_settles (placement : Placement) (node : Tree) (number : Nat) :
    Ends (lowerDeclaration analysis placement node) number fun lines after =>
      Settles number lines after := by
  unfold lowerDeclaration
  split
  · exact .pure (.plain rfl (by simp [Line.operands]))
  · split
    · exact .pure (.plain rfl (by simp [Line.operands]))
    · dsimp only
      split
      · refine .pure ?_
        split
        · exact .nil
        · exact .plain rfl (by simp [Line.operands])
      · split
        · refine .pure ?_
          split
          · exact .plain rfl (by simp [Line.operands, Operand.within])
          · exact .nil
        · refine .bind ((lowerValue_reaches analysis _ number).imp fun value after reaches => ?_)
          refine .pure (.concat reaches (by split <;> rfl) fun held used => ?_)
          apply reaches.operand held
          split at used <;> simpa [Line.operands, Operand.within] using used

theorem lowerSimple_settles (placement : Placement) (node : Tree) (number : Nat) :
    Ends (lowerSimple analysis placement node) number fun lines after =>
      Settles number lines after := by
  unfold lowerSimple
  split
  case h_1 => exact lowerDeclaration_settles analysis placement node number
  case h_2 => exact .pure (.plain rfl (by simp [Line.operands, Operand.within]))
  case h_3 =>
    exact .bind ((lowerValue_reaches analysis _ number).imp fun value _ reaches =>
      .pure (.concat reaches rfl reaches.operand))
  case h_5 =>
    exact .bind ((lower_reaches analysis node number).imp fun call _ reaches =>
      .pure (.concat reaches rfl reaches.operand))
  case h_19 =>
    exact .bind ((lower_reaches analysis node number).imp fun lowered _ reaches =>
      .pure (.of_reaches reaches))
  all_goals first
    | exact .pure .nil
    | exact .pure (.plain rfl (by simp [Line.operands]))

theorem isLineLaw_settles : IsLineLaw fun (_ : List Empty) => Settles where
  nil _ := .nil
  append := .append
  anchor _ := .anchor
  jump _ := .jump

theorem isStatementLaw_settles : IsStatementLaw analysis (fun _ => True)
    (fun _ => ([] : List Empty)) (fun _ _ => []) (fun _ => Settles) where
  toIsLineLaw := isLineLaw_settles
  child _ _ := trivial
  body _ _ _ := trivial
  block _ _ _ _ := by simp
  control _ _ _ _ _ := by simp
  condition _ _ label number := (lowerCondition_reaches analysis _ number).imp
    fun _ _ reaches => .jumpUnless reaches label
  malformed control _ none placement number := isLineLaw_settles.malformed [] control none
    ((lowerCondition_reaches analysis _ number).imp fun _ _ reaches => .of_reaches reaches)
    (fun _ => .plain rfl (by simp [Line.operands])) placement
  simple _ _ placement number := lowerSimple_settles analysis placement _ number
  heading _ _ := .nil

/-! ## Programs -/

theorem lowerFunction_settles (function : Tree) (later : List Tree) (number : Nat) :
    Ends (lowerFunction analysis function later) number fun lowered after =>
      Settles number (lowered.toList.flatMap (·.body)) after := by
  unfold lowerFunction
  split
  · split
    · exact .pure .nil
    · split
      · exact .pure .nil
      · refine .bind (((isStatementLaw_settles analysis).body_lines (fun _ _ => trivial) number).imp
          fun lines _ settles => .pure ?_)
        simpa using settles
  · exact .pure .nil

theorem lowerFunctions_settles (functions : List Tree) (number : Nat) :
    Ends (lowerFunctions analysis functions) number fun lowered after =>
      Numbers number (lowered.flatMap (·.body)) after ∧
        ∀ function ∈ lowered, Throughout UsesInReach function.body := by
  induction functions generalizing number with
  | nil => exact .pure ⟨.silent rfl, by simp⟩
  | cons function later induction =>
      refine .bind ((lowerFunction_settles analysis function later number).imp
        fun lowered middle settles => ?_)
      refine .bind ((induction middle).imp ?_)
      rintro rest after ⟨numbers, settlesRest⟩
      refine .pure ⟨?_, ?_⟩
      · rw [List.flatMap_append]
        exact settles.numbers.append numbers
      · cases lowered with
        | none => exact settlesRest
        | some emitted =>
            have own : Throughout UsesInReach emitted.body := by simpa using settles.lines
            exact List.forall_mem_cons.mpr ⟨own, settlesRest⟩

/-- Whatever tree a program is generated from, its temporaries are numbered in
order and each is used in reach of its only declaration. -/
theorem generate_assignsOnce (root : Tree) : (generate analysis root).AssignsOnce := by
  have lowered : Ends (generateNumbered analysis root) firstTemporary fun program after =>
      Numbers firstTemporary program.lines after ∧
        ∀ body ∈ program.bodies, Throughout UsesInReach body := by
    refine .bind ((lowerFunctions_settles analysis _ firstTemporary).imp ?_)
    rintro functions middle ⟨numbers, settles⟩
    refine .bind (((isStatementLaw_settles analysis).main_lines (fun _ _ => trivial) middle).imp
      fun main _ settlesMain => .pure ⟨numbers.append settlesMain.numbers, ?_⟩)
    intro body member
    simp only [Program.bodies, List.mem_append, List.mem_map, List.mem_singleton] at member
    rcases member with ⟨function, emitted, rfl⟩ | rfl
    · exact settles function emitted
    · exact settlesMain.lines
  rcases lowered with ⟨numbers, settles⟩
  refine ⟨numbers.numbered, ?_, settles⟩
  have apart : (temporaries (generate analysis root).lines).Nodup := by
    apply List.Nodup.of_map (·.number)
    exact numbers.numbered ▸ List.nodup_range'
  exact apart.map fun _ _ => Temporary.spelling_injective

end

/-- A condition that is no truth value yet needs one more temporary. -/
example :
    let b : TreeBuilder := {}
    let one := b.int ⟨0, 0⟩ 1
    let sum := b.operation (.binary .add) ⟨0, 0⟩
      [one, b.operation (.binary .sub) ⟨0, 0⟩ [one, one]]
    let root := b.root "numbers" [b.whileLoop ⟨0, 0⟩ sum sum]
    (temporaries (generate (analyze root).2 root).lines).map (·.spelling) =
      ["i1", "i2", "b3", "i4", "i5"] := by
  decide +kernel

end OcLang.Oil
