import OcLang.Proofs.Execution.Expressions
import OcLang.Proofs.Oil.Jumps
import OcLang.Proofs.Oil.Output
import OcLang.Proofs.Oil.Returns
import OcLang.Tree.Build

namespace OcLang

namespace Oil

open Source

/-! # What decides the jumps of loops and branches

The test of a loop or branch ends in a truth value, which is held like a character. A
comparison or negation gives such a value itself. Any other test is copied into one and
keeps no more than eight bits on the way. -/

/-! ## Guards

Every loop or branch that is lowered has one line that jumps unless its test holds. -/

structure Guard where
  test : Tree
  label : Label

mutual
def guards : Tree → List Guard
  | ⟨.block, _, _, _, children⟩ => guardsAll children
  | ⟨.whileLoop, location, _, _, [test, body]⟩ => ⟨test, exitLabel location⟩ :: guards body
  | ⟨.ifThen, location, _, _, [test, consequence]⟩
  | ⟨.ifElse, location, _, _, [test, consequence]⟩ =>
      ⟨test, endLabel location⟩ :: guards consequence
  | ⟨.ifThen, location, _, _, [test, consequence, alternative]⟩
  | ⟨.ifElse, location, _, _, [test, consequence, alternative]⟩ =>
      ⟨test, alternativeLabel location⟩ :: guards consequence ++ guards alternative
  | _ => []

def guardsAll : List Tree → List Guard
  | [] => []
  | tree :: rest => guards tree ++ guardsAll rest
end

def Line.guardLabel? : Line → Option Label
  | .jumpUnless _ label => some label
  | _ => none

def guardLabels (lines : List Line) : List Label :=
  lines.filterMap Line.guardLabel?

def guardPlaces (lines : List Line) : List Nat :=
  lines.findIdxs (·.guardLabel?.isSome)

@[simp] theorem guardLabels_append (lines more : List Line) :
    guardLabels (lines ++ more) = guardLabels lines ++ guardLabels more :=
  List.filterMap_append ..

theorem guardPlaces_append (lines more : List Line) :
    guardPlaces (lines ++ more) =
      guardPlaces lines ++ (guardPlaces more).map (· + lines.length) := by
  simp only [guardPlaces]
  rw [List.findIdxs_append, Nat.zero_add, List.findIdxs_start (s := lines.length)]

theorem IsUnlabelled.guardLabels_eq_nil {lines : List Line} (unlabelled : IsUnlabelled lines) :
    guardLabels lines = [] := by
  have none := unlabelled.targets_eq_nil
  rw [targets, List.filterMap_eq_nil_iff] at none
  rw [guardLabels, List.filterMap_eq_nil_iff]
  intro line member
  have plain := none line member
  cases line <;> simp_all [Line.target?, Line.guardLabel?]

theorem guardPlaces_eq_nil {lines : List Line} (none : guardLabels lines = []) :
    guardPlaces lines = [] := by
  rw [guardLabels, List.filterMap_eq_nil_iff] at none
  rw [guardPlaces, List.findIdxs_eq_nil_iff]
  intro line member
  rw [none line member]
  rfl

section

variable (analysis : Analysis)

def Guard.StandsAt (lines : List Line) (guard : Guard) (place : Nat) : Prop :=
  ∃ number before behind, let condition := ((lowerCondition analysis guard.test).run number).1
    lines = before ++ (condition.lines ++ [.jumpUnless condition.operand guard.label]) ++ behind ∧
      place = before.length + condition.lines.length

structure HasGuards (guards : List Guard) (lines : List Line) : Prop where
  labels : guardLabels lines = guards.map (·.label)
  stand : guards.Forall₂ (Guard.StandsAt analysis lines) (guardPlaces lines)

variable {analysis}

theorem Guard.StandsAt.around {guard : Guard} {lines : List Line} {place : Nat}
    (stands : guard.StandsAt analysis lines place) (front back : List Line) :
    guard.StandsAt analysis (front ++ lines ++ back) (place + front.length) := by
  rcases stands with ⟨number, before, behind, rfl, rfl⟩
  refine ⟨number, front ++ before, behind ++ back, by simp, ?_⟩
  rw [List.length_append]
  omega

namespace HasGuards

variable {guards others : List Guard} {lines more : List Line}

theorem plain (none : guardLabels lines = []) : HasGuards analysis [] lines where
  labels := none
  stand := by
    rw [guardPlaces_eq_nil none]
    exact .nil

theorem append (first : HasGuards analysis guards lines)
    (second : HasGuards analysis others more) :
    HasGuards analysis (guards ++ others) (lines ++ more) where
  labels := by rw [guardLabels_append, first.labels, second.labels, List.map_append]
  stand := by
    rw [guardPlaces_append]
    apply List.rel_append
    · refine first.stand.imp fun guard place stands => ?_
      simpa using stands.around [] more
    · rw [List.forall₂_map_right_iff]
      refine second.stand.imp fun guard place stands => ?_
      simpa using stands.around lines []

end HasGuards

theorem lowerCondition_guards (test : Tree) (label : Label) (number : Nat) :
    Ends (lowerCondition analysis test) number fun condition _ =>
      HasGuards analysis [⟨test, label⟩]
        (condition.lines ++ [.jumpUnless condition.operand label]) := by
  have none := (lowerCondition_straight analysis test number).unlabelled.guardLabels_eq_nil
  constructor
  · rw [guardLabels_append, none]
    rfl
  · rw [guardPlaces_append, guardPlaces_eq_nil none]
    exact .cons ⟨number, [], [], by simp, by simp⟩ .nil

theorem guardsAll_eq_flatMap (trees : List Tree) : guardsAll trees = trees.flatMap guards := by
  induction trees with
  | nil => rfl
  | cons tree rest induction => rw [guardsAll, induction, List.flatMap_cons]

theorem guards_control {kind : Kind} {location : Location} {bodies : List Tree}
    (control : kind.isControl = true) (text : String) (note : Note) (test : Tree) :
    guards ⟨kind, location, text, note, test :: bodies⟩ =
      match skipLabel? kind location bodies with
      | none => []
      | some label => ⟨test, label⟩ :: bodies.flatMap guards := by
  rcases bodies with _ | ⟨first, _ | ⟨second, _ | ⟨third, rest⟩⟩⟩ <;>
    cases kind <;> first | contradiction | simp [guards, skipLabel?]

theorem guards_simple {tree : Tree} (simple : tree.isCompound = false) : guards tree = [] := by
  unfold Tree.isCompound at simple
  split at simple <;> simp_all [guards]

theorem isLineLaw_guards : IsLineLaw fun guards _ lines _ => HasGuards analysis guards lines where
  nil _ := .plain rfl
  append := .append
  anchor _ _ := .plain rfl
  jump _ _ := .plain rfl

theorem isStatementLaw_guards : IsStatementLaw analysis (fun _ => True) guards
    (fun test label => [⟨test, label⟩]) (fun guards _ lines _ => HasGuards analysis guards lines) where
  toIsLineLaw := isLineLaw_guards
  child _ _ := trivial
  body _ _ _ := trivial
  block _ _ _ children := by rw [guards, guardsAll_eq_flatMap]
  control control skips text note test := by
    rw [guards_control control, skips, List.singleton_append]
  condition _ _ label number := lowerCondition_guards _ label number
  malformed {kind location text note test bodies} control _ none placement number := by
    rw [guards_control control, none]
    have straight := lowerCondition_straight analysis test number
    exact isLineLaw_guards.malformed [] control none
      (straight.imp fun _ _ straight => .plain straight.unlabelled.guardLabels_eq_nil)
      (fun _ => .plain rfl) placement
  simple {tree} _ simple placement number := by
    rw [guards_simple simple]
    exact (lowerSimple_unlabelled analysis placement tree number).imp
      fun _ _ unlabelled => .plain unlabelled.guardLabels_eq_nil
  heading {tree} heading _ := by
    have none : guards tree = [] := by
      rcases tree with ⟨kind, location, text, note, children⟩
      rcases heading with rfl | rfl | rfl <;> simp [guards]
    rw [none]
    exact .plain rfl

/-! ## Tests -/

def isTruth (test : Tree) : Bool :=
  test.kind.isComparison || test.kind == .unary .not

/-- The guard takes the value of its test for zero. A number that is copied into a truth value
loses all but its last eight bits. -/
def Guard.TakesForZero (guard : Guard) (value : Int) : Prop :=
  if isTruth guard.test then value = 0 else 256 ∣ value

instance (guard : Guard) (value : Int) : Decidable (guard.TakesForZero value) :=
  inferInstanceAs (Decidable (if isTruth guard.test then value = 0 else 256 ∣ value))

def AgreeOn (analysis : Analysis) (tree : Tree) (frames : List Frame) (memory : Memory) : Prop :=
  ∀ name ∈ tree.preorder, name.kind = .identifier →
    ∃ cell, memory (variableName analysis name).spelling = some cell ∧
      find? frames name.text = some cell.value

theorem showsNames_agreeOn (tree : Tree) :
    ShowsNames analysis (AgreeOn analysis tree) tree.preorder where
  kept keeps agree name member isName := by
    rw [keeps.variable_eq]
    exact agree name member isName
  named name member isName _ _ agree := agree name member isName

theorem hold_char_eq_zero (value : Int) : OilType.char.hold value = 0 ↔ 256 ∣ value := by
  simp only [OilType.hold, Int.bmod_def]
  omega

section

variable (operators : Operators) (lines : List Line)

theorem lowerCondition_decides {guard : Guard} (expression : IsExpression guard.test)
    (number : Nat) :
    Ends (lowerCondition analysis guard.test) number fun condition _ =>
      ∀ frames counter memory, CodeAt lines counter condition.lines →
        AgreeOn analysis guard.test frames memory →
        ∃ value held after, value? operators frames guard.test = some value ∧
          Reaches operators lines ⟨counter, memory⟩ ⟨counter + condition.lines.length, after⟩ ∧
          condition.operand.value? operators after = some held ∧
          (held = 0 ↔ guard.TakesForZero value) := by
  have itself {lowered : Lowered} {limit : Nat} (truth : isTruth guard.test = true)
      (prepares : Prepares operators lines (AgreeOn analysis guard.test) guard.test number limit
        lowered) : ∀ frames counter memory, CodeAt lines counter lowered.lines →
        AgreeOn analysis guard.test frames memory →
        ∃ value held after, value? operators frames guard.test = some value ∧
          Reaches operators lines ⟨counter, memory⟩ ⟨counter + lowered.lines.length, after⟩ ∧
          lowered.operand.value? operators after = some held ∧
          (held = 0 ↔ guard.TakesForZero value) := by
    intro frames counter memory stands agree
    obtain ⟨value, after, evaluated, reaches, _, here⟩ :=
      prepares.runs frames counter memory stands agree
    exact ⟨value, value, after, evaluated, reaches, here, by simp [Guard.TakesForZero, truth]⟩
  refine .bind ((lower_prepares operators lines expression (showsNames_agreeOn guard.test)
    number).imp fun lowered limit prepares => ?_)
  split
  case h_1 negation => exact .pure (itself (by simp [isTruth, negation]) prepares)
  case h_2 other =>
    split
    case isTrue comparison => exact .pure (itself (by simp [isTruth, comparison]) prepares)
    case isFalse plain =>
      have copied : isTruth guard.test = false := by simp_all [isTruth]
      refine .bind (.modifyGet (.pure ?_))
      intro frames counter memory stands agree
      obtain ⟨value, middle, evaluated, reaches, _, here⟩ :=
        prepares.runs frames counter memory stands.left agree
      let temporary : Temporary := ⟨.bool, limit⟩
      refine ⟨value, OilType.char.hold value,
        middle.set temporary.spelling ⟨.char, OilType.char.hold value⟩, evaluated,
        compute_reaches .char temporary stands reaches here, ?_, ?_⟩
      · simp [Operand.value?, Memory.set, temporary]
      · simp only [Guard.TakesForZero, copied, Bool.false_eq_true, if_false]
        exact hold_char_eq_zero value

/-- In front of the place, the test of the guard is computed if its names have values, and the
guard at the place then jumps just when it takes the value of the test for zero. -/
def Guard.DecidesAt (analysis : Analysis) (guard : Guard) (place : Nat) : Prop :=
  ∃ before test condition behind,
    lines = before ++ test ++ .jumpUnless condition guard.label :: behind ∧
    (before ++ test).length = place ∧
    ∀ frames memory, AgreeOn analysis guard.test frames memory →
      ∃ value after, value? operators frames guard.test = some value ∧
        Reaches operators lines ⟨before.length, memory⟩ ⟨place, after⟩ ∧
        step operators lines ⟨place, after⟩ =
          if guard.TakesForZero value then Config.goto lines ⟨place, after⟩ guard.label
          else some ⟨place + 1, after⟩

theorem Guard.StandsAt.decides {guard : Guard} {place : Nat}
    (stands : guard.StandsAt analysis lines place) (expression : IsExpression guard.test) :
    guard.DecidesAt operators lines analysis place := by
  obtain ⟨number, before, behind, rfl, rfl⟩ := stands
  set condition := ((lowerCondition analysis guard.test).run number).1 with lowered
  refine ⟨before, condition.lines, condition.operand, behind, by simp, by simp, ?_⟩
  intro frames memory agree
  have decides := @lowerCondition_decides analysis operators
    (before ++ (condition.lines ++ [.jumpUnless condition.operand guard.label]) ++ behind)
    guard expression number
  have placed : CodeAt
      (before ++ (condition.lines ++ [.jumpUnless condition.operand guard.label]) ++ behind)
      before.length (condition.lines ++ [.jumpUnless condition.operand guard.label]) :=
    ⟨before, behind, rfl, rfl⟩
  obtain ⟨value, held, after, evaluated, reaches, here, zero⟩ :=
    decides frames before.length memory placed.left agree
  refine ⟨value, after, evaluated, reaches, ?_⟩
  rw [← lowered] at here
  simp only [step, placed.right.head, here, Option.bind_eq_bind, Option.bind_some, zero]
  rfl

/-- The guards of these statements, and no others, are among the lines, one behind the other, and
those with integer tests decide by them. -/
structure GuardsDecide (analysis : Analysis) (statements : List Tree) : Prop where
  labels : guardLabels lines = (guardsAll statements).map (·.label)
  decides : (guardsAll statements).Forall₂ (fun guard place => IsExpression guard.test →
    guard.DecidesAt operators lines analysis place) (guardPlaces lines)

theorem HasGuards.decide {statements : List Tree}
    (has : HasGuards analysis (statements.flatMap guards) lines) :
    GuardsDecide operators lines analysis statements where
  labels := by
    rw [guardsAll_eq_flatMap]
    exact has.labels
  decides := by
    rw [guardsAll_eq_flatMap]
    exact has.stand.imp fun _ _ stands => stands.decides operators lines

theorem Function.IsMadeOf.guardsDecide {function : Function} {declarator body : Tree}
    (made : function.IsMadeOf analysis declarator body) :
    GuardsDecide operators function.body analysis body.children := by
  obtain ⟨number, lowered⟩ := made.lines
  have has : HasGuards analysis (body.children.flatMap guards) function.body := by
    rw [lowered]
    exact isStatementLaw_guards.body_lines (fun _ _ => trivial) number
  exact has.decide operators function.body

end

theorem generate_guardsDecide (operators : Operators) (analysis : Analysis) (root : Tree) :
    GuardsDecide operators (generate analysis root).main analysis
      (root.children.filter (!isDefinition ·.kind)) := by
  have ends : Ends (generateNumbered analysis root) firstTemporary fun program _ =>
      HasGuards analysis ((root.children.filter (!isDefinition ·.kind)).flatMap guards)
        program.main := by
    apply Ends.bind
    apply Ends.run
    apply Ends.bind
    apply (isStatementLaw_guards.main_lines (fun _ _ => trivial) _).imp
    intro main _ has
    exact .pure has
  exact HasGuards.decide operators (generate analysis root).main ends

end

end Oil

open Oil Source

/-- The guards of a compiled text belong to the loops and branches of the tree and decide by
their tests, as far as these are integer expressions. -/
structure DecidesByTests (operators : Operators) (root : Tree) (text : String) : Prop where
  rendered : text = root.program.render
  entry : GuardsDecide operators root.program.main (analyze root).2
    ((analyze root).1.children.filter (!isDefinition ·.kind))
  functions : ∀ function ∈ root.program.functions,
    ∃ item ∈ (analyze root).1.children, item.kind = .function ∧
      ∃ declarator parameters body, item.children = [declarator, parameters, body] ∧
        declarator.declaredName?.map (·.text) = some function.name ∧
        GuardsDecide operators function.body (analyze root).2 body.children

/-- Every loop and branch is decided by the truth of its test, except that a number is taken for
zero when its last eight bits are. -/
theorem compile_decidesByTests (operators : Operators) (warningsAsErrors : Bool) (root : Tree)
    (text : String) (generated : (compile warningsAsErrors root).oil = some text) :
    DecidesByTests operators root text where
  rendered := oil_eq generated
  entry := generate_guardsDecide operators (analyze root).2 (analyze root).1
  functions function member := by
    have made : Ends (lowerFunctions (analyze root).2
        ((analyze root).1.children.filter (·.kind == .function))) firstTemporary _ :=
      lowerFunctions_each (fun tree _ => lowerFunction_made tree) firstTemporary
    obtain ⟨item, known, declarator, parameters, body, children, made⟩ := made function member
    have both := List.mem_filter.mp known
    exact ⟨item, both.1, by simpa using both.2, declarator, parameters, body, children, made.name,
      made.guardsDecide operators⟩

def countingDownTwice : Tree :=
  let b : TreeBuilder := {}
  let n (line column : UInt32) := b.identifier ⟨line, column⟩ "n"
  let less (line : UInt32) := b.assign ⟨line, 7⟩ (n line 5) (b.operation (.binary .sub) ⟨line, 11⟩
    [n line 9, b.int ⟨line, 13⟩ 1])
  b.root "countingDownTwice" [
    b.function ⟨1, 1⟩ (b.declarator .declaredName false "int" ⟨1, 1⟩ ⟨1, 5⟩ "down")
      [b.declarator .declaredName false "int" ⟨1, 10⟩ ⟨1, 14⟩ "n"]
      (b.block ⟨1, 17⟩ [
        b.whileLoop ⟨2, 3⟩ (n 2 10) (less 3),
        b.returning ⟨4, 3⟩ (some (n 4 10))]),
    b.declaration ⟨5, 7⟩ (b.declarator .declaredName false "int" ⟨5, 1⟩ ⟨5, 5⟩ "n")
      (some (b.int ⟨5, 9⟩ 300)),
    b.ifElse ⟨6, 1⟩ (b.operation (.unary .not) ⟨6, 5⟩ [n 6 6]) (less 7)
      (b.whileLoop ⟨8, 3⟩ (b.operation (.binary .gt) ⟨8, 12⟩ [n 8 10, b.int ⟨8, 14⟩ 0]) (less 9))]

theorem countingDownTwice_decides : ∃ text, (compile false countingDownTwice).oil = some text ∧
    countingDownTwice.program.bodies.map (fun body => (guardLabels body).map (·.stem)) =
      [["break"], ["else", "break"]] ∧
    DecidesByTests .int32 countingDownTwice text := by
  have accepted : (compile false countingDownTwice).oil.isSome = true := by decide +kernel
  obtain ⟨text, generated⟩ := Option.isSome_iff_exists.mp accepted
  exact ⟨text, generated, by decide +kernel,
    compile_decidesByTests .int32 false countingDownTwice text generated⟩

def wideTest : Tree :=
  let b : TreeBuilder := {}
  b.root "wideTest" [
    b.declaration ⟨1, 10⟩ (b.declarator .declaredName false "int" ⟨1, 1⟩ ⟨1, 5⟩ "flag")
      (some (b.int ⟨1, 12⟩ 256)),
    b.ifThen ⟨2, 1⟩ (b.identifier ⟨2, 5⟩ "flag")
      (b.assign ⟨2, 16⟩ (b.identifier ⟨2, 11⟩ "flag") (b.int ⟨2, 18⟩ 0))]

/-- The branch is skipped although its test is 256: from the guard, which is the third line, the
machine goes on at the last line. -/
theorem wideTest_skips : ∃ text, (compile false wideTest).oil = some text ∧
    (guardsAll wideTest.children).map (fun guard => value? .int32 [[("flag", 256)]] guard.test) =
      [some 256] ∧
    wideTest.program.main[2]?.bind Line.guardLabel? = some (endLabel ⟨0, 2, 1⟩) ∧
    (runFor .int32 wideTest.program.main 2 ⟨0, wideTest.program.start⟩).map
      (fun config => (config.counter, (config.memory "_0_flag").map (·.value))) =
        some (2, some 256) ∧
    (runFor .int32 wideTest.program.main 3 ⟨0, wideTest.program.start⟩).map (·.counter) =
      some 4 := by
  have accepted : (compile false wideTest).oil.isSome = true := by decide +kernel
  obtain ⟨text, generated⟩ := Option.isSome_iff_exists.mp accepted
  exact ⟨text, generated, by decide +kernel, by decide +kernel, by decide +kernel,
    by decide +kernel⟩

end OcLang
