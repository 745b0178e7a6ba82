import OcLang.Proofs.Execution.Expressions

namespace OcLang.Oil

open Lexical Source

/-! # Integer programs run as they are lowered -/

/-! ## Places in an integer program

Behind a statement the names of the scopes around it mean what they meant
before, unless the statement is a declaration. -/

section

variable {context : Context}

private theorem latest?_children {children : List Tree} {scope : Nat} {name : String}
    (each : ∀ child ∈ children, ∀ {context : Context}, context.Ordered → scope ≤ context.opened →
      scope ≠ context.innermost →
      (after context child).latest? scope name = context.latest? scope name)
    (ordered : context.Ordered) (known : scope ≤ context.opened)
    (other : scope ≠ context.innermost) :
    (afterAll context children).latest? scope name = context.latest? scope name := by
  induction children generalizing context with
  | nil => rfl
  | cons child rest induction =>
      have first := precedes_after child ordered
      have sameInnermost : (after context child).innermost = context.innermost := by
        simp [Context.innermost]
      rw [afterAll, induction (fun tree member => each tree (by simp [member])) first.ordered
        (Nat.le_trans known first.opened) (by rwa [sameInnermost])]
      exact each child (by simp) ordered known other

theorem declaredName?_scalar {place : Location} {word : String} {note : Note} {name : Tree}
    (named : name.kind = .declaredName) :
    Tree.declaredName? ⟨.type .int, place, word, note, [name]⟩ = some name := by
  simp [Tree.declaredName?, named, Kind.isNaming, Option.filter]

theorem latest?_after_statement {mayDeclare : Bool} {tree : Tree}
    (statement : IsStatement mayDeclare tree) (ordered : context.Ordered) {scope : Nat}
    (known : scope ≤ context.opened)
    (other : mayDeclare = true → scope ≠ context.innermost) (name : String) :
    (after context tree).latest? scope name = context.latest? scope name := by
  induction statement generalizing context with
  | declaration location place text word note typeNote declared value named expression =>
      have plain : after context ⟨.variable, location, text, note,
          [⟨.type .int, place, word, typeNote, [declared]⟩, value]⟩ =
          context.declare (.variable (some value)) declared := by
        simp [after, afterSimple, declaredName?_scalar named]
      rw [plain, context.latest?_declare, if_neg fun both => other rfl both.2]
  | assign => rfl
  | block mayDeclare location text note children statements induction =>
      have inner : scope ≠ context.enter.innermost := by
        have opened : context.enter.innermost = context.opened + 1 := rfl
        omega
      exact latest?_children
        (fun child member _ ordered known other => induction child member ordered known fun _ => other)
        ordered.enter (Nat.le_succ_of_le known) inner
  | whileLoop mayDeclare location text note test body condition inner induction =>
      exact induction ordered known (by simp)
  | ifThen mayDeclare location text note test consequence condition inner induction =>
      exact induction ordered known (by simp)
  | ifElse mayDeclare location text note test consequence alternative condition first second
      induction inductionSecond =>
      have between := precedes_after consequence ordered
      exact (inductionSecond between.ordered (Nat.le_trans known between.opened) (by simp)).trans
        (induction ordered known (by simp))

/-- Behind a statement that declares nothing memory matches as before. -/
theorem Matches.after {names : List String} {frames : List Frame} {memory : Memory} {tree : Tree}
    (matching : Matches names context frames memory) (statement : IsStatement false tree)
    (ordered : context.Ordered) : Matches names (after context tree) frames memory := by
  have sameScopes : (Lexical.after context tree).scopes = context.scopes := by
    simp [Context.scopes]
  refine ⟨?_, matching.file⟩
  rw [sameScopes]
  refine matching.frames.congr fun scope member name => ⟨?_, rfl⟩
  rw [latest?_after_statement statement ordered (ordered.scopes_le member) (by simp)]

theorem Matches.before {names : List String} {frames : List Frame} {memory : Memory} {tree : Tree}
    (matching : Matches names (Lexical.after context tree) frames memory)
    (statement : IsStatement false tree) (ordered : context.Ordered) :
    Matches names context frames memory := by
  have sameScopes : (Lexical.after context tree).scopes = context.scopes := by
    simp [Context.scopes]
  have shows := matching.frames
  rw [sameScopes] at shows
  refine ⟨shows.congr fun scope member name => ⟨?_, rfl⟩, matching.file⟩
  rw [latest?_after_statement statement ordered (ordered.scopes_le member) (by simp)]

end

/-! ## Outcomes and runs -/

section

variable {operators : Operators} {lines : List Line}

variable (operators lines) in
/-- The machine gets as far as the source does: to the end of a statement that
ends, and through as many steps as rounds were allowed for one that does not. -/
def Simulates (rounds : Nat) (config : Config) (outcome : Outcome)
    (holds : List Frame → Config → Prop) : Prop :=
  match outcome with
  | .done frames => ∃ final, Reaches operators lines config final ∧ holds frames final
  | .stuck => False
  | .timeout => Survives operators lines rounds config

namespace Simulates

variable {rounds : Nat} {config middle : Config} {outcome : Outcome}
  {holds : List Frame → Config → Prop}

theorem done {frames : List Frame} (here : holds frames config) :
    Simulates operators lines rounds config (.done frames) holds :=
  ⟨config, .refl config, here⟩

theorem reaching (reaches : Reaches operators lines config middle)
    (simulates : Simulates operators lines rounds middle outcome holds) :
    Simulates operators lines rounds config outcome holds := by
  cases outcome with
  | done frames =>
      obtain ⟨final, further, here⟩ := simulates
      exact ⟨final, reaches.trans further, here⟩
  | stuck => exact simulates
  | timeout => exact Survives.of_reaches simulates reaches

theorem stepping (stepped : step operators lines config = some middle)
    (simulates : Simulates operators lines rounds middle outcome holds) :
    Simulates operators lines (rounds + 1) config outcome holds := by
  cases outcome with
  | done frames => exact reaching (.step stepped) simulates
  | stuck => exact simulates
  | timeout => exact Survives.of_step simulates stepped

theorem of_le {fewer : Nat} (simulates : Simulates operators lines rounds config outcome holds)
    (le : fewer ≤ rounds) : Simulates operators lines fewer config outcome holds := by
  cases outcome with
  | timeout => exact Survives.of_le simulates le
  | _ => exact simulates

theorem extend {weaker : List Frame → Config → Prop}
    (simulates : Simulates operators lines rounds config outcome holds)
    (further : ∀ frames final, holds frames final →
      ∃ last, Reaches operators lines final last ∧ weaker frames last) :
    Simulates operators lines rounds config outcome weaker := by
  cases outcome with
  | done frames =>
      obtain ⟨final, reaches, here⟩ := simulates
      obtain ⟨last, reachesLast, there⟩ := further frames final here
      exact ⟨last, reaches.trans reachesLast, there⟩
  | _ => exact simulates

theorem imp {weaker : List Frame → Config → Prop}
    (simulates : Simulates operators lines rounds config outcome holds)
    (implies : ∀ frames final, holds frames final → weaker frames final) :
    Simulates operators lines rounds config outcome weaker :=
  simulates.extend fun frames final here => ⟨final, .refl final, implies frames final here⟩

theorem andThen {next : List Frame → Outcome} {weaker : List Frame → Config → Prop}
    (simulates : Simulates operators lines rounds config outcome holds)
    (rest : ∀ frames final, holds frames final →
      Simulates operators lines rounds final (next frames) weaker) :
    Simulates operators lines rounds config (outcome.andThen next) weaker := by
  cases outcome with
  | done frames =>
      obtain ⟨final, reaches, here⟩ := simulates
      exact reaching reaches (rest frames final here)
  | stuck => exact simulates
  | timeout => exact simulates

end Simulates

/-! ## Code that does what the source does -/

variable {names : List String} {context middle later : Context} {code more : List Line}

variable (operators lines names) in
def RunsAs (context later : Context) (source : Nat → List Frame → Outcome) (code : List Line) :
    Prop :=
  ∀ rounds frames counter memory, CodeAt lines counter code →
    Matches names context frames memory →
    Simulates operators lines rounds ⟨counter, memory⟩ (source rounds frames) fun frames final =>
      final.counter = counter + code.length ∧ Matches names later frames final.memory

theorem RunsAs.append {source next : Nat → List Frame → Outcome}
    (first : RunsAs operators lines names context middle source code)
    (second : RunsAs operators lines names middle later next more) :
    RunsAs operators lines names context later
      (fun rounds frames => (source rounds frames).andThen (next rounds)) (code ++ more) := by
  intro rounds frames counter memory stands matching
  refine (first rounds frames counter memory stands.left matching).andThen ?_
  rintro frames ⟨_, memory⟩ ⟨rfl, matching⟩
  refine (second rounds frames _ memory stands.right matching).imp ?_
  rintro frames final ⟨reached, matching⟩
  exact ⟨by rw [reached, List.length_append, Nat.add_assoc], matching⟩

theorem RunsAs.block {source : Nat → List Frame → Outcome} {inner : Context}
    (runs : RunsAs operators lines names context.enter inner source code)
    (ordered : context.Ordered) (enclosing : inner.enclosing = context.enter.enclosing) :
    RunsAs operators lines names context (context.close inner)
      (fun rounds frames => (source rounds ([] :: frames)).andThen fun frames =>
        .done frames.tail) code := by
  intro rounds frames counter memory stands matching
  have empty : ShowsFrame context.enter memory (context.opened + 1) [] := by
    intro name
    simp [ordered.latest?_enter name]
  have entered : Matches names context.enter ([] :: frames) memory :=
    ⟨⟨empty, matching.frames.congr fun _ _ _ => ⟨rfl, rfl⟩⟩, matching.file⟩
  refine (runs rounds _ counter memory stands entered).andThen ?_
  rintro frames final ⟨reached, matching⟩
  refine .done ⟨reached, ?_, matching.file⟩
  have shows := matching.frames
  rw [Context.scopes, enclosing] at shows
  cases frames with
  | nil => exact shows.elim
  | cons frame frames => exact shows.2.congr fun _ _ _ => ⟨rfl, rfl⟩

/-! ## Statements that hold no statements -/

variable {analysis : Analysis}

theorem Matches.keeps {frames : List Frame} {memory after : Memory} {first limit : Nat}
    (matching : Matches names context frames memory) (keeps : KeepsBut first limit memory after) :
    Matches names context frames after := by
  refine ⟨keeps.showsFrames matching.frames, fun name member => ?_⟩
  rw [keeps.variable_eq]
  exact matching.file name member

theorem file_set {memory : Memory} (file : ∀ name ∈ names, ∃ value,
      memory (VariableName.declared 0 name).spelling = some ⟨.int, value⟩)
    (changed : String) (value : Int) : ∀ name ∈ names, ∃ value',
      memory.set changed ⟨.int, value⟩ (VariableName.declared 0 name).spelling =
        some ⟨.int, value'⟩ := by
  intro name member
  by_cases same : (VariableName.declared 0 name).spelling = changed
  · exact ⟨value, if_pos same⟩
  · obtain ⟨old, stored⟩ := file name member
    exact ⟨old, by rw [Memory.set, if_neg same, stored]⟩

theorem kind_ne_string {tree : Tree} (expression : IsExpression tree) :
    (tree.kind == .literal .string) = false := by
  cases expression <;> rfl

theorem ofDeclarator_scalar {place : Location} {word : String} {note : Note} {name : Tree}
    (named : name.kind = .declaredName) :
    OilType.ofDeclarator ⟨.type .int, place, word, note, [name]⟩ = .int := by
  simp [OilType.ofDeclarator, Tree.hasArrayMark, named, OilType.ofKeyword]

/-- A variable is stored to where it exists already: at file scope, and where it
takes over from another one. -/
theorem declaration_runs {placement : Placement} {location place : Location} {text word : String}
    {note typeNote : Note} {name value : Tree} (named : name.kind = .declaredName)
    (expression : IsExpression value) (ordered : context.Ordered)
    (resolved : Resolved analysis.symbols (events context
      ⟨.variable, location, text, note, [⟨.type .int, place, word, typeNote, [name]⟩, value]⟩))
    (atFile : placement = .file → context.innermost = 0 ∧ name.text ∈ names) (number : Nat) :
    Ends (lowerStatement analysis placement
      ⟨.variable, location, text, note, [⟨.type .int, place, word, typeNote, [name]⟩, value]⟩)
      number fun code _ =>
        RunsAs operators lines names context (context.declare (.variable (some value)) name)
          (fun rounds => run operators rounds ⟨.variable, location, text, note,
            [⟨.type .int, place, word, typeNote, [name]⟩, value]⟩) code := by
  simp only [events, simpleEvents, declaredName?_scalar named, List.head?_cons, Option.toList_some,
    usesAll, Resolved.append] at resolved
  have declares := (resolved.2 _ (List.mem_singleton.mpr rfl)).1
  have target := variableName_declaration declares
  have replaces := replacesVariable_declaration declares
  simp only [lowerStatement, lowerSimple, lowerDeclaration, declaredName?_scalar named,
    kind_ne_string expression, ofDeclarator_scalar named, target]
  refine .bind ((lowerValue_computes operators lines expression
    resolved.1.1 number).imp fun lowered limit computes => .pure ?_)
  intro rounds frames counter memory stands matching
  obtain ⟨result, after, evaluated, reaches, keeps, held⟩ :=
    computes.runs frames counter memory stands.left matching.frames
  have kept := matching.keeps keeps
  -- A declaration without a line of its own stores into a variable that memory has already.
  have known : (placement == .file || replacesVariable analysis name) = true →
      ∃ old, after (VariableName.declared context.innermost name.text).spelling =
        some ⟨.int, old⟩ := by
    intro existing
    rcases Bool.or_eq_true _ _ ▸ existing with file | replacing
    · obtain ⟨innermost, member⟩ := atFile (by simpa using file)
      rw [innermost]
      exact kept.file name.text member
    · refine kept.frames.innermost ?_
      rw [replaces] at replacing
      simp only [Context.replaced?, Role.isVariable, if_true, Option.isSome_map] at replacing
      exact Option.isSome_of_isSome_filter _ _ replacing
  have stepped : step operators lines ⟨counter + lowered.lines.length, after⟩ =
      some ⟨counter + lowered.lines.length + 1,
        after.set (VariableName.declared context.innermost name.text).spelling ⟨.int, result⟩⟩ := by
    have head := stands.right.head
    by_cases existing : (placement == .file || replacesVariable analysis name) = true
    · obtain ⟨old, stored⟩ := known existing
      rw [if_pos existing] at head
      simp [step, head, Context.scopeOf, stored, held, Config.write, OilType.hold]
    · rw [if_neg existing] at head
      simp [step, head, Context.scopeOf, held, Config.write, OilType.hold]
  have ends : run operators rounds ⟨.variable, location, text, note,
      [⟨.type .int, place, word, typeNote, [name]⟩, value]⟩ frames =
      .done (Source.declare name.text result frames) := by
    simp [run, declaredName?_scalar named, evaluated]
  dsimp only
  rw [ends]
  refine ⟨_, reaches.trans (.step stepped), by simp [Nat.add_assoc], ?_, file_set kept.file _ _⟩
  exact kept.frames.declare ordered (.variable (some value)) rfl name result

theorem assign_runs {placement : Placement} {location place : Location} {text name : String}
    {note nameNote : Note} {value : Tree} (expression : IsExpression value)
    (ordered : context.Ordered)
    (resolved : Resolved analysis.symbols (events context
      ⟨.assign, location, text, note, [⟨.identifier, place, name, nameNote, []⟩, value]⟩))
    (number : Nat) :
    Ends (lowerStatement analysis placement
      ⟨.assign, location, text, note, [⟨.identifier, place, name, nameNote, []⟩, value]⟩)
      number fun code _ =>
        RunsAs operators lines names context context
          (fun rounds => run operators rounds
            ⟨.assign, location, text, note, [⟨.identifier, place, name, nameNote, []⟩, value]⟩)
          code := by
  simp only [events, simpleEvents, Kind.isSilent, Bool.false_eq_true, if_false, uses, leafEvents,
    Resolved.append] at resolved
  obtain ⟨holds, known⟩ := resolved.1 _ (List.mem_singleton.mpr rfl)
  cases found : context.resolve? name with
  | none => simp [Event.unresolved?, found] at known
  | some meant =>
      have target := variableName_use holds found
      simp only [lowerStatement, lowerSimple, lower, lowerStore, kind_ne_string expression, lowerLeaf,
        target]
      refine .bind (.bind (.pure (.bind ((lower_computes operators lines
        expression resolved.2 number).imp fun lowered limit computes => ?_))))
      rw [readValue, if_pos (isDirect_of_expression expression)]
      refine .bind (.pure (.pure (.pure ?_)))
      change RunsAs operators lines names context context _
        (lowered.lines ++ [.store (.variable (.declared meant.scope name)) lowered.operand])
      intro rounds frames counter memory stands matching
      obtain ⟨result, after, evaluated, reaches, keeps, held⟩ :=
        computes.runs frames counter memory stands.left matching.frames
      have kept := matching.keeps keeps
      obtain ⟨old, looked, stored⟩ := find?_eq kept.frames found
      obtain ⟨changed, assigned, shows⟩ := kept.frames.assign ordered.nested found result
      have stepped : step operators lines ⟨counter + lowered.lines.length, after⟩ =
          some ⟨counter + lowered.lines.length + 1,
            after.set (VariableName.declared meant.scope name).spelling ⟨.int, result⟩⟩ := by
        have head := stands.right.head
        simp [step, head, stored, held, Config.write, OilType.hold]
      have ends : run operators rounds ⟨.assign, location, text, note,
          [⟨.identifier, place, name, nameNote, []⟩, value]⟩ frames = .done changed := by
        simp [run, evaluated, assigned]
      dsimp only
      rw [ends]
      exact ⟨_, reaches.trans (.step stepped), by simp [Nat.add_assoc], shows,
        file_set kept.file _ _⟩

/-! ## Loops and branches -/

section

variable (distinct : ((anchors lines).map (·.spelling)).Nodup)

include distinct

omit distinct in
theorem anchor_step {counter : Nat} {label : Label} {memory : Memory}
    (stands : CodeAt lines counter (.anchor label :: code)) :
    step operators lines ⟨counter, memory⟩ = some ⟨counter + 1, memory⟩ := by
  simp [step, stands.head, Config.next]

theorem jumpUnless_zero {config : Config} {condition : Operand} {label : Label} {target : Nat}
    (stands : CodeAt lines config.counter (.jumpUnless condition label :: code))
    (labelled : CodeAt lines target (.anchor label :: more))
    (zero : condition.value? operators config.memory = some 0) :
    Reaches operators lines config ⟨target + 1, config.memory⟩ := by
  have jump : step operators lines config = some ⟨target, config.memory⟩ := by
    simp [step, stands.head, zero, labelled.goto distinct]
  exact (Reaches.step jump).trans (.step (anchor_step labelled))

omit distinct in
theorem jumpUnless_other {config : Config} {condition : Operand} {label : Label} {value : Int}
    (stands : CodeAt lines config.counter (.jumpUnless condition label :: code))
    (computed : condition.value? operators config.memory = some value) (other : value ≠ 0) :
    Reaches operators lines config config.next :=
  .step (by simp [step, stands.head, computed, other])

theorem while_runs {location : Location} {text : String} {note : Note} {test body : Tree}
    {first limit : Nat} {condition : Lowered} {bodyCode whole : List Line}
    (computes : Computes operators lines context test first limit condition)
    (inner : IsStatement false body) (ordered : context.Ordered)
    (bodyRuns : RunsAs operators lines names context (after context body)
      (fun rounds => run operators rounds body) bodyCode)
    (form : whole = [.anchor (loopLabel location)] ++ condition.lines ++
      [.jumpUnless condition.operand (exitLabel location)] ++ bodyCode ++
      [.jump (loopLabel location), .anchor (exitLabel location)]) :
    RunsAs operators lines names context (after context body)
      (fun rounds => run operators rounds ⟨.whileLoop, location, text, note, [test, body]⟩)
      whole := by
  intro rounds frames counter memory stands matching
  simp only [run]
  -- The rounds left for this loop are never more than a loop inside it may take.
  suffices loop : ∀ left ≤ rounds, ∀ frames memory, Matches names context frames memory →
      Simulates operators lines left ⟨counter, memory⟩
        (repeatWhile (fun frames => value? operators frames test) (run operators rounds body) left
          frames) fun frames final =>
        final.counter = counter + whole.length ∧
          Matches names (after context body) frames final.memory from
    loop rounds (Nat.le_refl _) frames memory matching
  subst form
  have anchored := stands.left.left.left.left
  have atTest := stands.left.left.left.right
  have atJump := stands.left.left.right.at_eq
    (show _ = counter + 1 + condition.lines.length by simp; omega)
  have atBody := stands.left.right.at_eq
    (show _ = counter + 1 + condition.lines.length + 1 by simp; omega)
  have atEnd := stands.right.at_eq
    (show _ = counter + 1 + condition.lines.length + 1 + bodyCode.length by simp; omega)
  intro left
  induction left with
  | zero => exact fun _ _ _ _ => rfl
  | succ left induction =>
      intro enough frames memory matching
      obtain ⟨value, between, evaluated, reaches, keeps, held⟩ :=
        computes.runs frames _ memory atTest matching.frames
      have kept := matching.keeps keeps
      refine .stepping (anchor_step anchored) (.reaching reaches ?_)
      simp only [repeatWhile, evaluated, choose]
      split
      · rename_i zero
        subst zero
        refine .reaching (jumpUnless_zero distinct atJump atEnd.tail held)
          (.done ⟨?_, kept.after inner ordered⟩)
        simp
        omega
      · rename_i other
        refine .reaching (jumpUnless_other atJump held other) ?_
        refine Simulates.andThen ((bodyRuns rounds frames _ between atBody kept).of_le (by omega)) ?_
        rintro frames ⟨_, memory⟩ ⟨rfl, matching⟩
        -- The body has declared nothing in this scope, so the next round begins as this one did.
        have back : step operators lines
            ⟨counter + 1 + condition.lines.length + 1 + bodyCode.length, memory⟩ =
            some ⟨counter, memory⟩ := by
          simp [step, atEnd.head, anchored.goto distinct]
        exact .reaching (.step back)
          (induction (by omega) frames memory (matching.before inner ordered))

theorem if_runs {location : Location} {text : String} {note : Note} {test body : Tree}
    {first limit : Nat} {condition : Lowered} {bodyCode : List Line}
    (computes : Computes operators lines context test first limit condition)
    (inner : IsStatement false body) (ordered : context.Ordered)
    (bodyRuns : RunsAs operators lines names context (after context body)
      (fun rounds => run operators rounds body) bodyCode) :
    RunsAs operators lines names context (after context body)
      (fun rounds => run operators rounds ⟨.ifThen, location, text, note, [test, body]⟩)
      (branchLines .ifThen location condition [bodyCode]) := by
  intro rounds frames counter memory stands matching
  have atJump := stands.left.left.right
  have atBody := stands.left.right.at_eq
    (show _ = counter + condition.lines.length + 1 by simp; omega)
  have atEnd := stands.right.at_eq
    (show _ = counter + condition.lines.length + 1 + bodyCode.length by simp; omega)
  obtain ⟨value, between, evaluated, reaches, keeps, held⟩ :=
    computes.runs frames counter memory stands.left.left.left matching.frames
  have kept := matching.keeps keeps
  refine .reaching reaches ?_
  simp only [run, evaluated, choose]
  split
  · rename_i zero
    subst zero
    refine .reaching (jumpUnless_zero distinct atJump atEnd held)
      (.done ⟨?_, kept.after inner ordered⟩)
    simp [branchLines]
    omega
  · rename_i other
    refine .reaching (jumpUnless_other atJump held other) ?_
    refine Simulates.extend (bodyRuns rounds frames _ between atBody kept) ?_
    rintro frames ⟨_, memory⟩ ⟨rfl, matching⟩
    refine ⟨_, .step (anchor_step atEnd), ?_, matching⟩
    simp [branchLines]
    omega

theorem ifElse_runs {location : Location} {text : String} {note : Note}
    {test consequence alternative : Tree} {first limit : Nat} {condition : Lowered}
    {firstCode secondCode : List Line}
    (computes : Computes operators lines context test first limit condition)
    (inner : IsStatement false consequence) (other : IsStatement false alternative)
    (ordered : context.Ordered)
    (firstRuns : RunsAs operators lines names context (after context consequence)
      (fun rounds => run operators rounds consequence) firstCode)
    (secondRuns : RunsAs operators lines names (after context consequence)
      (after (after context consequence) alternative)
      (fun rounds => run operators rounds alternative) secondCode) :
    RunsAs operators lines names context (after (after context consequence) alternative)
      (fun rounds => run operators rounds
        ⟨.ifElse, location, text, note, [test, consequence, alternative]⟩)
      (branchLines .ifElse location condition [firstCode, secondCode]) := by
  intro rounds frames counter memory stands matching
  -- The alternative lies behind the consequence in the text, whichever of them runs.
  have between := (precedes_after consequence ordered).ordered
  have atJump := stands.left.left.left.left.right
  have atFirst := stands.left.left.left.right.at_eq
    (show _ = counter + condition.lines.length + 1 by simp; omega)
  have atMiddle := stands.left.left.right.at_eq
    (show _ = counter + condition.lines.length + 1 + firstCode.length by simp; omega)
  have atSecond := stands.left.right.at_eq
    (show _ = counter + condition.lines.length + 1 + firstCode.length + 1 + 1 by simp; omega)
  have atEnd := stands.right.at_eq
    (show _ = counter + condition.lines.length + 1 + firstCode.length + 1 + 1 + secondCode.length
      by simp; omega)
  have length : counter + (branchLines .ifElse location condition [firstCode, secondCode]).length =
      counter + condition.lines.length + 1 + firstCode.length + 1 + 1 + secondCode.length + 1 := by
    simp [branchLines]
    omega
  rw [length]
  obtain ⟨value, reached, evaluated, reaches, keeps, held⟩ :=
    computes.runs frames counter memory stands.left.left.left.left.left matching.frames
  have kept := matching.keeps keeps
  refine .reaching reaches ?_
  simp only [run, evaluated, choose]
  split
  · rename_i zero
    subst zero
    refine .reaching (jumpUnless_zero distinct atJump atMiddle.tail held) ?_
    refine Simulates.extend (secondRuns rounds frames _ reached atSecond
      (kept.after inner ordered)) ?_
    rintro frames ⟨_, memory⟩ ⟨rfl, matching⟩
    exact ⟨_, .step (anchor_step atEnd), rfl, matching⟩
  · rename_i notZero
    refine .reaching (jumpUnless_other atJump held notZero) ?_
    refine Simulates.extend (firstRuns rounds frames _ reached atFirst kept) ?_
    rintro frames ⟨_, memory⟩ ⟨rfl, matching⟩
    have jump : step operators lines
        ⟨counter + condition.lines.length + 1 + firstCode.length, memory⟩ =
        some ⟨counter + condition.lines.length + 1 + firstCode.length + 1 + 1 + secondCode.length,
          memory⟩ := by
      simp [step, atMiddle.head, atEnd.goto distinct]
    exact ⟨_, (Reaches.step jump).trans (.step (anchor_step atEnd)), rfl,
      matching.after other between⟩

omit distinct in
theorem statements_run {children : List Tree}
    (each : ∀ child ∈ children, ∀ {context : Context}, context.Ordered →
      Resolved analysis.symbols (events context child) → ∀ number,
      Ends (lowerStatement analysis .nested child) number fun code _ =>
        RunsAs operators lines names context (after context child)
          (fun rounds => run operators rounds child) code)
    (ordered : context.Ordered) (resolved : Resolved analysis.symbols (eventsAll context children))
    (number : Nat) :
    Ends (lowerStatements analysis children) number fun code _ =>
      RunsAs operators lines names context (afterAll context children)
        (fun rounds => runAll operators rounds children) code := by
  induction children generalizing context number with
  | nil =>
      refine .pure fun rounds frames counter memory _ matching => .done ⟨rfl, matching⟩
  | cons child rest induction =>
      simp only [eventsAll, Resolved.append] at resolved
      have next := (precedes_after child ordered).ordered
      refine .bind ((each child (by simp) ordered resolved.1 number).imp
        fun code middle runs => ?_)
      refine .bind ((induction (fun tree member => each tree (by simp [member])) next resolved.2
        middle).imp fun more _ runsRest => .pure ?_)
      exact runs.append runsRest

variable (operators) in
/-- The code of a statement does what the statement does. -/
theorem lowerStatement_runs {mayDeclare : Bool} {tree : Tree}
    (statement : IsStatement mayDeclare tree) (placement : Placement) (ordered : context.Ordered)
    (resolved : Resolved analysis.symbols (events context tree))
    (atFile : placement = .file → context.innermost = 0 ∧
      ∀ name, declaredVariable? tree = some name → name ∈ names) (number : Nat) :
    Ends (lowerStatement analysis placement tree) number fun code _ =>
      RunsAs operators lines names context (after context tree)
        (fun rounds => run operators rounds tree) code := by
  induction statement generalizing context placement number with
  | declaration location place text word note typeNote name value named expression =>
      have plain : after context ⟨.variable, location, text, note,
          [⟨.type .int, place, word, typeNote, [name]⟩, value]⟩ =
          context.declare (.variable (some value)) name := by
        simp [after, afterSimple, declaredName?_scalar named]
      rw [plain]
      refine declaration_runs named expression ordered resolved (fun file => ?_) number
      obtain ⟨innermost, listed⟩ := atFile file
      exact ⟨innermost, listed name.text (by simp [declaredVariable?, declaredName?_scalar named])⟩
  | assign mayDeclare location place text name note nameNote value expression =>
      exact assign_runs expression ordered resolved number
  | block mayDeclare location text note children statements induction =>
      simp only [lowerStatement]
      refine (statements_run (fun child member _ ordered resolved number =>
        induction child member .nested ordered resolved (by simp) number) ordered.enter resolved
        number).imp fun code _ runs => ?_
      exact runs.block ordered (by simp)
  | whileLoop mayDeclare location text note test body condition inner induction =>
      rw [events_control context rfl, Resolved.append] at resolved
      simp only [lowerStatement]
      refine .bind ((lowerCondition_computes operators lines condition
        resolved.1 number).imp fun lowered middle computes => ?_)
      refine .bind ((induction .nested ordered (by simpa [eventsAll] using resolved.2) (by simp)
        middle).imp fun code _ runs => .pure ?_)
      exact while_runs distinct computes inner ordered runs rfl
  | ifThen mayDeclare location text note test consequence condition inner induction =>
      rw [events_control context rfl, Resolved.append] at resolved
      simp only [lowerStatement, lowerBranches]
      refine .bind ((lowerCondition_computes operators lines condition
        resolved.1 number).imp fun lowered middle computes => ?_)
      refine .bind (.bind ((induction .nested ordered (by simpa [eventsAll] using resolved.2)
        (by simp) middle).imp fun code _ runs => .pure (.pure ?_)))
      exact if_runs distinct computes inner ordered runs
  | ifElse mayDeclare location text note test consequence alternative condition first second
      induction inductionSecond =>
      rw [events_control context rfl, Resolved.append] at resolved
      simp only [eventsAll, List.append_nil, Resolved.append] at resolved
      have between := (precedes_after consequence ordered).ordered
      simp only [lowerStatement, lowerBranches]
      refine .bind ((lowerCondition_computes operators lines condition
        resolved.1 number).imp fun lowered middle computes => ?_)
      refine .bind (.bind ((induction .nested ordered resolved.2.1 (by simp) middle).imp
        fun code last runs => ?_))
      refine .bind ((inductionSecond .nested between resolved.2.2 (by simp) last).imp
        fun more _ runsSecond => .pure (.pure ?_))
      exact ifElse_runs distinct computes first second ordered runs runsSecond

end

end

end OcLang.Oil
