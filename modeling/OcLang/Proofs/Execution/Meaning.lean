import OcLang.Proofs.Execution.Simulation
import OcLang.Proofs.Oil.Output
import OcLang.Proofs.Scoping.Resolution
import OcLang.Tree.Build

namespace OcLang

namespace Oil

open Lexical Source

/-! # Lowering keeps the meaning of integer programs -/

section

variable (operators : Operators) {lines : List Line} {names : List String} {analysis : Analysis}
  {context : Context}

/-! ## The variables of the file -/

/-- A statement of the file declares its variable, and no name is forgotten. -/
theorem latest?_item {item : Tree} (statement : IsStatement true item) (ordered : context.Ordered)
    (atFile : context.enclosing = []) (name : String) :
    ((after context item).latest? 0 name).isSome = true ↔
      (context.latest? 0 name).isSome = true ∨ declaredVariable? item = some name := by
  by_cases declares : item.kind = .variable
  · cases statement with
    | declaration location place text word note typeNote declared value named expression =>
        have plain : after context ⟨.variable, location, text, note,
            [⟨.type .int, place, word, typeNote, [declared]⟩, value]⟩ =
            context.declare (.variable (some value)) declared := by
          simp [after, afterSimple, declaredName?_scalar named]
        have atZero : context.scopeOf (.variable (some value)) = 0 := by
          simp [Context.scopeOf, Context.innermost, atFile]
        rw [plain, context.latest?_declare, atZero]
        by_cases same : name = declared.text
        · simp [same, declaredVariable?, declaredName?_scalar named]
        · simp [same, Ne.symm same, declaredVariable?, declaredName?_scalar named]
    | _ => contradiction
  · have nothing : declaredVariable? item = none := by
      cases statement <;> first | rfl | contradiction
    rw [latest?_after_statement (statement.nested declares) ordered (Nat.zero_le _) (by simp),
      nothing]
    simp

theorem latest?_items {items : List Tree} (statements : ∀ item ∈ items, IsStatement true item)
    (ordered : context.Ordered) (atFile : context.enclosing = []) (name : String) :
    ((afterAll context items).latest? 0 name).isSome = true ↔
      (context.latest? 0 name).isSome = true ∨ name ∈ items.filterMap declaredVariable? := by
  induction items generalizing context with
  | nil => simp [afterAll]
  | cons item rest induction =>
      have next := (precedes_after item ordered).ordered
      rw [afterAll, induction (fun tree member => statements tree (by simp [member])) next
        (by simpa using atFile), latest?_item (statements item (by simp)) ordered atFile, or_assoc]
      cases declared : declaredVariable? item with
      | none => simp [declared]
      | some other => simp [declared, eq_comm (a := other)]

/-- The program declares a variable of the file, unless an earlier declaration
is there to take over from. -/
theorem globalVariable?_statement {item : Tree} (statement : IsStatement true item)
    (atFile : context.enclosing = []) (resolved : Resolved analysis.symbols (events context item)) :
    (∀ entry ∈ globalVariable? analysis item, entry.1 = .int) ∧
      ∀ name, declaredVariable? item = some name →
        (context.latest? 0 name).isSome = true ∨
          globalVariable? analysis item = some (.int, .declared 0 name) := by
  cases statement with
  | declaration location place text word note typeNote declared value named expression =>
      simp only [events, simpleEvents, declaredName?_scalar named, List.head?_cons,
        Option.toList_some, usesAll, Resolved.append] at resolved
      have declares := (resolved.2 _ (List.mem_singleton.mpr rfl)).1
      have atZero : context.scopeOf (.variable (some value)) = 0 := by
        simp [Context.scopeOf, Context.innermost, atFile]
      have target := variableName_declaration declares
      have replaces := replacesVariable_declaration declares
      rw [atZero] at target
      simp only [Context.replaced?, Role.isVariable, if_true, atZero] at replaces
      simp only [globalVariable?, declaredVariable?, declaredName?_scalar named, List.head?_cons,
        Option.any_some, kind_ne_string expression, Bool.false_eq_true, if_false, Option.map_some,
        Option.some.injEq, forall_eq', ofDeclarator_scalar named]
      cases existing : replacesVariable analysis declared with
      | true =>
          refine ⟨by simp [Option.filter, existing], .inl ?_⟩
          rw [existing] at replaces
          simp only [Option.isSome_map] at replaces
          exact Option.isSome_of_isSome_filter _ _ replaces.symm
      | false => simp [Option.filter, existing, target]
  | _ => simp [globalVariable?, declaredVariable?]

theorem globals_items {items : List Tree} (statements : ∀ item ∈ items, IsStatement true item)
    (ordered : context.Ordered) (atFile : context.enclosing = [])
    (resolved : Resolved analysis.symbols (eventsAll context items)) :
    (∀ entry ∈ items.filterMap (globalVariable? analysis), entry.1 = .int) ∧
      ∀ name ∈ items.filterMap declaredVariable?, (context.latest? 0 name).isSome = true ∨
        (.int, .declared 0 name) ∈ items.filterMap (globalVariable? analysis) := by
  induction items generalizing context with
  | nil => simp
  | cons item rest induction =>
      simp only [eventsAll, Resolved.append] at resolved
      have statement := statements item (by simp)
      obtain ⟨integers, declares⟩ := globalVariable?_statement statement atFile resolved.1
      obtain ⟨integersRest, declaresRest⟩ := induction
        (fun tree member => statements tree (by simp [member])) (precedes_after item ordered).ordered
        (by simpa using atFile) resolved.2
      have here : ∀ name, declaredVariable? item = some name →
          (context.latest? 0 name).isSome = true ∨
            (.int, .declared 0 name) ∈ (item :: rest).filterMap (globalVariable? analysis) :=
        fun name declared => (declares name declared).imp id fun listed =>
          List.mem_filterMap.mpr ⟨item, by simp, listed⟩
      constructor
      · intro entry member
        obtain ⟨tree, treeMember, listed⟩ := List.mem_filterMap.mp member
        rcases List.mem_cons.mp treeMember with rfl | later
        · exact integers _ listed
        · exact integersRest _ (List.mem_filterMap.mpr ⟨tree, later, listed⟩)
      · intro name member
        obtain ⟨tree, treeMember, declared⟩ := List.mem_filterMap.mp member
        rcases List.mem_cons.mp treeMember with rfl | later
        · exact here name declared
        · rcases declaresRest name (List.mem_filterMap.mpr ⟨tree, later, declared⟩) with known | listed
          · rcases (latest?_item statement ordered atFile name).mp known with known | declared
            · exact .inl known
            · exact here name declared
          · obtain ⟨tree, treeMember, listed⟩ := List.mem_filterMap.mp listed
            exact .inr (List.mem_filterMap.mpr ⟨tree, by simp [treeMember], listed⟩)

theorem start_eq {program : Program} (integers : ∀ entry ∈ program.globals, entry.1 = .int)
    {name : VariableName} (listed : (.int, name) ∈ program.globals) :
    program.start name.spelling = some ⟨.int, 0⟩ := by
  unfold Program.start
  cases found : program.globals.find? (·.2.spelling = name.spelling) with
  | none =>
      have absent := List.find?_eq_none.mp found _ listed
      simp at absent
  | some entry => simp [integers entry (List.mem_of_find?_eq_some found)]

theorem isDefinition_of_statement {mayDeclare : Bool} {tree : Tree}
    (statement : IsStatement mayDeclare tree) : isDefinition tree.kind = false := by
  cases statement <;> rfl

theorem lowerItems_runs (distinct : ((anchors lines).map (·.spelling)).Nodup) {items : List Tree}
    (statements : ∀ item ∈ items, IsStatement true item) (ordered : context.Ordered)
    (resolved : Resolved analysis.symbols (eventsAll context items))
    (atFile : context.enclosing = [])
    (listed : ∀ name ∈ items.filterMap declaredVariable?, name ∈ names) (number : Nat) :
    Ends (lowerItems analysis items) number fun code _ =>
      RunsAs operators lines names context (afterAll context items)
        (fun rounds => runAll operators rounds items) code := by
  induction items generalizing context number with
  | nil => exact .pure fun rounds frames counter memory _ matching => .done ⟨rfl, matching⟩
  | cons item rest induction =>
      simp only [eventsAll, Resolved.append] at resolved
      have next := (precedes_after item ordered).ordered
      have statement := statements item (by simp)
      unfold lowerItems
      dsimp only
      rw [isDefinition_of_statement statement, if_neg (by simp)]
      refine .bind ((lowerStatement_runs operators distinct statement .file ordered resolved.1 (fun _ =>
        ⟨by simp [Context.innermost, atFile], fun name declared => listed name ?_⟩) number).imp
          fun code middle runs => ?_)
      · exact List.mem_filterMap.mpr ⟨item, by simp, declared⟩
      · refine .bind ((induction (fun tree member => statements tree (by simp [member])) next
          resolved.2 (by simpa using atFile) (fun name member => listed name ?_) middle).imp
            fun more _ runsRest => .pure (runs.append runsRest))
        obtain ⟨tree, treeMember, declared⟩ := List.mem_filterMap.mp member
        exact List.mem_filterMap.mpr ⟨tree, by simp [treeMember], declared⟩

end

/-! ## Whole programs -/

section

variable {root : Tree}

structure Analysed (root annotated : Tree) (analysis : Analysis) : Prop where
  same : annotated.bare = root.bare
  statements : ∀ item ∈ annotated.children, IsStatement true item
  resolved : Resolved analysis.symbols (eventsAll {} annotated.children)

theorem analysed (integer : IsProgram root)
    (accepted : (analyze root).2.diagnostics.hasErrors = false) :
    Analysed root (analyze root).1 (analyze root).2 := by
  have same := (analyze_follows False root False.elim).1
  have resolved := (events_of_accepted accepted).1
  obtain ⟨kind, location, text, note, children⟩ := root
  obtain rfl := integer.isRoot
  obtain ⟨otherNote, others, form, sameChildren⟩ := Tree.exists_of_bare_eq same
  rw [form] at same resolved ⊢
  refine ⟨same, fun item member => ?_, resolved⟩
  have listed : item.bare ∈ children.map Tree.bare := by
    rw [← sameChildren]
    exact List.mem_map_of_mem member
  obtain ⟨child, childMember, sameChild⟩ := List.mem_map.mp listed
  exact (integer.statements child childMember).congr sameChild.symm

theorem sameVariables {annotated : Tree} (same : annotated.bare = root.bare) :
    fileVariables root = annotated.children.filterMap declaredVariable? := by
  have sameChildren := ((Tree.bare_eq_iff _ _).mp same).2.2.2
  have bare : ∀ trees : List Tree, (trees.map Tree.bare).filterMap declaredVariable? =
      trees.filterMap declaredVariable? := by
    intro trees
    rw [List.filterMap_map]
    congr 1
    exact funext declaredVariable?_bare
  rw [fileVariables, ← bare root.children, ← sameChildren, bare]

variable (operators : Operators)

theorem main_simulates (integer : IsProgram root) (apart : root.controls.Nodup)
    (accepted : (analyze root).2.diagnostics.hasErrors = false) (rounds : Nat) :
    Simulates operators root.program.main rounds ⟨0, root.program.start⟩
      (runAll operators rounds root.children [[]]) fun frames final =>
        final.counter = root.program.main.length ∧
          Matches (fileVariables root) (afterAll {} (analyze root).1.children) frames
            final.memory := by
  have facts := analysed integer accepted
  have sameChildren := ((Tree.bare_eq_iff _ _).mp facts.same).2.2.2
  have sameVariables := sameVariables facts.same
  obtain ⟨number, code⟩ : ∃ number, root.program.main =
      ((lowerItems (analyze root).2 (analyze root).1.children).run number).1 := ⟨_, rfl⟩
  have labels : ((anchors root.program.main).map (·.spelling)).Nodup := by
    have anchored := lowerItems_anchored (analyze root).2 (analyze root).1.children number
    rw [← Tree.controls_congr facts.same] at apart
    rw [code]
    exact (anchored.mono (Tree.controls_filter _ _)).spellings_nodup apart
  have runs : RunsAs operators root.program.main (fileVariables root) {}
      (afterAll {} (analyze root).1.children)
      (fun rounds => runAll operators rounds (analyze root).1.children)
      ((lowerItems (analyze root).2 (analyze root).1.children).run number).1 :=
    lowerItems_runs operators labels facts.statements .start facts.resolved rfl
      (by simp [sameVariables]) number
  have start : Matches (fileVariables root) {} [[]] root.program.start := by
    obtain ⟨integers, declares⟩ := globals_items facts.statements .start rfl facts.resolved
    refine ⟨⟨fun name => rfl, trivial⟩, fun name member => ⟨0, ?_⟩⟩
    rw [sameVariables] at member
    exact start_eq integers ((declares name member).resolve_left (by simp [Context.latest?]))
  rw [← runAll_congr integer.statements sameChildren]
  rw [← code] at runs
  simpa using runs rounds [[]] 0 root.program.start .whole start

/-- When the file ends, so does the entry point, with the same variables. -/
theorem main_ends (integer : IsProgram root) (apart : root.controls.Nodup)
    (accepted : (analyze root).2.diagnostics.hasErrors = false) {rounds : Nat}
    {frames : List Frame} (done : runAll operators rounds root.children [[]] = .done frames) :
    ∃ file memory, frames = [file] ∧ root.program.EndsWith operators memory ∧
      ∀ name ∈ fileVariables root, ∃ value, file.lookup name = some value ∧
        memory ("_0_" ++ name) = some ⟨.int, value⟩ := by
  have facts := analysed integer accepted
  have simulates := main_simulates operators integer apart accepted rounds
  rw [done] at simulates
  obtain ⟨⟨counter, memory⟩, ⟨count, reached⟩, rfl, matching⟩ := simulates
  have shows := matching.frames
  rw [Context.scopes, enclosing_afterAll] at shows
  rcases frames with _ | ⟨file, _ | ⟨outer, frames⟩⟩
  · exact shows.elim
  · refine ⟨file, memory, rfl, ⟨count, reached⟩, fun name member => ?_⟩
    rw [sameVariables facts.same] at member
    have here := shows.1 name
    have known := (latest?_items facts.statements .start rfl name).mpr (.inr member)
    cases latest : (afterAll {} (analyze root).1.children).latest? 0 name with
    | none => simp [latest] at known
    | some declaration =>
        simp only [latest] at here
        exact here
  · exact shows.2.elim

end

end Oil

open Source

/-- The text is that of a program whose entry point ends just when the file does,
and then the variables of the file have the same values. -/
structure KeepsMeaning (operators : Operators) (root : Tree) (text : String) : Prop where
  rendered : text = root.program.render
  ends : (∃ file, EndsWith operators root file) ↔
    ∃ memory, root.program.EndsWith operators memory
  values : ∀ file memory, EndsWith operators root file → root.program.EndsWith operators memory →
    ∀ name ∈ fileVariables root, ∃ value, file.lookup name = some value ∧
      memory ("_0_" ++ name) = some ⟨.int, value⟩

/-- Lowering keeps the meaning of integer programs. -/
theorem compile_keepsMeaning (operators : Operators) (warningsAsErrors : Bool) (root : Tree)
    (text : String) (integer : IsProgram root) (apart : root.controls.Nodup)
    (generated : (compile warningsAsErrors root).oil = some text) :
    KeepsMeaning operators root text := by
  have accepted := accepted_of_oil (by rw [generated]; rfl)
  refine ⟨oil_eq generated, ⟨?_, ?_⟩, ?_⟩
  · rintro ⟨file, rounds, done⟩
    obtain ⟨_, memory, _, ends, _⟩ := Oil.main_ends operators integer apart accepted done
    exact ⟨memory, ends⟩
  · rintro ⟨memory, ends⟩
    -- The file takes no more rounds than the entry point takes steps.
    obtain ⟨count, bounded⟩ := Oil.Reaches.bounded ends
    have simulates := Oil.main_simulates operators integer apart accepted count
    cases outcome : runAll operators count root.children [[]] with
    | done frames =>
        obtain ⟨file, _, rfl, _⟩ := Oil.main_ends operators integer apart accepted outcome
        exact ⟨file, count, outcome⟩
    | stuck =>
        rw [outcome] at simulates
        exact simulates.elim
    | timeout =>
        rw [outcome] at simulates
        exact absurd simulates bounded
  · rintro file memory ⟨rounds, done⟩ ends
    obtain ⟨_, final, same, endsToo, values⟩ := Oil.main_ends operators integer apart accepted done
    obtain rfl := List.head_eq_of_cons_eq same
    rwa [Oil.Reaches.unique ends endsToo]

/-- A sum of squares. The block in the loop has a variable that hides the counter. -/
def squares : Tree :=
  let b : TreeBuilder := {}
  let int (place nameAt : Position) (name : String) (value : Tree) :=
    b.declaration place (b.declarator .declaredName false "int" place nameAt name) (some value)
  b.root "squares" [
    int ⟨1, 1⟩ ⟨1, 5⟩ "total" (b.int ⟨1, 13⟩ 0),
    int ⟨2, 1⟩ ⟨2, 5⟩ "left" (b.leaf (.literal .int) ⟨2, 12⟩ "03"),
    b.whileLoop ⟨3, 1⟩
      (b.operation (.binary .gt) ⟨3, 13⟩ [b.identifier ⟨3, 8⟩ "left", b.int ⟨3, 15⟩ 0])
      (b.block ⟨3, 18⟩ [
        b.block ⟨4, 3⟩ [
          int ⟨5, 5⟩ ⟨5, 9⟩ "left" (b.operation (.binary .mul) ⟨5, 21⟩
            [b.identifier ⟨5, 16⟩ "left", b.identifier ⟨5, 23⟩ "left"]),
          b.assign ⟨6, 11⟩ (b.identifier ⟨6, 5⟩ "total") (b.operation (.binary .add) ⟨6, 19⟩
            [b.identifier ⟨6, 13⟩ "total", b.identifier ⟨6, 21⟩ "left"])],
        b.assign ⟨8, 8⟩ (b.identifier ⟨8, 3⟩ "left") (b.operation (.binary .sub) ⟨8, 15⟩
          [b.identifier ⟨8, 10⟩ "left", b.int ⟨8, 17⟩ 1])])]

example : ∃ file, runAll .unbounded 4 squares.children [[]] = .done [file] ∧
    file.lookup "total" = some 14 ∧ file.lookup "left" = some 0 := ⟨_, rfl, rfl, rfl⟩

theorem squares_isProgram : IsProgram squares := by
  refine ⟨rfl, fun child member => ?_⟩
  simp only [squares, TreeBuilder.root, TreeBuilder.node, List.mem_cons, List.not_mem_nil, or_false]
    at member
  rcases member with rfl | rfl | rfl
  · exact .declaration _ _ _ _ _ _ _ _ rfl (.literal _ _ _ (by decide) (by decide))
  · exact .declaration _ _ _ _ _ _ _ _ rfl (.literal _ _ _ (by decide) (by decide))
  · refine .whileLoop _ _ _ _ _ _ ⟨.binary _ _ _ _ _ _ (by decide) (.identifier ..)
      (.literal _ _ _ (by decide) (by decide)), .inl rfl⟩ (.block _ _ _ _ _ fun inner member => ?_)
    simp only [List.mem_cons, List.not_mem_nil, or_false] at member
    rcases member with rfl | rfl
    · refine .block _ _ _ _ _ fun statement member => ?_
      simp only [List.mem_cons, List.not_mem_nil, or_false] at member
      rcases member with rfl | rfl
      · exact .declaration _ _ _ _ _ _ _ _ rfl
          (.binary _ _ _ _ _ _ (by decide) (.identifier ..) (.identifier ..))
      · exact .assign _ _ _ _ _ _ _ _
          (.binary _ _ _ _ _ _ (by decide) (.identifier ..) (.identifier ..))
    · exact .assign _ _ _ _ _ _ _ _ (.binary _ _ _ _ _ _ (by decide) (.identifier ..)
        (.literal _ _ _ (by decide) (by decide)))

theorem squares_keepsMeaning : IsProgram squares ∧ squares.controls.Nodup ∧
    ∃ text, (compile false squares).oil = some text ∧ KeepsMeaning .unbounded squares text := by
  have accepted : (compile false squares).oil.isSome = true := by decide +kernel
  obtain ⟨text, generated⟩ := Option.isSome_iff_exists.mp accepted
  have apart : squares.controls.Nodup := by decide
  exact ⟨squares_isProgram, apart, text, generated,
    compile_keepsMeaning .unbounded false squares text squares_isProgram apart generated⟩

end OcLang
