import OcLang.Proofs.Oil.Gaps

namespace OcLang.Oil

open Lexical

/-! # What is accepted can be lowered

Analysis and lowering walk through a tree by themselves. Lowering comes to no node
that the analysis has not been at, and the analysis refuses what lowering has no code for. -/

/-- No gaps in the body, and no parameter without a symbol. -/
structure Function.IsFilled (function : Function) : Prop where
  body : Oil.IsFilled function.body
  parameters : ∀ parameter ∈ function.parameters.getD [], parameter.name.isDeclared = true

structure Program.IsFilled (program : Program) : Prop where
  strings : ∀ binding ∈ program.strings, binding.name.isFilled = true
  globals : ∀ global ∈ program.globals, global.2.isDeclared = true
  functions : ∀ function ∈ program.functions, function.IsFilled
  main : Oil.IsFilled program.main

def isRedefined (function : Tree) (later : List Tree) : Bool :=
  later.any (definedName? · == definedName? function)

def keptFunctions : List Tree → List Tree
  | [] => []
  | function :: later =>
      if isRedefined function later then keptFunctions later else function :: keptFunctions later

section

variable {analysis : Analysis} {all : List Event} {context : Context}
  (resolved : Resolved analysis.symbols all) (placed : ¬Refused all)

include resolved placed

omit resolved placed in
theorem isDeclared_of_parameter {declarator : Tree} {parameter : Parameter}
    (declares : declarator.DeclaresVariable analysis)
    (found : parameter? analysis declarator = some parameter) :
    parameter.name.isDeclared = true := by
  rcases declares with ⟨name, declared, refers⟩
  rcases Option.map_eq_some_iff.mp found with ⟨other, same, rfl⟩
  rw [declared] at same
  cases same
  exact isDeclared_of_refers refers

/-- A function is made unless a later one replaces it. -/
theorem lowerFunction_filled {tree : Tree} (shaped : tree.IsShaped)
    (isFunction : tree.kind = .function) (inside : events context tree ⊆ all) (later : List Tree)
    (number : Nat) :
    Ends (lowerFunction analysis tree later) number fun result _ =>
      if isRedefined tree later then result = none
      else ∃ function, result = some function ∧ function.IsFilled ∧
        function.IsFrom analysis tree := by
  rcases tree with ⟨kind, location, text, note, children⟩
  simp only at isFunction
  subst isFunction
  rcases shaped.function with
    ⟨declarator, parameters, place, word, bodyNote, statements, name, rfl, _, declared, _⟩
  have defines : definedName? ⟨.function, location, text, note,
      [declarator, parameters, ⟨.block, place, word, bodyNote, statements⟩]⟩ = some name.text := by
    simp [definedName?, declared]
  have names := declaresVariable_of_heading resolved placed shaped ⟨context, .inl inside⟩ (.inl rfl)
    rfl
  have kept := filling_kept resolved placed
  simp only [lowerFunction, declared, isRedefined, defines]
  split
  · exact .pure rfl
  · apply Ends.bind
    apply (kept.isStatementLaw.body_lines (fun statement => kept.inside ⟨shaped, context, inside⟩)
      number).imp
    intro lines _ filled
    apply Ends.pure
    refine ⟨_, rfl, ⟨isFilled_of_filling filled, ?_⟩, declarator, parameters, _, name, rfl, declared, rfl, rfl, rfl⟩
    intro parameter member
    have listed : parameter ∈ parameters.children.filterMap (parameter? analysis) := by
      dsimp only at member
      split at member
      · contradiction
      · exact member
    rcases List.mem_filterMap.mp listed with ⟨declarator, known, found⟩
    exact isDeclared_of_parameter (names declarator known) found

theorem lowerFunctions_filled {trees : List Tree}
    (each : ∀ tree ∈ trees, tree.IsShaped ∧ tree.kind = .function ∧
      ∃ context, events context tree ⊆ all) (number : Nat) :
    Ends (lowerFunctions analysis trees) number fun functions _ =>
      functions.Forall₂ (fun function tree => function.IsFilled ∧ function.IsFrom analysis tree)
        (keptFunctions trees) := by
  induction trees generalizing number with
  | nil => exact .pure .nil
  | cons tree later induction =>
      rcases each tree List.mem_cons_self with ⟨shaped, isFunction, context, inside⟩
      simp only [lowerFunctions, keptFunctions]
      apply Ends.bind
      apply (lowerFunction_filled resolved placed shaped isFunction inside later number).imp
      intro result middle made
      apply Ends.bind
      apply (induction (fun tree member => each tree (List.mem_cons_of_mem _ member)) middle).imp
      intro others _ filled
      apply Ends.pure
      cases redefined : isRedefined tree later with
      | true =>
          rw [if_pos redefined] at made
          simpa [made] using filled
      | false =>
          rw [if_neg (by simp [redefined])] at made
          rcases made with ⟨function, rfl, here⟩
          exact .cons here filled

omit resolved placed in
theorem isFilled_of_stringBinding {node : Tree} {known : List Declared}
    (ready : node.IsReady analysis known) {binding : StringBinding}
    (bound : stringBinding? analysis node = some binding) : binding.name.isFilled = true := by
  unfold stringBinding? at bound
  split at bound
  · rename_i declarator value isVariable children
    simp only [Tree.IsReady, isVariable, children] at ready
    rcases ready with ⟨name, declared, refers⟩
    simp only [declared, Option.map_some] at bound
    split at bound
    · cases bound
      dsimp only
      split
      · rfl
      · exact isDeclared_of_refers refers
    · contradiction
  · split at bound
    · cases bound
      rfl
    · contradiction
  · contradiction

omit resolved placed in
theorem isDeclared_of_globalVariable {node : Tree} {known : List Declared}
    (ready : node.IsReady analysis known) {global : OilType × VariableName}
    (declares : globalVariable? analysis node = some global) : global.2.isDeclared = true := by
  unfold globalVariable? at declares
  split at declares
  · rename_i declarator values isVariable children
    simp only [Tree.IsReady, isVariable, children] at ready
    rcases ready with ⟨name, declared, refers⟩
    split at declares
    · contradiction
    · rcases Option.map_eq_some_iff.mp declares with ⟨other, kept, rfl⟩
      rw [declared] at kept
      cases (Option.filter_eq_some_iff.mp kept).1
      exact isDeclared_of_refers refers
  · contradiction

theorem generate_filled {root : Tree} (shaped : root.IsShaped) (isRoot : root.kind = .root)
    (inside : events {} root ⊆ all) {known : List Declared}
    (ready : ∀ node ∈ root.preorder, node.IsReady analysis known) :
    (generate analysis root).IsFilled ∧
      (generate analysis root).functions.Forall₂ (fun function tree => function.IsFrom analysis tree)
        (keptFunctions (root.children.filter (·.kind == .function))) := by
  rcases root with ⟨kind, location, text, note, children⟩
  simp only at isRoot
  subst isRoot
  have items : ∀ item ∈ children.filter (·.kind == .function), item.IsShaped ∧
      item.kind = .function ∧ ∃ context, events context item ⊆ all := by
    intro item member
    have both := List.mem_filter.mp member
    rcases exists_events both.1 {} with ⟨place, sub⟩
    exact ⟨shaped.child both.1, by simpa using both.2, place, List.Subset.trans sub inside⟩
  have ends : Ends (generateNumbered analysis ⟨.root, location, text, note, children⟩)
      firstTemporary fun program _ =>
        program.IsFilled ∧ program.functions.Forall₂
          (fun function tree => function.IsFrom analysis tree)
          (keptFunctions (children.filter (·.kind == .function))) := by
    apply Ends.bind
    apply (lowerFunctions_filled resolved placed items firstTemporary).imp
    intro functions middle made
    rw [List.forall₂_and_left] at made
    apply Ends.bind
    have accepted : ∀ item ∈ children, item.IsShaped ∧ ∃ context, events context item ⊆ all := by
      intro item member
      rcases exists_events member {} with ⟨place, sub⟩
      exact ⟨shaped.child member, place, List.Subset.trans sub inside⟩
    apply ((filling_kept resolved placed).isStatementLaw.main_lines (fun item member =>
      accepted item (List.mem_filter.mp member).1) middle).imp
    intro main _ filled
    apply Ends.pure
    refine ⟨⟨?_, ?_, made.1, isFilled_of_filling filled⟩, made.2⟩
    · intro binding member
      rcases List.mem_filterMap.mp member with ⟨node, inside, bound⟩
      exact isFilled_of_stringBinding (ready node inside) bound
    · intro global member
      rcases List.mem_filterMap.mp member with ⟨item, known, declares⟩
      exact isDeclared_of_globalVariable
        (ready item (Tree.mem_preorder_of_child known (Tree.mem_preorder_self item))) declares
  exact ends

end

structure LeavesNoGaps (analysis : Analysis) (root : Tree) : Prop where
  ready : ∀ node ∈ root.preorder,
    node.IsReady analysis (root.walked.filterMap Tree.declared?)
  filled : (generate analysis root).IsFilled
  /-- No functions are left out but those that a later one replaces. -/
  functions : (generate analysis root).functions.Forall₂
    (fun function tree => function.IsFrom analysis tree)
    (keptFunctions (root.children.filter (·.kind == .function)))

/-- What the analysis accepts is lowered as a whole. -/
theorem analyze_leavesNoGaps {root : Tree} (shaped : root.IsShaped) (isRoot : root.kind = .root)
    (fresh : root.IsFresh) (accepted : (analyze root).2.diagnostics.hasErrors = false) :
    LeavesNoGaps (analyze root).2 (analyze root).1 := by
  have same := (analyze_follows False root False.elim).1
  have sameKind := (kind_analyze root).trans isRoot
  rcases events_of_accepted accepted with ⟨resolved, placed⟩
  have ready := analyze_isReady shaped fresh accepted
  have program := generate_filled resolved placed (shaped.congr same) sameKind
    (List.Subset.refl _) ready
  exact ⟨ready, program.1, program.2⟩

def countingDown : String :=
  "[\"root\",[0,0,0],\"t\",[
    [\"struct\",[0,1,0],\"\",[[\"typeid\",[0,1,7],\"s\"],
      [\"int\",[0,1,10],\"int\",[[\"field\",[0,1,14],\"x\"]]]]],
    [\"function\",[0,2,0],\"\",[
      [\"int\",[0,2,0],\"int\",[[\"declid\",[0,2,4],\"f\"]]],
      [\"paramlist\",[0,2,5],\"\",[
        [\"typeid\",[0,2,6],\"s\",[[\"declid\",[0,2,8],\"p\"]]]]],
      [\"block\",[0,2,11],\"\",[
        [\"while\",[0,3,2],\"\",[
          [\"gt\",[0,3,13],\"\",[
            [\"select\",[0,3,10],\"\",[[\"ident\",[0,3,9],\"p\"],[\"field\",[0,3,11],\"x\"]]],
            [\"intcon\",[0,3,15],\"0\"]]],
          [\"assign\",[0,4,8],\"\",[
            [\"select\",[0,4,5],\"\",[[\"ident\",[0,4,4],\"p\"],[\"field\",[0,4,6],\"x\"]]],
            [\"intcon\",[0,4,10],\"0\"]]]]],
        [\"return\",[0,5,2],\"\",[[\"intcon\",[0,5,9],\"1\"]]]]]]],
    [\"vardecl\",[0,6,0],\"\",[
      [\"string\",[0,6,0],\"string\",[[\"declid\",[0,6,7],\"u\"]]],
      [\"stringcon\",[0,6,11],\"\\\"u\\\"\"]]],
    [\"call\",[0,7,1],\"\",[[\"ident\",[0,7,0],\"f\"],
      [\"new\",[0,7,2],\"\",[[\"typeid\",[0,7,6],\"s\"]]]]]]]"

set_option maxRecDepth 8192 in
theorem countingDown_leavesNoGaps : ∃ root, Tree.load countingDown = .ok root ∧
    root.IsShaped ∧ root.kind = .root ∧ root.IsFresh ∧
    (analyze root).2.diagnostics.hasErrors = false ∧
    LeavesNoGaps (analyze root).2 (analyze root).1 := by
  have accepted : ((Tree.load countingDown).toOption.any fun root => root.kind == .root &&
      (compile false root).oil.isSome && true) = true := by
    rw [show countingDown = String.ofList _ from rfl, Tree.load_ofList]
    decide +kernel
  rcases exists_compiled accepted with ⟨root, text, loaded, isRoot, generated, _⟩
  have fine := accepted_of_oil (Option.isSome_iff_exists.mpr ⟨text, generated⟩)
  have shaped := Tree.isShaped_of_load loaded
  have fresh := Tree.isFresh_of_load loaded
  exact ⟨root, loaded, shaped, isRoot, fresh, fine, analyze_leavesNoGaps shaped isRoot fresh fine⟩

def replacedFunction : String :=
  "[\"root\",[0,0,0],\"t\",[
    [\"function\",[0,1,0],\"\",[
      [\"int\",[0,1,0],\"int\",[[\"declid\",[0,1,4],\"f\"]]],
      [\"paramlist\",[0,1,5]],
      [\"block\",[0,1,8],\"\",[[\"return\",[0,1,10],\"\",[[\"intcon\",[0,1,17],\"1\"]]]]]]],
    [\"function\",[0,2,0],\"\",[
      [\"int\",[0,2,0],\"int\",[[\"declid\",[0,2,4],\"f\"]]],
      [\"paramlist\",[0,2,5]],
      [\"block\",[0,2,8],\"\",[[\"return\",[0,2,10],\"\",[[\"intcon\",[0,2,17],\"2\"]]]]]]]]]"

set_option maxRecDepth 4096 in
/-- The first of them is left out. -/
theorem replacedFunction_leftOut : ∃ root text, Tree.load replacedFunction = .ok root ∧
    root.kind = .root ∧ (compile false root).oil = some text ∧
    ¬root.program.functions.Forall₂
      (fun function tree => function.IsFrom (analyze root).2 tree)
      ((analyze root).1.children.filter (·.kind == .function)) := by
  have accepted : ((Tree.load replacedFunction).toOption.any fun root => root.kind == .root &&
      (compile false root).oil.isSome &&
        decide (root.program.functions.length <
          ((analyze root).1.children.filter (·.kind == .function)).length)) = true := by
    rw [show replacedFunction = String.ofList _ from rfl, Tree.load_ofList]
    decide +kernel
  rcases exists_compiled accepted with ⟨root, text, loaded, isRoot, generated, fewer⟩
  refine ⟨root, text, loaded, isRoot, generated, fun made => ?_⟩
  have less := of_decide_eq_true fewer
  rw [made.length_eq] at less
  exact Nat.lt_irrefl _ less

end OcLang.Oil
