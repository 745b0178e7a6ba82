import OcLang.Proofs.Analysis.Forms
import OcLang.Proofs.Analysis.Lookups.Declarations
import OcLang.Proofs.Scoping.Resolution

namespace OcLang

open Check

/-! # Lookups in statements

The walk over statements closes the scopes that it opens, and no others. -/

inductive Strict.Returns (symbols : Array Symbol) : Option Nat → Option ValueType → Prop where
  | outside : Returns symbols none none
  | inside {id : Nat} {type : ValueType} (own : symbols[id]?.map (·.type) = some type) :
      Returns symbols (some id) (some type)

namespace Strict.Returns

variable {state : AnalysisState} {function : Option Nat} {result : Option ValueType}

theorem grows {symbols more : Array Symbol} (returns : Returns symbols function result)
    (grows : Grows symbols more) : Returns more function result := by
  cases returns with
  | outside => exact .outside
  | inside own =>
      rcases Option.map_eq_some_iff.mp own with ⟨symbol, stored, rfl⟩
      exact .inside (by rw [grows _ _ stored, Option.map_some])

theorem lookup {Value : Type} (returns : Returns state.symbols function result)
    {next : Option ValueType → Strict Value} {step : Check Value}
    {holds : Value → AnalysisState → Prop} (rest : Mirrors (next result) step state holds) :
    Mirrors (Strict.result function >>= next) step state holds := by
  cases returns with
  | outside => exact rest
  | inside own =>
      rcases Option.map_eq_some_iff.mp own with ⟨symbol, stored, rfl⟩
      rw [Strict.result, bind_assoc]
      apply Mirrors.lookup stored
      rwa [pure_bind]

end Strict.Returns

namespace Statement

variable {fresh : Prop} {before state : AnalysisState} {function : Option Nat}
  {result : Option ValueType}

/-- A node that is left alone but for a report. -/
theorem reported_mirrors (proceeds : Proceeds 0 before state) {node : Tree}
    (plain : fresh → Numbering.IsPlain node) (problem : Problem) :
    Mirrors (do report problem; return node) (do report problem; return node) state
      (Checked fresh before) := by
  apply Mirrors.bind
  apply Mirrors.report proceeds.sound
  intro reported
  exact .pure ⟨proceeds.trans reported, fun given => (plain given).within _⟩

theorem returnVoid_reports (state : AnalysisState) (node : Tree)
    (isReturn : node.kind = .returnVoid) :
    Reports (simple result node) state fun annotated _ => annotated = node := by
  simp only [simple, isReturn]
  split
  · exact .bind (.report (.pure rfl))
  · exact .pure rfl

theorem simple_mirrors (sound : state.IsSound 0)
    (returns : Strict.Returns state.symbols function result) {node : Tree}
    (plain : fresh → Numbering.IsPlain node) :
    Mirrors (Strict.simple function node) (simple result node) state (Checked fresh state) := by
  have unchanged : Checked fresh state node state :=
    ⟨.refl sound, fun given => (plain given).within _⟩
  rcases node with ⟨kind, location, text, note, children⟩
  cases kind with
  | struct => exact Declaration.checkStruct_mirrors sound plain
  | «variable» => exact Declaration.checkVariable_mirrors sound plain
  | returnVoid =>
      apply returns.lookup
      apply Checked.of_reports (.refl sound) (returnVoid_reports state _ rfl)
      rintro given _ problems rfl
      exact unchanged.within given
  | returnValue =>
      cases children with
      | nil => exact reported_mirrors (.refl sound) plain _
      | cons value rest =>
          apply Mirrors.bind
          apply (Expression.expression_mirrors value (fun given => (plain given).child (by simp))
            (.refl sound)).imp
          intro value evaluated checked
          apply (returns.grows checked.grows).lookup
          apply Mirrors.bind
          apply Mirrors.quiet checked.sound (returned_reports _ _ _ _)
          intro _ problems _
          refine .pure ⟨checked.toProceeds.trans (.reporting checked.sound problems), ?_⟩
          intro given
          apply Tree.Within.of_none (show note.symbol = none from (plain given).untouched.1)
          rw [List.forall_mem_cons]
          exact ⟨checked.within given,
            fun child member => ((plain given).child (by simp [member])).within _⟩
  | field => exact .pure unchanged
  | type => exact .pure unchanged
  | arrayMark => exact .pure unchanged
  | declaredName => exact .pure unchanged
  | parameters => exact .pure unchanged
  | function => exact reported_mirrors (.refl sound) plain _
  | prototype => exact reported_mirrors (.refl sound) plain _
  | whileLoop => exact reported_mirrors (.refl sound) plain _
  | ifThen => exact reported_mirrors (.refl sound) plain _
  | ifElse => exact reported_mirrors (.refl sound) plain _
  | _ => exact Expression.expression_mirrors _ plain (.refl sound)

/-! ## The walk -/

theorem condition_mirrors (sound : state.IsSound 0) {test : Tree}
    (plain : fresh → Numbering.IsPlain test) :
    Mirrors (Strict.condition test) (condition test) state (Checked fresh state) := by
  apply Mirrors.bind
  apply (Expression.expression_mirrors test plain (.refl sound)).imp
  intro test evaluated checked
  apply Mirrors.bind
  apply Mirrors.quiet checked.sound (requireInteger_reports _ _ _)
  intro _ problems _
  exact .pure ⟨checked.toProceeds.trans (.reporting checked.sound problems), checked.within⟩

theorem statements_mirrors {trees : List Tree}
    (each : ∀ tree ∈ trees, ∀ {state : AnalysisState}, state.IsSound 0 →
      Strict.Returns state.symbols function result →
      Mirrors (Strict.statement function tree) (check result tree) state (Checked fresh state))
    (sound : state.IsSound 0) (returns : Strict.Returns state.symbols function result) :
    Mirrors (Strict.statements function trees) (checkAll result trees) state
      (CheckedAll fresh state) := by
  induction trees generalizing state with
  | nil => exact .pure ⟨.refl sound, by simp⟩
  | cons tree rest induction =>
      rw [List.forall_mem_cons] at each
      simp only [Strict.statements, checkAll]
      apply Mirrors.bind
      apply (each.1 sound returns).imp
      intro first middle checked
      apply Mirrors.bind
      apply (induction each.2 checked.sound (returns.grows checked.grows)).imp
      intro others after checkedRest
      refine .pure ⟨checked.toProceeds.trans checkedRest.toProceeds, fun given => ?_⟩
      rw [List.forall_mem_cons]
      exact ⟨checked.earlier checkedRest.toProceeds given, checkedRest.within given⟩

theorem body_mirrors {own : Nat} {type : ValueType} (node : Tree) {rest : List Tree}
    (plain : fresh → ∀ body ∈ rest, Numbering.IsPlain body)
    (each : ∀ body ∈ rest, ∀ tree ∈ body.children, ∀ {state : AnalysisState}, state.IsSound 0 →
      Strict.Returns state.symbols (some own) (some type) →
      Mirrors (Strict.statement (some own) tree) (check (some type) tree) state
        (Checked fresh state))
    (sound : state.IsSound 0) (returns : Strict.Returns state.symbols (some own) (some type)) :
    Mirrors (Strict.body own node rest) (checkBody type node rest) state
      (CheckedAll fresh state) := by
  cases rest with
  | nil =>
      apply Mirrors.bind
      apply Mirrors.report sound
      intro reported
      exact .pure ⟨reported, by simp⟩
  | cons body rest =>
      rcases body with ⟨kind, location, text, note, children⟩
      have each := each ⟨kind, location, text, note, children⟩ (by simp)
      apply Mirrors.bind
      apply (statements_mirrors each sound returns).imp
      intro children after checked
      refine .pure ⟨checked.toProceeds, fun given => ?_⟩
      rw [List.forall_mem_cons]
      have plainBody := plain given _ List.mem_cons_self
      exact ⟨.of_none plainBody.untouched.1 (checked.within given),
        fun other member => (plain given other (by simp [member])).within _⟩

theorem closeFunction_within {node : Tree} {heading : Declaration.Heading} {rest : List Tree}
    {limit : Nat} (number : node.note.symbol = none) (declarator : heading.declarator.Within limit)
    (parameters : heading.parameters.Within limit) (within : ∀ tree ∈ rest, tree.Within limit) :
    (Declaration.closeFunction node heading rest).Within limit := by
  have still : (Declaration.closeFunction node heading rest).note.symbol = none := number
  apply Tree.Within.of_none still
  simp only [Declaration.closeFunction, List.forall_mem_cons]
  exact ⟨declarator, parameters, within⟩

/-- Checking a statement looks up symbols that there are, and closes the scopes
that it has opened. -/
theorem statement_mirrors (tree : Tree) (plain : fresh → Numbering.IsPlain tree)
    (sound : state.IsSound 0) (returns : Strict.Returns state.symbols function result) :
    Mirrors (Strict.statement function tree) (check result tree) state (Checked fresh state) := by
  induction tree using Tree.statementInduction generalizing function result state with
  | root location text note children induction =>
      simp only [Strict.statement, check]
      apply Mirrors.bind
      apply (statements_mirrors (fun child member _ => induction child member
        fun given => (plain given).child member) sound returns).imp
      intro children after checked
      have number (given : fresh) : note.symbol = none := (plain given).untouched.1
      exact .pure ⟨checked.toProceeds, fun given => .of_none (number given) (checked.within given)⟩
  | block location text note children induction =>
      simp only [Strict.statement, check]
      apply Mirrors.bind
      apply (enter_mirrors sound).imp
      intro _ inside entered
      apply Mirrors.bind
      apply (statements_mirrors (fun child member _ => induction child member
        fun given => (plain given).child member) entered.sound (returns.grows entered.grows)).imp
      intro children checked all
      apply Mirrors.bind
      apply (leave_mirrors (entered.proceeds all.toProceeds)).imp
      rintro _ after ⟨left, same⟩
      have number (given : fresh) : note.symbol = none := (plain given).untouched.1
      refine .pure ⟨left, fun given => .of_none (number given) ?_⟩
      rw [same]
      exact all.within given
  | function location text note declarator parameters rest induction =>
      simp only [Strict.statement, check]
      apply Mirrors.inspect
      apply Mirrors.bind
      apply (Declaration.openFunction_mirrors sound _
        (fun given => (plain given).child (by simp))
        (fun given => (plain given).child (by simp))).imp
      rintro (_ | heading) inside opened
      · exact .pure ⟨opened, fun given => (plain given).within _⟩
      · apply Mirrors.bind
        apply (body_mirrors _ (fun given body member => (plain given).child (by simp [member]))
          (fun body member child below _ => induction body member child below
            fun given => ((plain given).child (by simp [member])).child below)
          opened.sound (.inside opened.own)).imp
        intro rest checked all
        apply Mirrors.bind
        apply (leave_mirrors (opened.toInside.proceeds all.toProceeds)).imp
        rintro _ outside ⟨left, same⟩
        apply Mirrors.bind
        apply (record_mirrors left.sound .separator (by simp [LogEntry.id?])).imp
        intro _ after logged
        refine .pure ⟨left.trans logged, fun given => ?_⟩
        have larger : checked.symbols.size ≤ after.symbols.size := by
          rw [← same]
          exact logged.grows.size_le
        have opening := Nat.le_trans all.grows.size_le larger
        exact closeFunction_within (plain given).untouched.1
          ((opened.declarator given).mono opening) ((opened.parameters given).mono opening)
          fun tree member => (all.within given tree member).mono larger
  | prototype location text note declarator parameters rest =>
      simp only [Strict.statement, check]
      apply Mirrors.bind
      apply (Declaration.openFunction_mirrors sound _
        (fun given => (plain given).child (by simp))
        (fun given => (plain given).child (by simp))).imp
      rintro (_ | heading) inside opened
      · exact .pure ⟨opened, fun given => (plain given).within _⟩
      · apply Mirrors.bind
        apply (leave_mirrors opened.toInside).imp
        rintro _ after ⟨left, same⟩
        refine .pure ⟨left, fun given => ?_⟩
        rw [same]
        exact closeFunction_within (plain given).untouched.1 (opened.declarator given)
          (opened.parameters given)
          fun tree member => ((plain given).child (by simp [member])).within _
  | control kind location text note test bodies control induction =>
      have strictly : Strict.statement function ⟨kind, location, text, note, test :: bodies⟩ = (do
          let test ← Strict.condition test
          let bodies ← Strict.statements function bodies
          return ⟨kind, location, text, note, test :: bodies⟩) := by
        cases kind <;> simp [Kind.isControl] at control <;> simp only [Strict.statement]
      rw [check_control control, strictly]
      apply Mirrors.bind
      apply (condition_mirrors sound fun given => (plain given).child (by simp)).imp
      intro test tested checked
      apply Mirrors.bind
      apply (statements_mirrors (fun body member _ => induction body member
        fun given => (plain given).child (by simp [member])) checked.sound
        (returns.grows checked.grows)).imp
      intro bodies after all
      have number (given : fresh) : note.symbol = none := (plain given).untouched.1
      refine .pure ⟨checked.toProceeds.trans all.toProceeds,
        fun given => .of_none (number given) ?_⟩
      rw [List.forall_mem_cons]
      exact ⟨checked.earlier all.toProceeds given, all.within given⟩
  | simple tree simple =>
      have strictly : Strict.statement function tree = Strict.simple function tree := by
        unfold Tree.isCompound at simple
        split at simple <;> simp_all [Strict.statement]
      rw [check_simple simple, strictly]
      exact simple_mirrors sound returns plain

end Statement

theorem analyze_mirrors (fresh : Prop) (tree : Tree) (plain : fresh → tree.IsFresh) :
    Mirrors (Strict.statement none (Numbering.number tree))
      (Statement.check none (Numbering.number tree)) {} (Checked fresh {}) :=
  Statement.statement_mirrors _ (fun given => Numbering.isPlain_number (plain given)) .start .outside

/-- The strict analysis goes through, whatever the tree. -/
theorem analyze_goesThrough (tree : Tree) : Strict.analyze tree = some (analyze tree) := by
  have through := (analyze_mirrors False tree False.elim).1
  rw [Strict.analyze, through, Option.map_some]
  rfl

end OcLang
