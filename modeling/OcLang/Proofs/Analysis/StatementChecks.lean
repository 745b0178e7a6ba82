import OcLang.Proofs.Analysis.Forms
import OcLang.Proofs.Stepwise

namespace OcLang.Statement

open Check

/-! # Laws of checked statements

Statements are checked one after the other, each from the state that the one before it leaves. A
law that holds of a statement of each form, where it holds of the statements right below it, holds
of every statement. -/

/-- The law relates statements, and the states in front of them, to what they are annotated as
and to the states behind them. Rows of statements, headings of functions and conditions have laws
of their own. What is known beforehand of the states around a check comes as `around`. -/
structure IsCheckLaw (holds : Tree → Prop)
    (law : Option ValueType → AnalysisState → Tree → Tree → AnalysisState → Prop)
    (all : Option ValueType → AnalysisState → List Tree → List Tree → AnalysisState → Prop)
    (opens : AnalysisState → Tree → Tree → Tree → Option Declaration.Heading → AnalysisState → Prop)
    (tests : AnalysisState → Tree → Tree → AnalysisState → Prop)
    (around : Option ValueType → AnalysisState → AnalysisState → Prop) : Prop where
  child {tree child : Tree} (here : holds tree) (member : child ∈ tree.children) : holds child
  checked (tree : Tree) (result : Option ValueType) (state : AnalysisState) :
    Ends (check result tree) state fun _ after => around result state after
  checkedAll (trees : List Tree) (result : Option ValueType) (state : AnalysisState) :
    Ends (checkAll result trees) state fun _ after => around result state after
  nil (result : Option ValueType) (state : AnalysisState) : all result state [] [] state
  cons {result : Option ValueType} {state middle after : AnalysisState} {tree first : Tree}
    {rest others : List Tree} (obeys : law result state tree first middle)
    (before : around result state middle) (obey : all result middle rest others after)
    (behind : around result middle after) :
    all result state (tree :: rest) (first :: others) after
  root {result : Option ValueType} {state after : AnalysisState} {location : Location}
    {text : String} {note : Note} {children annotated : List Tree}
    (here : holds ⟨.root, location, text, note, children⟩)
    (obey : all result state children annotated after) :
    law result state ⟨.root, location, text, note, children⟩
      ⟨.root, location, text, note, annotated⟩ after
  block {result : Option ValueType} {state middle : AnalysisState} {location : Location}
    {text : String} {note : Note} {children annotated : List Tree}
    (here : holds ⟨.block, location, text, note, children⟩)
    (obey : all result { state with scopes := state.scopes.enter } children annotated middle) :
    Ends leave middle fun _ after =>
      law result state ⟨.block, location, text, note, children⟩
        ⟨.block, location, text, note, annotated⟩ after
  opened {state : AnalysisState} {kind : Kind} {location : Location} {text : String}
    {note : Note} {declarator parameters : Tree} {rest : List Tree}
    (heading : kind = .function ∨ kind = .prototype)
    (here : holds ⟨kind, location, text, note, declarator :: parameters :: rest⟩) :
    Ends (Declaration.openFunction ⟨kind, location, text, note, declarator :: parameters :: rest⟩
        declarator parameters) state
      (opens state ⟨kind, location, text, note, declarator :: parameters :: rest⟩ declarator
        parameters)
  nameless {result : Option ValueType} {state inside : AnalysisState} {kind : Kind}
    {location : Location} {text : String} {note : Note} {declarator parameters : Tree}
    {rest : List Tree} (heading : kind = .function ∨ kind = .prototype)
    (here : holds ⟨kind, location, text, note, declarator :: parameters :: rest⟩)
    (opening : opens state ⟨kind, location, text, note, declarator :: parameters :: rest⟩
      declarator parameters none inside) :
    law result state ⟨kind, location, text, note, declarator :: parameters :: rest⟩
      ⟨kind, location, text, note, declarator :: parameters :: rest⟩ inside
  bodiless {result : Option ValueType} {state inside : AnalysisState} {location : Location}
    {text : String} {note : Note} {declarator parameters : Tree} {heading : Declaration.Heading}
    (here : holds ⟨.function, location, text, note, [declarator, parameters]⟩)
    (opening : opens state ⟨.function, location, text, note, [declarator, parameters]⟩
      declarator parameters (some heading) inside) :
    Ends (do malformed .function location; leave; record .separator) inside fun _ after =>
      law result state ⟨.function, location, text, note, [declarator, parameters]⟩
        (Declaration.closeFunction ⟨.function, location, text, note, [declarator, parameters]⟩
          heading []) after
  function {result : Option ValueType} {state inside middle : AnalysisState}
    {location place : Location} {text word : String} {note bodyNote : Note} {kind : Kind}
    {declarator parameters : Tree} {children annotated rest : List Tree}
    {heading : Declaration.Heading}
    (here : holds ⟨.function, location, text, note,
      declarator :: parameters :: ⟨kind, place, word, bodyNote, children⟩ :: rest⟩)
    (body : holds ⟨kind, place, word, bodyNote, children⟩)
    (opening : opens state ⟨.function, location, text, note,
      declarator :: parameters :: ⟨kind, place, word, bodyNote, children⟩ :: rest⟩
      declarator parameters (some heading) inside)
    (obey : all (some heading.type) inside children annotated middle)
    (between : around (some heading.type) inside middle) :
    Ends (do leave; record .separator) middle fun _ after =>
      law result state ⟨.function, location, text, note,
          declarator :: parameters :: ⟨kind, place, word, bodyNote, children⟩ :: rest⟩
        (Declaration.closeFunction ⟨.function, location, text, note,
            declarator :: parameters :: ⟨kind, place, word, bodyNote, children⟩ :: rest⟩ heading
          (⟨kind, place, word, bodyNote, annotated⟩ :: rest)) after
  prototype {result : Option ValueType} {state inside : AnalysisState} {location : Location}
    {text : String} {note : Note} {declarator parameters : Tree} {rest : List Tree}
    {heading : Declaration.Heading}
    (here : holds ⟨.prototype, location, text, note, declarator :: parameters :: rest⟩)
    (opening : opens state ⟨.prototype, location, text, note, declarator :: parameters :: rest⟩
      declarator parameters (some heading) inside) :
    Ends leave inside fun _ after =>
      law result state ⟨.prototype, location, text, note, declarator :: parameters :: rest⟩
        (Declaration.closeFunction
          ⟨.prototype, location, text, note, declarator :: parameters :: rest⟩ heading rest) after
  condition {state : AnalysisState} {test : Tree} (here : holds test) :
    Ends (condition test) state (tests state test)
  control {result : Option ValueType} {state middle after : AnalysisState} {kind : Kind}
    {location : Location} {text : String} {note : Note} {test first : Tree}
    {bodies annotated : List Tree} (control : kind.isControl = true)
    (here : holds ⟨kind, location, text, note, test :: bodies⟩)
    (tested : tests state test first middle) (obey : all result middle bodies annotated after)
    (behind : around result middle after) :
    law result state ⟨kind, location, text, note, test :: bodies⟩
      ⟨kind, location, text, note, first :: annotated⟩ after
  simple {result : Option ValueType} {state : AnalysisState} {tree : Tree} (here : holds tree)
    (simple : tree.isCompound = false) :
    Ends (Statement.simple result tree) state (law result state tree)

namespace IsCheckLaw

variable {holds : Tree → Prop}
  {law : Option ValueType → AnalysisState → Tree → Tree → AnalysisState → Prop}
  {all : Option ValueType → AnalysisState → List Tree → List Tree → AnalysisState → Prop}
  {opens : AnalysisState → Tree → Tree → Tree → Option Declaration.Heading → AnalysisState → Prop}
  {tests : AnalysisState → Tree → Tree → AnalysisState → Prop}
  {around : Option ValueType → AnalysisState → AnalysisState → Prop}
  (lawful : IsCheckLaw holds law all opens tests around)

include lawful

private theorem row {result : Option ValueType} {trees : List Tree}
    (each : ∀ tree ∈ trees, ∀ result state, Ends (check result tree) state (law result state tree))
    (state : AnalysisState) : Ends (checkAll result trees) state (all result state trees) := by
  induction trees generalizing state with
  | nil => exact .pure (lawful.nil result state)
  | cons tree rest induction =>
      rw [List.forall_mem_cons] at each
      apply Ends.bind
      apply ((each.1 result state).and (lawful.checked tree result state)).imp
      rintro first middle ⟨obeys, before⟩
      apply Ends.bind
      apply ((induction each.2 middle).and (lawful.checkedAll rest result middle)).imp
      rintro others after ⟨obey, behind⟩
      exact .pure (lawful.cons obeys before obey behind)

theorem statement {tree : Tree} (here : holds tree) (result : Option ValueType)
    (state : AnalysisState) : Ends (check result tree) state (law result state tree) := by
  induction tree using Tree.statementInduction generalizing result state with
  | root location text note children induction =>
      simp only [check]
      apply Ends.bind
      apply (lawful.row (fun child member => induction child member (lawful.child here member))
        state).imp
      intro annotated after obey
      exact .pure (lawful.root here obey)
  | block location text note children induction =>
      simp only [check]
      apply Ends.bind
      apply Ends.modify
      apply Ends.bind
      apply (lawful.row (fun child member => induction child member (lawful.child here member))
        _).imp
      intro annotated middle obey
      apply Ends.bind
      exact (lawful.block here obey).imp fun _ _ obeys => .pure obeys
  | function location text note declarator parameters rest induction =>
      simp only [check]
      apply Ends.bind
      apply (lawful.opened (.inl rfl) here).imp
      rintro (_ | heading) inside opening
      · exact .pure (lawful.nameless (.inl rfl) here opening)
      rcases rest with _ | ⟨⟨kind, place, word, bodyNote, children⟩, rest⟩
      · exact (lawful.bodiless here opening).imp fun _ _ obeys => obeys
      -- The body is no statement of its own here: the induction is over the statements in it.
      · have body : holds ⟨kind, place, word, bodyNote, children⟩ :=
          lawful.child here (by simp)
        have each := induction _ List.mem_cons_self
        apply Ends.bind
        apply Ends.bind
        apply ((lawful.row (fun child member => each child member (lawful.child body member))
          inside).and (lawful.checkedAll children (some heading.type) inside)).imp
        rintro annotated middle ⟨obey, between⟩
        exact (lawful.function here body opening obey between).imp fun _ _ obeys => obeys
  | prototype location text note declarator parameters rest =>
      simp only [check]
      apply Ends.bind
      apply (lawful.opened (.inr rfl) here).imp
      rintro (_ | heading) inside opening
      · exact .pure (lawful.nameless (.inr rfl) here opening)
      · apply Ends.bind
        exact (lawful.prototype here opening).imp fun _ _ obeys => .pure obeys
  | control kind location text note test bodies control induction =>
      rw [check_control control]
      apply Ends.bind
      apply (lawful.condition (lawful.child here (by simp))).imp
      intro first middle tested
      apply Ends.bind
      apply ((lawful.row (fun body member => induction body member
        (lawful.child here (by simp [member]))) middle).and
        (lawful.checkedAll bodies result middle)).imp
      rintro annotated after ⟨obey, behind⟩
      exact .pure (lawful.control control here tested obey behind)
  | simple tree simple =>
      rw [check_simple simple]
      exact lawful.simple here simple

theorem statements {trees : List Tree} (each : ∀ tree ∈ trees, holds tree)
    (result : Option ValueType) (state : AnalysisState) :
    Ends (checkAll result trees) state (all result state trees) :=
  lawful.row (fun tree member => lawful.statement (each tree member)) state

end IsCheckLaw

end OcLang.Statement
