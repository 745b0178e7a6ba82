import OcLang.Proofs.Analysis.Lookups.Statements
import OcLang.Proofs.Analysis.Repetition.Statements
import OcLang.Proofs.Typing.Laws

namespace OcLang

open Check

/-! # Bases of types

Some flag besides the mark of arrays is set on a type that is known. Unless an
error has been reported, this is so for the types of all symbols, and all symbols
that are referred to have been stored. -/

namespace TypeFlags

def hasBase (flags : TypeFlags) : Bool :=
  flags.void || flags.int || flags.null || flags.string || flags.struct

theorem isTyped_of_hasBase {flags : TypeFlags} (base : flags.hasBase = true) :
    flags.isTyped = true := by
  simp only [hasBase, isTyped] at base ⊢
  rw [base, Bool.true_or]

theorem hasBase_union (first second : TypeFlags) :
    (first ∪ second).hasBase = (first.hasBase || second.hasBase) := by
  show ((first.void || second.void) || (first.int || second.int) || (first.null || second.null) ||
    (first.string || second.string) || (first.struct || second.struct)) = _
  simp only [hasBase]
  ac_rfl

end TypeFlags

theorem Describes.hasBase {declarator : Tree} {problems : List Problem} {type : ValueType}
    (describes : Describes declarator problems type) (accepted : NoError problems) :
    type.flags.hasBase = true := by
  cases describes with
  | base base => cases base <;> cases declarator.hasArrayMark <;> rfl
  | refused refused => exact absurd accepted refused

def basing : TypeLaw where
  holds state type := state.Accepted → type.flags.hasBase = true
  later extends_ holds accepted := holds (extends_.accepted accepted)
  declared _ describes accepted :=
    describes.hasBase (AnalysisState.accepted_reporting accepted)
  struct _ _ _ := rfl

namespace AnalysisState

/-- Whatever is referred to has been stored, and if it has no type, then an error
has been reported. -/
structure IsSettled (state : AnalysisState) : Prop where
  sound : state.IsSound 0
  obeys : state.Obeys basing

theorem IsSettled.start : IsSettled {} where
  sound := .start
  obeys := by simp [Obeys]

theorem IsSettled.reporting {state : AnalysisState} (settled : state.IsSettled)
    (problems : List Problem) : (state.reporting problems).IsSettled where
  sound := settled.sound.reporting problems
  obeys := (Obeying.reporting state problems).obeys settled.obeys

theorem IsSettled.hasBase {state : AnalysisState} (settled : state.IsSettled)
    (accepted : state.Accepted) {id : Nat} {symbol : Symbol}
    (stored : state.symbols[id]? = some symbol) : symbol.type.flags.hasBase = true :=
  settled.obeys symbol (Array.mem_of_getElem? stored) accepted

end AnalysisState

structure Settles (before after : AnalysisState) : Prop where
  settled : after.IsSettled
  extends_ : Extends before after

theorem Settles.trans {before middle after : AnalysisState} (first : Settles before middle)
    (second : Settles middle after) : Settles before after :=
  ⟨second.settled, first.extends_.trans second.extends_⟩

section

variable {Value : Type} {step : Check Value} {state : AnalysisState}

theorem TypeLaw.KeptBy.settles (kept : basing.KeptBy step) (settled : state.IsSettled)
    (sound : Ends step state fun _ after => after.IsSound 0) :
    Ends step state fun _ after => Settles state after := by
  apply ((kept state).and sound).imp
  intro _ after both
  exact ⟨⟨both.2, both.1.obeys settled.obeys⟩, both.1.extends_⟩

theorem Expression.check_settles (tree : Tree) (settled : state.IsSettled) :
    Ends (check tree) state fun _ after => Settles state after :=
  (basing.expression_kept tree).settles settled
    ((expression_mirrors tree False.elim (.refl settled.sound)).2.imp
      fun _ _ checked => checked.sound)

theorem Expression.checkAll_settles (trees : List Tree) (settled : state.IsSettled) :
    Ends (checkAll trees) state fun _ after => Settles state after :=
  (basing.expressions_kept _).settles settled
    ((expressions_mirrors (fun tree _ _ _ proceeds => expression_mirrors tree False.elim proceeds)
      (.refl settled.sound)).2.imp fun _ _ checked => checked.sound)

namespace Declaration

/-- The symbol of a variable may be stored before its initial value is checked. -/
theorem allocateVariable_settles {symbol : Symbol} {replaces : Option Nat}
    (role : symbol.role = .variable replaces) (known : ∀ id ∈ replaces, id < state.symbols.size)
    (base : state.Accepted → symbol.type.flags.hasBase = true) (settled : state.IsSettled) :
    Ends (allocate symbol) state fun id after => Settles state after ∧
      after.symbols[id]? = some symbol := by
  have obeying : Ends (allocate symbol) state fun _ after => Obeying basing state after :=
    .modifyGet (.allocated state base)
  apply ((allocateVariable_mirrors settled.sound 0 (.inl role) known (Nat.zero_le _)).2.and
    obeying).imp
  rintro id after ⟨⟨_, stored, allocated⟩, obeying⟩
  exact ⟨⟨⟨allocated.sound, obeying.obeys settled.obeys⟩, obeying.extends_⟩, stored⟩

theorem storeVariable_settles {type : ValueType} (name : Tree)
    (base : state.Accepted → type.flags.hasBase = true) (settled : state.IsSettled) :
    Ends (storeVariable type name) state fun _ after => Settles state after := by
  apply Ends.bind
  apply (replacedVariable_mirrors settled.sound name.text).2.imp
  rintro replaces state ⟨rfl, known⟩
  apply Ends.bind
  apply Ends.get
  exact (allocateVariable_settles rfl known base settled).imp fun _ _ stores => stores.1

end Declaration

namespace Statement

structure IsSettledIn (result : Option ValueType) (state : AnalysisState) : Prop
    extends state.IsSettled where
  returns : ∃ function, Strict.Returns state.symbols function result

theorem IsSettledIn.start : IsSettledIn none {} :=
  ⟨.start, none, .outside⟩

theorem IsSettledIn.later {result : Option ValueType} {after : AnalysisState}
    (settled : IsSettledIn result state) (settles : Settles state after) :
    IsSettledIn result after := by
  rcases settled.returns with ⟨function, returns⟩
  exact ⟨settles.settled, function, returns.grows settles.extends_.grows⟩

variable {result : Option ValueType}

theorem enter_settles (settled : state.IsSettled) :
    Ends enter state fun _ after => Settles state after :=
  basing.enter_kept.settles settled (.modify settled.sound.entered)

theorem openFunction_settles (node declarator parameters : Tree) (settled : state.IsSettled) :
    Ends (Declaration.openFunction node declarator parameters) state fun opened inside =>
      Settles state inside ∧ ∀ heading ∈ opened,
        inside.symbols[state.symbols.size]?.map (·.type) = some heading.type := by
  have mirrors := (Declaration.openFunction_mirrors settled.sound node
    (False.elim : False → Numbering.IsPlain declarator)
    (False.elim : False → Numbering.IsPlain parameters)).2
  have settles : Ends (Declaration.openFunction node declarator parameters) state
      fun _ inside => Settles state inside := by
    apply (basing.openFunction_kept node declarator parameters).settles settled
    apply mirrors.imp
    rintro (_ | heading) inside opening
    · exact opening.sound
    · exact opening.sound
  apply (settles.and mirrors).imp
  rintro opened inside ⟨settles, opening⟩
  refine ⟨settles, ?_⟩
  rintro heading ⟨⟩
  exact opening.own

theorem condition_settles (test : Tree) (settled : state.IsSettled) :
    Ends (condition test) state fun _ after => Settles state after :=
  (basing.condition_kept test).settles settled
    ((condition_mirrors settled.sound False.elim).2.imp fun _ _ checked => checked.sound)

theorem check_settles (tree : Tree) (settled : IsSettledIn result state) :
    Ends (check result tree) state fun _ after => Settles state after := by
  rcases settled.returns with ⟨function, returns⟩
  exact (basing.isStepLaw.check tree result).settles settled.toIsSettled
    ((statement_mirrors tree False.elim settled.sound returns).2.imp
      fun _ _ checked => checked.sound)

theorem checkAll_settles (trees : List Tree) (settled : IsSettledIn result state) :
    Ends (checkAll result trees) state fun _ after => Settles state after := by
  induction trees generalizing state with
  | nil => exact .pure ⟨settled.toIsSettled, .refl state⟩
  | cons tree rest induction =>
      apply Ends.bind
      apply (check_settles tree settled).imp
      intro _ middle settles
      apply Ends.bind
      apply (induction (settled.later settles)).imp
      intro _ after settlesRest
      exact .pure (settles.trans settlesRest)

end Statement

end

end OcLang
