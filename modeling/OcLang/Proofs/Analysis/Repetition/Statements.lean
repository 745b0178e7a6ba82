import OcLang.Proofs.Analysis.Repetition.Expressions
import OcLang.Proofs.Scoping.Declarations

namespace OcLang

/-! # Checking statements twice

What a declaration stores is read off its name and type, and not off the notes
on them. -/

open Check

/-! ## Declarators -/

theorem Tree.hasArrayMark_congr {first second : Tree} (same : first.bare = second.bare) :
    first.hasArrayMark = second.hasArrayMark := by
  have bare : ∀ tree : Tree, tree.bare.hasArrayMark = tree.hasArrayMark := by
    intro tree
    simp [hasArrayMark, Function.comp_def]
  rw [← bare first, same, bare second]

theorem Check.declaredType_congr {first second : Tree} (same : first.bare = second.bare)
    (enclosing : Option String) : declaredType enclosing first = declaredType enclosing second := by
  obtain ⟨sameKind, samePlace, sameText, _⟩ := (Tree.bare_eq_iff _ _).mp same
  simp only [declaredType, sameKind, samePlace, sameText, Tree.hasArrayMark_congr same]

/-- A change of trees that does not change what it has changed, and no block. -/
structure Tree.Settles (change : Tree → Tree) : Prop where
  twice : ∀ tree, change (change tree) = change tree
  blocksOnly : ∀ tree, (change tree).blocksOnly = tree.blocksOnly

theorem Tree.Settles.id : Tree.Settles fun tree => tree :=
  ⟨fun _ => rfl, fun _ => rfl⟩

namespace Declaration

theorem annotateName_twice (type : ValueType) (roles : Roles) (id : Nat) (declarator : Tree) :
    annotateName type roles id (annotateName type roles id declarator) =
      annotateName type roles id declarator := by
  unfold annotateName
  rw [Tree.mapDeclaredName_mapDeclaredName]
  · simp [Tree.mapNote, Note.addType, Note.add]
  · exact fun _ => rfl

theorem blocksOnly_annotateName (type : ValueType) (roles : Roles) (id : Nat)
    (declarator : Tree) :
    (annotateName type roles id declarator).blocksOnly = declarator.blocksOnly := by
  have children := Tree.map_children_mapDeclaredName Tree.blocksOnly
    (fun name => name.mapNote fun note => { note.addType type roles with symbol := some id })
    (fun name => by cases name; simp [Tree.mapNote, Tree.blocksOnly_mk, Note.addType, Note.add])
    declarator
  obtain ⟨kind, location, text, note, others⟩ := declarator
  exact (Tree.blocksOnly_mk _ _ _ _ _).trans
    ((congrArg _ children).trans (Tree.blocksOnly_mk _ _ _ _ _).symm)

theorem annotate_settles (type : ValueType) (roles : Roles) (id : Nat) {change : Note → Note}
    (settles : Note.Settles change) :
    Tree.Settles fun declarator => (annotateName type roles id declarator).mapNote change where
  twice declarator := by
    show ((annotateName type roles id (annotateName type roles id declarator)).mapNote
      change).mapNote change = _
    rw [annotateName_twice]
    simp [Tree.mapNote, settles.twice]
  blocksOnly declarator := by
    rw [← blocksOnly_annotateName type roles id declarator]
    cases annotateName type roles id declarator
    simp [Tree.mapNote, Tree.blocksOnly_mk, settles.block]

section

variable {declarator other : Tree} (same : other.bare = declarator.bare)

include same

theorem declaredName?_none (declared : declarator.declaredName? = none) :
    other.declaredName? = none := by
  have names := congrArg Tree.declaredName? same
  simpa [declared] using names

theorem declaredName?_some {name : Tree} (declared : declarator.declaredName? = some name) :
    ∃ otherName, other.declaredName? = some otherName ∧ otherName.text = name.text ∧
      otherName.location = name.location := by
  have names := congrArg Tree.declaredName? same
  simp only [Tree.declaredName?_bare, declared, Option.map_some, Option.map_eq_some_iff] at names
  obtain ⟨otherName, found, sameName⟩ := names
  obtain ⟨_, samePlace, sameText, _⟩ := (Tree.bare_eq_iff _ _).mp sameName
  exact ⟨otherName, found, sameText, samePlace⟩

end

theorem countP_declared {declarators others : List Tree}
    (same : others.map Tree.blocksOnly = declarators.map Tree.blocksOnly) :
    others.countP (·.declaredName?.isSome) = declarators.countP (·.declaredName?.isSome) := by
  have blind : ∀ tree : Tree,
      tree.declaredName?.isSome = tree.blocksOnly.bare.declaredName?.isSome := by
    intro tree
    simp [Tree.bare_blocksOnly]
  have view : ∀ trees : List Tree, trees.countP (·.declaredName?.isSome) =
      (trees.map Tree.blocksOnly).countP (·.bare.declaredName?.isSome) := by
    intro trees
    rw [List.countP_map]
    exact List.countP_congr fun tree _ => by rw [blind tree]; rfl
  rw [view, same, ← view]

/-! ## Structs -/

theorem checkField_settles (structName : String) (table : Table) (declarator : Tree)
    (state : AnalysisState) :
    ∃ change, Tree.Settles change ∧ ∀ other, other.bare = declarator.bare →
      (checkField structName table other).run state =
        ((((checkField structName table declarator).run state).1.1, change other),
          ((checkField structName table declarator).run state).2) := by
  cases declared : declarator.declaredName? with
  | none =>
      refine ⟨_, .id, fun other same => ?_⟩
      obtain ⟨sameKind, samePlace, _⟩ := (Tree.bare_eq_iff _ _).mp same
      simp only [checkField, declaredType_congr same, declaredName?_none same declared, declared,
        run_bind, run_pure, sameKind, samePlace]
  | some name =>
      let typed := (declaredType (some structName) declarator).run state
      refine ⟨_, annotate_settles typed.1 { isField := true } typed.2.symbols.size
        (.addType typed.1 {}), fun other same => ?_⟩
      obtain ⟨otherName, otherDeclared, sameText, samePlace⟩ := declaredName?_some same declared
      simp only [checkField, declaredType_congr same, otherDeclared, declared,
        run_bind, sameText, samePlace]
      cases table.find? name.text <;> rfl

theorem checkField_repeats (structName : String) (table : Table) (declarator : Tree)
    (state : AnalysisState) :
    Ends (checkField structName table declarator) state fun result final =>
      result.2.blocksOnly = declarator.blocksOnly ∧
        (checkField structName table result.2).run state = (result, final) := by
  obtain ⟨change, settles, run⟩ := checkField_settles structName table declarator state
  have first := run declarator rfl
  have changed := settles.blocksOnly declarator
  have second := run (change declarator) (Tree.bare_eq_of_blocksOnly_eq changed)
  rw [settles.twice, ← first] at second
  rw [Ends, first]
  exact ⟨changed, second.trans first⟩

theorem checkFields_repeats (structName : String) (table : Table) (declarators : List Tree)
    (state : AnalysisState) :
    Ends (checkFields structName table declarators) state fun result final =>
      result.2.map Tree.blocksOnly = declarators.map Tree.blocksOnly ∧
        (checkFields structName table result.2).run state = (result, final) := by
  induction declarators generalizing table state with
  | nil => exact .pure ⟨rfl, rfl⟩
  | cons declarator rest induction =>
      refine .bind ((checkField_repeats structName table declarator state).imp ?_)
      rintro ⟨grown, first⟩ middle ⟨same, again⟩
      refine .bind ((induction grown middle).imp ?_)
      rintro ⟨whole, others⟩ final ⟨sameOthers, againOthers⟩
      refine .pure ⟨by simp [same, sameOthers], ?_⟩
      simp only [checkFields, run_bind, again, againOthers, run_pure]

theorem checkStruct_repeats (node : Tree) : Repeats checkStruct node := by
  intro state
  obtain ⟨kind, location, text, note, children⟩ := node
  rcases children with _ | ⟨⟨nameKind, nameLocation, nameText, nameNote, others⟩, declarators⟩
  · exact ⟨rfl, rfl⟩
  · unfold checkStruct
    dsimp only
    cases named : nameKind != .type .named with
    | true =>
        refine .bind (.modify (.pure ⟨rfl, ?_⟩))
        simp [named]
        rfl
    | false =>
        refine .bind ((checkFields_repeats nameText {} declarators state).imp ?_)
        rintro ⟨table, checked⟩ middle ⟨same, again⟩
        refine .bind (.modifyGet ?_)
        refine .bind (.run (.pure ⟨?_, ?_⟩))
        · simp [Tree.blocksOnly_mk, Tree.mapNote, Note.addType, Note.add, same]
        · simp only [named, Bool.false_eq_true, if_false, Tree.mapNote, run_bind, again]
          simp [Note.addType, Note.add]
          rfl

/-! ## Variables -/

def storeVariable (type : ValueType) (name : Tree) : Check Nat := do
  let replaces ← replacedVariable name.text
  let block := (← get).scopes.currentBlock
  allocate { type, role := .variable replaces, location := name.location, block }

theorem checkVariable_settles (kind : Kind) (location : Location) (text : String)
    {declarator name : Tree} (declared : declarator.declaredName? = some name)
    (values : List Tree) (state : AnalysisState) :
    ∃ type change checked final, Tree.Settles change ∧
      checked.map Tree.blocksOnly = values.map Tree.blocksOnly ∧
      ∀ others, others = values ∨ others = checked → ∀ note other, other.bare = declarator.bare →
        (checkVariable ⟨kind, location, text, note, other :: others⟩).run state =
          (⟨kind, location, text, note.addType type, change other :: checked⟩, final) := by
  let typed := (declaredType none declarator).run state
  let roles := (SymbolRole.variable none).roles
  let stored := (storeVariable typed.1 name).run typed.2
  have typing := Note.Settles.addType typed.1 roles
  rcases values with _ | ⟨value, rest⟩
  · refine ⟨typed.1, _, [], ((do
      declare .innermost name.text stored.1
      recordSymbol name.text stored.1).run stored.2).2,
      annotate_settles typed.1 roles stored.1 typing, rfl, ?_⟩
    intro others same note other sameOther
    obtain rfl : others = [] := by simpa using same
    obtain ⟨otherName, otherDeclared, sameText, samePlace⟩ := declaredName?_some sameOther declared
    simp only [checkVariable, otherDeclared, declaredType_congr sameOther, run_bind, sameText,
      samePlace]
    rfl
  · let checked := (Expression.check value).run stored.2
    obtain ⟨sameValue, again⟩ := Expression.check_repeats value stored.2
    have typing : Note.Settles fun note =>
        (note.addType typed.1 roles).add checked.1.note.attributes := by
      constructor <;> simp [Note.addType, Note.add]
    refine ⟨typed.1, _, checked.1 :: rest, ((do
      requireCompatible "initialization" typed.1 checked.1
      declare .innermost name.text stored.1
      recordSymbol name.text stored.1).run checked.2).2,
      annotate_settles typed.1 roles stored.1 typing, by simp [checked, sameValue], ?_⟩
    intro others same note other sameOther
    obtain ⟨given, rfl, walked⟩ : ∃ given, others = given :: rest ∧
        (Expression.check given).run stored.2 = checked := by
      rcases same with rfl | rfl
      · exact ⟨value, rfl, rfl⟩
      · exact ⟨checked.1, rfl, again⟩
    obtain ⟨otherName, otherDeclared, sameText, samePlace⟩ := declaredName?_some sameOther declared
    have stepwise :
        (checkVariable ⟨kind, location, text, note, other :: given :: rest⟩).run state = (do
          let value ← Expression.check given
          requireCompatible "initialization" typed.1 value
          declare .innermost name.text stored.1
          recordSymbol name.text stored.1
          let declarator := (annotateName typed.1 roles stored.1 other).mapNote fun note =>
            (note.addType typed.1 roles).add value.note.attributes
          return Tree.mk kind location text (note.addType typed.1)
            (declarator :: value :: rest)).run stored.2 := by
      simp only [checkVariable, otherDeclared, declaredType_congr sameOther, run_bind, sameText,
        samePlace]
      rfl
    rw [stepwise, run_bind, walked]
    rfl

theorem checkVariable_repeats (node : Tree) : Repeats checkVariable node := by
  intro state
  obtain ⟨kind, location, text, note, children⟩ := node
  rcases children with _ | ⟨declarator, values⟩
  · exact ⟨rfl, rfl⟩
  · cases declared : declarator.declaredName? with
    | none =>
        have unchanged : (checkVariable ⟨kind, location, text, note, declarator :: values⟩).run
            state = (⟨kind, location, text, note, declarator :: values⟩,
              ((malformed kind location).run ((declaredType none declarator).run state).2).2) := by
          simp only [checkVariable, declared, run_bind]
          rfl
        rw [Ends, unchanged]
        exact ⟨rfl, unchanged⟩
    | some name =>
        obtain ⟨type, change, checked, final, settles, sameValues, run⟩ :=
          checkVariable_settles kind location text declared values state
        have blocks := settles.blocksOnly declarator
        have first := run values (.inl rfl) note declarator rfl
        have second := run checked (.inr rfl) (note.addType type) (change declarator)
          (Tree.bare_eq_of_blocksOnly_eq blocks)
        have typing := Note.Settles.addType type {}
        rw [settles.twice, typing.twice] at second
        rw [Ends, first]
        exact ⟨by simp [Tree.blocksOnly_mk, typing.block note, blocks, sameValues], second⟩

/-! ## Functions -/

theorem checkParameter_settles (declarator : Tree) (state : AnalysisState) :
    ∃ change, Tree.Settles change ∧ ∀ other, other.bare = declarator.bare →
      (checkParameter other).run state =
        (change other, ((checkParameter declarator).run state).2) := by
  cases declared : declarator.declaredName? with
  | none =>
      refine ⟨_, .id, fun other same => ?_⟩
      obtain ⟨sameKind, samePlace, _⟩ := (Tree.bare_eq_iff _ _).mp same
      simp only [checkParameter, declaredType_congr same, declaredName?_none same declared,
        declared, run_bind, run_pure, sameKind, samePlace]
  | some name =>
      let typed := (declaredType none declarator).run state
      refine ⟨_, annotate_settles typed.1 (SymbolRole.parameter none).roles typed.2.symbols.size
        (.addType typed.1 {}), fun other same => ?_⟩
      obtain ⟨otherName, otherDeclared, sameText, samePlace⟩ := declaredName?_some same declared
      simp only [checkParameter, declaredType_congr same, otherDeclared, declared,
        run_bind, run_pure, sameText, samePlace]
      rfl

theorem checkParameter_repeats (declarator : Tree) : Repeats checkParameter declarator := by
  intro state
  obtain ⟨change, settles, run⟩ := checkParameter_settles declarator state
  have first := run declarator rfl
  have changed := settles.blocksOnly declarator
  have second := run (change declarator) (Tree.bare_eq_of_blocksOnly_eq changed)
  rw [settles.twice, ← first] at second
  rw [Ends, first]
  exact ⟨changed, second.trans first⟩

theorem checkParameters_repeats (declarators : List Tree) (state : AnalysisState) :
    Ends (checkParameters declarators) state fun result final =>
      result.map Tree.blocksOnly = declarators.map Tree.blocksOnly ∧
        (checkParameters result).run state = (result, final) := by
  induction declarators generalizing state with
  | nil => exact .pure ⟨rfl, rfl⟩
  | cons declarator rest induction =>
      refine .bind ((checkParameter_repeats declarator state).imp ?_)
      rintro first middle ⟨same, again⟩
      refine .bind ((induction middle).imp ?_)
      rintro others final ⟨sameOthers, againOthers⟩
      refine .pure ⟨by simp [same, sameOthers], ?_⟩
      simp only [checkParameters, run_bind, again, againOthers, run_pure]

theorem openFunction_settles (node parameterList : Tree) {declarator name : Tree}
    (declared : declarator.declaredName? = some name) (state : AnalysisState) :
    ∃ type change checked final, Tree.Settles change ∧
      checked.map Tree.blocksOnly = parameterList.children.map Tree.blocksOnly ∧
      ∀ children, children = parameterList.children ∨ children = checked →
      ∀ function other, function.kind = node.kind → other.bare = declarator.bare →
        (openFunction function other { parameterList with children }).run state =
          (some ⟨type, change other, { parameterList with children := checked }⟩, final) := by
  let typed := (declaredType none declarator).run state
  let count := parameterList.children.countP (·.declaredName?.isSome)
  let role := SymbolRole.function (List.range' (typed.2.symbols.size + 1) count)
    (node.kind == .prototype)
  let entered := (do
    let id ← allocate { type := typed.1, role, location := name.location }
    recordSymbol name.text id
    declare .file name.text id
    enter : Check Unit).run typed.2
  let checked := (checkParameters parameterList.children).run entered.2
  obtain ⟨same, again⟩ := checkParameters_repeats parameterList.children entered.2
  have settles := annotate_settles typed.1 role.roles typed.2.symbols.size (.addType typed.1 {})
  refine ⟨typed.1, _, checked.1, ((record .separator).run checked.2).2, settles, same, ?_⟩
  intro children given function other sameKind sameOther
  have walked : (checkParameters children).run entered.2 = checked := by
    rcases given with rfl | rfl
    · rfl
    · exact again
  have sameCount : children.countP (·.declaredName?.isSome) = count := by
    rcases given with rfl | rfl
    · rfl
    · exact countP_declared same
  obtain ⟨otherName, otherDeclared, sameText, samePlace⟩ := declaredName?_some sameOther declared
  have stepwise :
      (openFunction function other { parameterList with children }).run state = (do
        let children ← checkParameters children
        record .separator
        let declarator := (annotateName typed.1 role.roles typed.2.symbols.size other).mapNote
          (·.addType typed.1)
        return some (Heading.mk typed.1 declarator { parameterList with children })).run
          entered.2 := by
    simp only [openFunction, otherDeclared, declaredType_congr sameOther, run_bind, sameText,
      samePlace, sameKind, sameCount]
    rfl
  rw [stepwise, run_bind, walked]
  rfl

theorem openFunction_repeats {node declarator parameterList : Tree} {state final : AnalysisState}
    {heading : Heading}
    (opened : (openFunction node declarator parameterList).run state = (some heading, final)) :
    heading.declarator.blocksOnly = declarator.blocksOnly ∧
      heading.parameters.blocksOnly = parameterList.blocksOnly ∧
      ∀ function, function.kind = node.kind →
        (openFunction function heading.declarator heading.parameters).run state =
          (some heading, final) := by
  cases declared : declarator.declaredName? with
  | none =>
      simp only [openFunction, declared, run_bind, run_pure] at opened
      injection opened with nothing
      contradiction
  | some name =>
      obtain ⟨type, change, checked, final, settles, same, run⟩ :=
        openFunction_settles node parameterList declared state
      have blocks := settles.blocksOnly declarator
      have first := run _ (.inl rfl) node declarator rfl rfl
      injection opened.symm.trans first with sameHeading sameFinal
      injection sameHeading with sameHeading
      subst sameHeading sameFinal
      refine ⟨blocks, ?_, fun function sameKind => ?_⟩
      · cases parameterList
        simpa [Tree.blocksOnly_mk] using same
      · have second := run _ (.inr rfl) function (change declarator) sameKind
          (Tree.bare_eq_of_blocksOnly_eq blocks)
        rwa [settles.twice] at second

end Declaration

namespace Statement

/-! ## The walk -/

theorem simple_repeats (result : Option ValueType) (node : Tree) :
    Repeats (simple result) node := by
  intro state
  obtain ⟨kind, location, text, note, children⟩ := node
  have unchanged : ((simple result ⟨kind, location, text, note, children⟩).run state).1 =
      ⟨kind, location, text, note, children⟩ →
      Ends (simple result ⟨kind, location, text, note, children⟩) state fun checked final =>
        checked.blocksOnly = Tree.blocksOnly ⟨kind, location, text, note, children⟩ ∧
          (simple result checked).run state = (checked, final) := by
    intro same
    rw [Ends, same]
    exact ⟨rfl, Prod.ext same rfl⟩
  have through : ∀ walk : Tree → Check Tree,
      (∀ note children, simple result ⟨kind, location, text, note, children⟩ =
        walk ⟨kind, location, text, note, children⟩) →
      Repeats walk ⟨kind, location, text, note, children⟩ →
      Ends (simple result ⟨kind, location, text, note, children⟩) state fun checked final =>
        checked.blocksOnly = Tree.blocksOnly ⟨kind, location, text, note, children⟩ ∧
          (simple result checked).run state = (checked, final) := by
    intro walk is walked
    rw [is]
    refine (walked state).imp ?_
    rintro checked final ⟨same, again⟩
    refine ⟨same, ?_⟩
    obtain ⟨otherNote, others, rfl, _⟩ :=
      Tree.exists_of_bare_eq (Tree.bare_eq_of_blocksOnly_eq same)
    rw [is, again]
  cases kind with
  | struct =>
      exact through Declaration.checkStruct (fun _ _ => rfl) (Declaration.checkStruct_repeats _)
  | «variable» =>
      exact through Declaration.checkVariable (fun _ _ => rfl) (Declaration.checkVariable_repeats _)
  | returnVoid =>
      refine unchanged ?_
      simp only [simple]
      split <;> rfl
  | returnValue =>
      rcases children with _ | ⟨value, rest⟩
      · exact unchanged rfl
      · refine .bind ((Expression.check_repeats value state).imp ?_)
        rintro checked middle ⟨same, again⟩
        have settles := Note.Settles.addType checked.note.type {}
        refine .bind (.run (.pure ⟨by simp [Tree.blocksOnly_mk, settles.block note, same], ?_⟩))
        simp only [simple, run_bind, again, run_pure, settles.twice note]
  | function | prototype | whileLoop | ifThen | ifElse =>
      exact unchanged rfl
  | field | type | arrayMark | declaredName | parameters => exact unchanged rfl
  | _ => exact through Expression.check (fun _ _ => rfl) (Expression.check_repeats _)

theorem condition_repeats (tree : Tree) : Repeats condition tree := by
  intro state
  refine .bind ((Expression.check_repeats tree state).imp ?_)
  rintro checked middle ⟨same, again⟩
  refine .bind (.run (.pure ⟨same, ?_⟩))
  simp only [condition, run_bind, again, run_pure]

theorem checkAll_repeats {result : Option ValueType} {trees : List Tree}
    (each : ∀ tree ∈ trees, Repeats (check result) tree) (state : AnalysisState) :
    Ends (checkAll result trees) state fun checked final =>
      checked.map Tree.blocksOnly = trees.map Tree.blocksOnly ∧
        (checkAll result checked).run state = (checked, final) := by
  induction trees generalizing state with
  | nil => exact .pure ⟨rfl, rfl⟩
  | cons tree rest induction =>
      simp only [List.forall_mem_cons] at each
      refine .bind ((each.1 state).imp ?_)
      rintro first middle ⟨sameFirst, again⟩
      refine .bind ((induction each.2 middle).imp ?_)
      rintro others final ⟨sameOthers, againOthers⟩
      refine .pure ⟨by simp [sameFirst, sameOthers], ?_⟩
      rw [checkAll, run_bind, again, run_bind, againOthers, run_pure]

theorem checkBody_repeats {type : ValueType} {bodies : List Tree}
    (each : ∀ body ∈ bodies, ∀ child ∈ body.children, Repeats (check (some type)) child)
    (node : Tree) (state : AnalysisState) :
    Ends (checkBody type node bodies) state fun checked final =>
      checked.map Tree.blocksOnly = bodies.map Tree.blocksOnly ∧
        ∀ function, function.kind = node.kind → function.location = node.location →
          (checkBody type function checked).run state = (checked, final) := by
  rcases bodies with _ | ⟨⟨kind, location, text, note, children⟩, rest⟩
  · refine .bind (.run (.pure ⟨rfl, fun function sameKind samePlace => ?_⟩))
    simp only [checkBody, run_bind, run_pure, sameKind, samePlace]
  · refine .bind ((checkAll_repeats (each _ List.mem_cons_self) state).imp ?_)
    rintro checked final ⟨same, again⟩
    refine .pure ⟨by simp [Tree.blocksOnly_mk, same], fun function _ _ => ?_⟩
    simp only [checkBody, run_bind, again, run_pure]

/-- Checking a statement again finds nothing else. -/
theorem check_repeats (tree : Tree) (result : Option ValueType) :
    Repeats (check result) tree := by
  induction tree using Tree.statementInduction generalizing result with
  | root location text note children induction =>
      intro state
      rw [check]
      refine .bind ((checkAll_repeats (fun child member => induction child member result)
        state).imp ?_)
      rintro checked final ⟨same, again⟩
      refine .pure ⟨by simp [Tree.blocksOnly_mk, same], ?_⟩
      rw [check, run_bind, again, run_pure]
  | block location text note children induction =>
      intro state
      rw [check]
      refine .bind (.run (.bind ((checkAll_repeats (fun child member => induction child member
        result) _).imp ?_)))
      rintro checked middle ⟨same, again⟩
      refine .bind (.run (.pure ⟨by simp [Tree.blocksOnly_mk, same], ?_⟩))
      rw [check, run_bind, run_bind, again]
      rfl
  | function location text note declarator parameters rest induction =>
      intro state
      let node : Tree := ⟨.function, location, text, note, declarator :: parameters :: rest⟩
      cases opened : (Declaration.openFunction node declarator parameters).run state with
      | mk heading? middle =>
          cases heading? with
          | none =>
              -- A heading that is refused leaves the node as it is.
              have unchanged : (check result node).run state = (node, middle) := by
                rw [check, run_bind, opened]
                rfl
              exact ⟨by rw [unchanged], by rw [unchanged, unchanged]⟩
          | some heading =>
              obtain ⟨sameDeclarator, sameParameters, againHeading⟩ :=
                Declaration.openFunction_repeats opened
              have settles := Note.Settles.addType heading.type { isFunction := true }
              rw [check]
              refine .bind_of_run opened ?_
              refine .bind ((checkBody_repeats (fun body member child inside =>
                induction body member child inside (some heading.type)) node middle).imp ?_)
              rintro checked after ⟨same, againBody⟩
              refine .bind (.run (.bind (.run (.pure ⟨?_, ?_⟩))))
              · simp [Declaration.closeFunction, Tree.blocksOnly_mk, sameDeclarator, sameParameters,
                  same, settles.block note]
              · let closed : Tree := ⟨.function, location, text,
                  note.addType heading.type { isFunction := true },
                  heading.declarator :: heading.parameters :: checked⟩
                show (check result closed).run state = _
                rw [check, run_bind, againHeading closed rfl]
                dsimp only
                rw [run_bind, againBody closed rfl rfl]
                simp only [Declaration.closeFunction, settles.twice note]
                rfl
  | prototype location text note declarator parameters rest =>
      intro state
      let node : Tree := ⟨.prototype, location, text, note, declarator :: parameters :: rest⟩
      cases opened : (Declaration.openFunction node declarator parameters).run state with
      | mk heading? middle =>
          cases heading? with
          | none =>
              have unchanged : (check result node).run state = (node, middle) := by
                rw [check, run_bind, opened]
                rfl
              exact ⟨by rw [unchanged], by rw [unchanged, unchanged]⟩
          | some heading =>
              obtain ⟨sameDeclarator, sameParameters, againHeading⟩ :=
                Declaration.openFunction_repeats opened
              have settles := Note.Settles.addType heading.type { isFunction := true }
              rw [check]
              refine .bind_of_run opened (.bind (.run (.pure ⟨?_, ?_⟩)))
              · simp [Declaration.closeFunction, Tree.blocksOnly_mk, sameDeclarator, sameParameters,
                  settles.block note]
              · let closed : Tree := ⟨.prototype, location, text,
                  note.addType heading.type { isFunction := true },
                  heading.declarator :: heading.parameters :: rest⟩
                show (check result closed).run state = _
                rw [check, run_bind, againHeading closed rfl]
                simp only [Declaration.closeFunction, settles.twice note]
                rfl
  | control kind location text note test bodies control induction =>
      intro state
      rw [check_control control]
      refine .bind ((condition_repeats test state).imp ?_)
      rintro checkedTest middle ⟨sameTest, again⟩
      refine .bind ((checkAll_repeats (fun body member => induction body member result)
        middle).imp ?_)
      rintro checked final ⟨same, againAll⟩
      refine .pure ⟨by simp [Tree.blocksOnly_mk, sameTest, same], ?_⟩
      rw [check_control control, run_bind, again, run_bind, againAll, run_pure]
  | simple tree simple =>
      intro state
      rw [check_simple simple]
      refine (simple_repeats result tree state).imp ?_
      rintro checked final ⟨same, again⟩
      refine ⟨same, ?_⟩
      rw [check_simple, again]
      rw [← Tree.isCompound_bare, Tree.bare_eq_of_blocksOnly_eq same, Tree.isCompound_bare]
      exact simple

end Statement

end OcLang
