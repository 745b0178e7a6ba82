import OcLang.Proofs.Analysis.Numbering
import OcLang.Proofs.Keys.Expressions

namespace OcLang

open Check

/-! # Keys in declarations and statements -/

def Declaration.Heading.respell (spell : String → String) (heading : Heading) : Heading where
  type := heading.type.respell spell
  declarator := heading.declarator.respell spell
  parameters := heading.parameters.respell spell

namespace Keyed

variable {names : Naming} (state : AnalysisState)

/-! ## Steps of the analysis -/

theorem record_follows (entry : LogEntry) :
    Follows names id (record (entry.respell names.key)) (record entry) state :=
  .modify (by simp [AnalysisState.respell])

theorem allocate_follows (symbol : Symbol) :
    Follows names id (allocate (symbol.respell names.key)) (allocate symbol) state :=
  .modifyGet (by simp [AnalysisState.respell])

theorem recordSymbol_follows (name : String) (symbol : Nat) :
    Follows names id (recordSymbol (names.key name) symbol) (recordSymbol name symbol) state := by
  refine .get ?_
  rw [AnalysisState.scopes_respell, Scopes.depth_respell]
  exact record_follows state (.symbol name symbol state.scopes.depth)

theorem enter_follows : Follows names id enter enter state := rfl

theorem leave_follows : Follows names id leave leave state := by
  refine .modify ?_
  rw [AnalysisState.scopes_respell, Scopes.exit_respell]
  cases state.scopes.exit <;> rfl

theorem replacedVariable_follows (name : String) :
    Follows names id (replacedVariable (names.key name)) (replacedVariable name) state := by
  refine .get (.pure ?_)
  rw [AnalysisState.scopes_respell, Scopes.bound?_respell names.key_injective]
  simp only [AnalysisState.symbol_respell, Symbol.isVariable_respell]
  rfl

theorem declare_follows (target : DeclarationTarget) (name : String) (symbol : Nat) :
    Follows names id (declare names target (names.key name) symbol)
      (Check.declare target name symbol) state := by
  refine .get ?_
  rw [AnalysisState.scopes_respell, Scopes.bound?_respell names.key_injective,
    Scopes.bind_respell names.key_injective]
  refine (Follows.set { state with scopes := state.scopes.bind target name symbol } rfl).bind
    fun _ after => ?_
  cases state.scopes.bound? target name with
  | none => exact .pure rfl
  | some previous =>
      simp only [AnalysisState.symbol_respell, Symbol.isPrototype_respell,
        Symbol.isFunction_respell, Symbol.location_respell, names.text_key]
      exact .ite (fun _ => .pure rfl) fun _ => report_follows _ _

/-! ## Declarations -/

namespace Declaration

open OcLang.Declaration (annotateName closeFunction Heading)

theorem annotateName_respell (type : ValueType) (nameRoles roles : Roles) (id : Nat)
    (declarator : Tree) :
    (annotateName (type.respell names.key) nameRoles id (declarator.respell names.key)).mapNote
        (·.addType (type.respell names.key) roles) =
      ((annotateName type nameRoles id declarator).mapNote (·.addType type roles)).respell
        names.key := by
  have inner : annotateName (type.respell names.key) nameRoles id (declarator.respell names.key) =
      (annotateName type nameRoles id declarator).respell names.key := by
    refine (Tree.respell_mapDeclaredName _ _ ?_).symm
    intro name
    exact Tree.respell_mapNote _ _ (by intro note; rfl)
  rw [inner]
  exact (Tree.respell_mapNote _ _ (by intro note; rfl)).symm

theorem checkField_follows (structName : String) (table : Table) (declarator : Tree) :
    Follows names (Prod.map (Table.respell names.key) (Tree.respell names.key))
      (checkField names (names.key structName) (table.respell names.key)
        (declarator.respell names.key))
      (OcLang.Declaration.checkField structName table declarator) state := by
  refine (declaredType_follows state (some structName) declarator).bind fun type after => ?_
  rw [Tree.declaredName?_respell, Tree.kind_respell, Tree.location_respell]
  cases declarator.declaredName? with
  | none => exact .reported _ rfl
  | some name =>
      rw [Option.map_some]
      dsimp only
      rw [Tree.text_respell, Tree.location_respell, Table.find?_respell names.key_injective]
      refine (allocate_follows after { type, role := .field, location := name.location }).bind
        fun id middle => ?_
      -- A warning about an earlier field of the name may come before this.
      have finished : ∀ last, Follows names
          (Prod.map (Table.respell names.key) (Tree.respell names.key))
          (return ((table.respell names.key).insert (names.key name.text) id,
            (annotateName (type.respell names.key) { isField := true } id
              (declarator.respell names.key)).mapNote (·.addType (type.respell names.key))))
          (return (table.insert name.text id,
            (annotateName type { isField := true } id declarator).mapNote (·.addType type)))
          last := by
        intro last
        rw [Table.insert_respell names.key_injective, annotateName_respell]
        exact .pure rfl
      cases table.find? name.text with
      | none => exact finished middle
      | some previous =>
          refine (symbol_follows middle previous).bind fun symbol after => ?_
          rw [names.text_key]
          exact (report_follows _ _).bind fun _ last => finished last

theorem checkFields_follows (structName : String) (table : Table) (declarators : List Tree) :
    Follows names (Prod.map (Table.respell names.key) (List.map (Tree.respell names.key)))
      (checkFields names (names.key structName) (table.respell names.key)
        (declarators.map (Tree.respell names.key)))
      (OcLang.Declaration.checkFields structName table declarators) state := by
  induction declarators generalizing table state with
  | nil => exact .pure rfl
  | cons declarator rest induction =>
      refine (checkField_follows state structName table declarator).bind fun both after => ?_
      exact (induction after both.1).bind fun _ _ => .pure rfl

theorem registerStruct_follows (name : String) (place : Location) (symbol : Nat) :
    Follows names id (registerStruct names (names.key name) place symbol)
      (OcLang.Declaration.registerStruct name place symbol) state := by
  have logged : ∀ after, Follows names id
      (record (.struct (names.key name) symbol) >>= fun _ => record .separator)
      (record (.struct name symbol) >>= fun _ => record .separator) after := fun after =>
    (record_follows after (.struct name symbol)).bind fun _ last => record_follows last .separator
  refine .get ?_
  rw [AnalysisState.structs_respell, Table.insert_respell names.key_injective,
    Table.find?_respell names.key_injective]
  refine (Follows.set { state with structs := state.structs.insert name symbol } rfl).bind
    fun _ after => ?_
  cases state.structs.find? name with
  | none => exact logged after
  | some previous =>
      simp only [AnalysisState.symbol_respell, Symbol.location_respell, names.text_key]
      exact (report_follows _ _).bind fun _ last => logged last

theorem checkStruct_follows (node : Tree) :
    Follows names (Tree.respell names.key) (checkStruct names (node.respell names.key))
      (OcLang.Declaration.checkStruct node) state := by
  unfold checkStruct OcLang.Declaration.checkStruct
  rw [Tree.children_respell, Tree.location_respell]
  cases node.children with
  | nil => exact .reported _ rfl
  | cons name declarators =>
      rw [List.map_cons]
      dsimp only
      rw [Tree.kind_respell, Tree.text_respell, Tree.location_respell]
      refine .ite (fun _ => .reported _ rfl) fun _ => ?_
      refine (checkFields_follows state name.text {} declarators).bind fun both after => ?_
      refine (allocate_follows after (.ofStruct name.text name.location both.1)).bind
        fun id middle => ?_
      refine (registerStruct_follows middle _ _ _).bind fun _ _ => .pure ?_
      cases name
      simp [Tree.mapNote, Note.respell, Note.addType, Note.add]

theorem checkVariable_follows (node : Tree) :
    Follows names (Tree.respell names.key) (checkVariable names (node.respell names.key))
      (OcLang.Declaration.checkVariable node) state := by
  have wrong : ∀ after, Follows names (Tree.respell names.key)
      (malformed (node.respell names.key).kind (node.respell names.key).location >>= fun _ =>
        return node.respell names.key)
      (malformed node.kind node.location >>= fun _ => return node) after := by
    intro after
    rw [Tree.kind_respell, Tree.location_respell]
    exact .reported _ rfl
  unfold checkVariable OcLang.Declaration.checkVariable
  rw [Tree.children_respell]
  cases node.children with
  | nil => exact wrong state
  | cons declarator values =>
      refine (declaredType_follows state none declarator).bind fun type after => ?_
      rw [Tree.declaredName?_respell]
      cases declarator.declaredName? with
      | none => exact wrong after
      | some name =>
          rw [Option.map_some]
          dsimp only
          rw [Tree.text_respell, Tree.location_respell]
          refine (replacedVariable_follows after name.text).bind fun replaces middle => .get ?_
          rw [AnalysisState.scopes_respell, Scopes.currentBlock_respell]
          refine (allocate_follows middle
            ⟨type, .variable replaces, name.location, middle.scopes.currentBlock⟩).bind
              fun id ready => ?_
          -- The declaration takes effect behind the initializer, if there is one.
          have finished : ∀ declarator values last, Follows names (Tree.respell names.key)
              (do
                declare names .innermost (names.key name.text) id
                recordSymbol (names.key name.text) id
                return { node.respell names.key with
                  note := (node.respell names.key).note.addType (type.respell names.key)
                  children := Tree.respell names.key declarator ::
                    List.map (Tree.respell names.key) values })
              (do
                Check.declare .innermost name.text id
                recordSymbol name.text id
                return { node with
                  note := node.note.addType type, children := declarator :: values })
              last := fun declarator values last =>
            (declare_follows last _ _ _).bind fun _ after =>
              (recordSymbol_follows after _ _).bind fun _ _ => .pure (by simp)
          rw [annotateName_respell]
          cases values with
          | nil => exact finished _ [] ready
          | cons value rest =>
              refine (Expression.check_follows value ready).bind fun value checked => ?_
              refine (requireCompatible_follows checked _ type value).bind fun _ last => ?_
              rw [Tree.note_respell _ value, Note.attributes_respell, Tree.mapNote_add_respell]
              exact finished _ (value :: rest) last

theorem checkParameter_follows (declarator : Tree) :
    Follows names (Tree.respell names.key) (checkParameter names (declarator.respell names.key))
      (OcLang.Declaration.checkParameter declarator) state := by
  refine (declaredType_follows state none declarator).bind fun type after => ?_
  rw [Tree.declaredName?_respell, Tree.kind_respell, Tree.location_respell]
  cases declarator.declaredName? with
  | none => exact .reported _ rfl
  | some name =>
      rw [Option.map_some]
      dsimp only
      rw [Tree.text_respell, Tree.location_respell]
      refine (replacedVariable_follows after name.text).bind fun replaces middle => .get ?_
      rw [AnalysisState.scopes_respell, Scopes.currentBlock_respell]
      refine (allocate_follows middle
        ⟨type, .parameter replaces, name.location, middle.scopes.currentBlock⟩).bind
          fun id ready => ?_
      refine (declare_follows ready _ _ _).bind fun _ declared => ?_
      exact (recordSymbol_follows declared _ _).bind fun _ _ =>
        .pure (annotateName_respell _ _ _ _ _)

theorem checkParameters_follows (declarators : List Tree) :
    Follows names (List.map (Tree.respell names.key))
      (checkParameters names (declarators.map (Tree.respell names.key)))
      (OcLang.Declaration.checkParameters declarators) state := by
  induction declarators generalizing state with
  | nil => exact .pure rfl
  | cons declarator rest induction =>
      exact (checkParameter_follows state declarator).bind fun _ after =>
        (induction after).bind fun _ _ => .pure rfl

theorem openFunction_follows (node declarator parameters : Tree) :
    Follows names (Option.map (Heading.respell names.key))
      (openFunction names (node.respell names.key) (declarator.respell names.key)
        (parameters.respell names.key))
      (OcLang.Declaration.openFunction node declarator parameters) state := by
  refine (declaredType_follows state none declarator).bind fun type after => ?_
  rw [Tree.declaredName?_respell, Tree.kind_respell, Tree.location_respell]
  cases declarator.declaredName? with
  | none => exact .reported _ rfl
  | some name =>
      rw [Option.map_some]
      refine .get ?_
      have sameCount : ((parameters.respell names.key).children.countP (·.declaredName?.isSome)) =
          parameters.children.countP (·.declaredName?.isSome) := by
        simp [List.countP_map, Function.comp_def]
      dsimp only
      rw [sameCount, Tree.text_respell, Tree.location_respell, AnalysisState.symbols_size_respell]
      refine (allocate_follows after ⟨type, .function _ _, name.location, 0⟩).bind
        fun id middle => ?_
      refine (recordSymbol_follows middle _ _).bind fun _ logged => ?_
      refine (declare_follows logged _ _ _).bind fun _ declared => ?_
      refine (enter_follows declared).bind fun _ inside => ?_
      rw [Tree.children_respell]
      refine (checkParameters_follows inside parameters.children).bind fun children checked => ?_
      refine (record_follows checked .separator).bind fun _ _ => .pure ?_
      rw [annotateName_respell]
      simp [Heading.respell]

theorem closeFunction_respell (node : Tree) (heading : Heading) (rest : List Tree) :
    closeFunction (node.respell names.key) (heading.respell names.key)
        (rest.map (Tree.respell names.key)) =
      (closeFunction node heading rest).respell names.key := by
  simp [closeFunction, Heading.respell]

end Declaration

/-! ## Statements -/

namespace Statement

open OcLang.Declaration (Heading)

theorem returned_follows (result : Option ValueType) (place : Location) (value : Tree) :
    Follows names id
      (returned names (result.map (ValueType.respell names.key)) place
        (value.respell names.key))
      (OcLang.Statement.returned result place value) state := by
  cases result with
  | none => exact report_follows _ _
  | some type => exact .ite (fun _ => report_follows _ _) fun _ => requireCompatible_follows _ _ _ _

theorem simple_follows (result : Option ValueType) (node : Tree) :
    Follows names (Tree.respell names.key)
      (simple names (result.map (ValueType.respell names.key)) (node.respell names.key))
      (OcLang.Statement.simple result node) state := by
  have wrong : ∀ kind, Follows names (Tree.respell names.key)
      (malformed kind node.location >>= fun _ => return node.respell names.key)
      (malformed kind node.location >>= fun _ => return node) state := fun kind =>
    .reported _ rfl
  have sameTest : (result.map (ValueType.respell names.key)).any (!·.flags.void) =
      result.any (!·.flags.void) := by
    cases result <;> rfl
  unfold simple OcLang.Statement.simple
  rw [Tree.kind_respell, Tree.children_respell, Tree.location_respell, sameTest]
  cases node.kind with
  | struct => exact Declaration.checkStruct_follows state node
  | «variable» => exact Declaration.checkVariable_follows state node
  | returnVoid =>
      exact .ite (fun _ => .reported _ rfl) fun _ => .pure rfl
  | returnValue =>
      cases node.children with
      | nil => exact wrong _
      | cons value rest =>
          refine (Expression.check_follows value state).bind fun value after => ?_
          exact (returned_follows after result node.location value).bind fun _ _ => .pure (by simp)
  | function | prototype | whileLoop | ifThen | ifElse => exact wrong _
  | field | type | arrayMark | declaredName | parameters => exact .pure rfl
  | _ => exact Expression.check_follows node state

theorem condition_follows (test : Tree) :
    Follows names (Tree.respell names.key) (condition names (test.respell names.key))
      (OcLang.Statement.condition test) state :=
  (Expression.check_follows test state).bind fun _ after =>
    (requireInteger_follows after _ _).bind fun _ _ => .pure rfl

theorem check_control (result : Option ValueType) {kind : Kind}
    (control : kind.isControl = true) (location : Location) (text : String) (note : Note)
    (test : Tree) (bodies : List Tree) :
    check names result ⟨kind, location, text, note, test :: bodies⟩ = (do
      let test ← condition names test
      let bodies ← checkAll names result bodies
      return ⟨kind, location, text, note, test :: bodies⟩) := by
  cases kind <;> simp [Kind.isControl] at control <;> simp only [check]

theorem check_simple (result : Option ValueType) {tree : Tree}
    (simple : tree.isCompound = false) :
    check names result tree = Statement.simple names result tree := by
  unfold Tree.isCompound at simple
  split at simple <;> simp_all [check]

def IsFollowed (names : Naming) (tree : Tree) : Prop :=
  ∀ result state, Follows names (Tree.respell names.key)
    (check names (Option.map (ValueType.respell names.key) result) (tree.respell names.key))
    (OcLang.Statement.check result tree) state

theorem checkAll_follows {trees : List Tree} (each : ∀ tree ∈ trees, IsFollowed names tree)
    (result : Option ValueType) (state : AnalysisState) :
    Follows names (List.map (Tree.respell names.key))
      (checkAll names (result.map (ValueType.respell names.key))
        (trees.map (Tree.respell names.key)))
      (OcLang.Statement.checkAll result trees) state := by
  induction trees generalizing state with
  | nil => exact .pure rfl
  | cons tree rest induction =>
      simp only [List.forall_mem_cons] at each
      exact (each.1 result state).bind fun _ after =>
        (induction each.2 after).bind fun _ _ => .pure rfl

theorem checkBody_follows (type : ValueType) (function : Tree) {bodies : List Tree}
    (each : ∀ body ∈ bodies, ∀ child ∈ body.children, IsFollowed names child)
    (state : AnalysisState) :
    Follows names (List.map (Tree.respell names.key))
      (checkBody names (type.respell names.key) (function.respell names.key)
        (bodies.map (Tree.respell names.key)))
      (OcLang.Statement.checkBody type function bodies) state := by
  rcases bodies with _ | ⟨⟨kind, location, text, note, children⟩, rest⟩
  · rw [List.map_nil, checkBody, OcLang.Statement.checkBody, Tree.kind_respell,
      Tree.location_respell]
    exact .reported _ rfl
  · simp only [List.forall_mem_cons] at each
    rw [List.map_cons, Tree.respell_mk, checkBody, OcLang.Statement.checkBody]
    exact (checkAll_follows each.1 (some type) state).bind fun _ _ => .pure (by simp)

theorem check_follows (tree : Tree) : IsFollowed names tree := by
  induction tree using Tree.statementInduction with
  | root location text note children induction =>
      intro result state
      rw [Tree.respell_mk, check, OcLang.Statement.check]
      exact (checkAll_follows induction result state).bind fun _ _ => .pure (by simp)
  | block location text note children induction =>
      intro result state
      rw [Tree.respell_mk, check, OcLang.Statement.check]
      refine (enter_follows state).bind fun _ inside => ?_
      refine (checkAll_follows induction result inside).bind fun _ last => ?_
      exact (leave_follows last).bind fun _ _ => .pure (by simp)
  | function location text note declarator parameters rest induction =>
      intro result state
      -- The rule goes into the node and also keeps it as a whole.
      have spelled := Tree.respell_mk names.key .function location text note
        (declarator :: parameters :: rest)
      rw [List.map_cons, List.map_cons] at spelled
      rw [spelled, check, OcLang.Statement.check, ← spelled]
      refine (Declaration.openFunction_follows state _ declarator parameters).bind
        fun heading inside => ?_
      cases heading with
      | none => exact .pure rfl
      | some heading =>
          refine (checkBody_follows heading.type _ induction inside).bind fun rest last => ?_
          refine (leave_follows last).bind fun _ left => ?_
          exact (record_follows left .separator).bind fun _ _ =>
            .pure (Declaration.closeFunction_respell _ heading rest)
  | prototype location text note declarator parameters rest =>
      intro result state
      have spelled := Tree.respell_mk names.key .prototype location text note
        (declarator :: parameters :: rest)
      rw [List.map_cons, List.map_cons] at spelled
      rw [spelled, check, OcLang.Statement.check, ← spelled]
      refine (Declaration.openFunction_follows state _ declarator parameters).bind
        fun heading inside => ?_
      cases heading with
      | none => exact .pure rfl
      | some heading =>
          exact (leave_follows inside).bind fun _ _ =>
            .pure (Declaration.closeFunction_respell _ heading rest)
  | control kind location text note test bodies control induction =>
      intro result state
      rw [Tree.respell_mk, List.map_cons, check_control _ control,
        OcLang.Statement.check_control control]
      refine (condition_follows state test).bind fun _ after => ?_
      exact (checkAll_follows induction result after).bind fun _ _ => .pure (by simp)
  | simple tree simple =>
      intro result state
      have simpleToo : (tree.respell names.key).isCompound = false :=
        (Tree.isCompound_mapNodes _ _ tree).trans simple
      rw [check_simple _ simpleToo, OcLang.Statement.check_simple simple]
      exact simple_follows state result tree

end Statement

/-- The analysis of keys leads to the keys of what the analysis of texts leads to. -/
theorem analyze_respell (names : Naming) (tree : Tree) :
    analyze names (tree.respell names.key) =
      ((OcLang.analyze tree).1.respell names.key, (OcLang.analyze tree).2.respell names.key) := by
  have numbered : Numbering.number (tree.respell names.key) =
      (Numbering.number tree).respell names.key :=
    Numbering.number_mapNodes (fun _ _ => rfl) tree
  have walked : Follows names (Tree.respell names.key)
      (Statement.check names none ((Numbering.number tree).respell names.key))
      (OcLang.Statement.check none (Numbering.number tree)) {} :=
    Statement.check_follows (Numbering.number tree) none {}
  have started : AnalysisState.respell names.key {} = {} := by
    simp [AnalysisState.respell, Scopes.respell, Table.respell]
  rw [Follows, started] at walked
  rw [analyze, numbered, walked]
  rfl

end Keyed

end OcLang
