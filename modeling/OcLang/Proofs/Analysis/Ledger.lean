import OcLang.Proofs.Analysis.Growth
import OcLang.Proofs.Analysis.StatementChecks

namespace OcLang

/-! # What an analysis stores

Which symbols an analysis stores, which tables it fills and what it logs depends on
declarations and scopes alone. All else that happens on the walk reports problems and
annotates nodes. The declarations and scopes of a tree can be listed without an analysis, and
making the listed changes one after the other stores the same. -/

structure TypedName where
  name : String
  place : Location
  type : ValueType
deriving DecidableEq, Repr

inductive Change where
  | enter
  | leave
  | separate
  | function (naming : TypedName) (isPrototype : Bool) (parameters : Nat)
  | parameter (naming : TypedName)
  | variable (naming : TypedName)
  | struct (name : String) (place : Location) (fields : List TypedName)
deriving DecidableEq, Repr

structure Ledger where
  symbols : Array Symbol := #[]
  scopes : Scopes := {}
  log : List LogEntry := []
deriving Repr

namespace Ledger

def replaced? (ledger : Ledger) (name : String) : Option Nat :=
  (ledger.scopes.bound? .innermost name).filter fun id =>
    (ledger.symbols[id]?.getD default).isVariable

def introduce (ledger : Ledger) (target : DeclarationTarget) (name : String) (symbol : Symbol) :
    Ledger where
  symbols := ledger.symbols.push symbol
  scopes := ledger.scopes.bind target name ledger.symbols.size
  log := ledger.log ++ [.symbol name ledger.symbols.size ledger.scopes.depth]

def localSymbol (ledger : Ledger) (role : Option Nat → SymbolRole) (naming : TypedName) :
    Symbol where
  type := naming.type
  role := role (ledger.replaced? naming.name)
  location := naming.place
  block := ledger.scopes.currentBlock

def functionSymbol (ledger : Ledger) (naming : TypedName) (isPrototype : Bool) (parameters : Nat) :
    Symbol where
  type := naming.type
  role := .function (List.range' (ledger.symbols.size + 1) parameters) isPrototype
  location := naming.place

def fieldSymbol (naming : TypedName) : Symbol where
  type := naming.type
  role := .field
  location := naming.place

def fieldTable (stored : Nat) (table : Table) : List TypedName → Table
  | [] => table
  | naming :: rest => fieldTable (stored + 1) (table.insert naming.name stored) rest

def storeFields (ledger : Ledger) (fields : List TypedName) : Ledger :=
  { ledger with symbols := ledger.symbols ++ (fields.map fieldSymbol).toArray }

@[simp] theorem storeFields_nil (ledger : Ledger) : ledger.storeFields [] = ledger := by
  simp [storeFields]

def storeStruct (ledger : Ledger) (name : String) (place : Location) (fields : List TypedName) :
    Ledger :=
  let stored := ledger.storeFields fields
  { stored with
    symbols :=
      stored.symbols.push (.ofStruct name place (fieldTable ledger.symbols.size {} fields))
    log := stored.log ++ [.struct name stored.symbols.size, .separator] }

def structSymbols (ledger : Ledger) (name : String) (place : Location) (fields : List TypedName) :
    List Symbol :=
  fields.map fieldSymbol ++ [.ofStruct name place (fieldTable ledger.symbols.size {} fields)]

theorem symbols_storeStruct (ledger : Ledger) (name : String) (place : Location)
    (fields : List TypedName) : (ledger.storeStruct name place fields).symbols =
      ledger.symbols ++ (ledger.structSymbols name place fields).toArray := by
  simp [storeStruct, storeFields, structSymbols]

theorem mem_structSymbols {ledger : Ledger} {name : String} {place : Location}
    {fields : List TypedName} {symbol : Symbol}
    (member : symbol ∈ ledger.structSymbols name place fields) :
    symbol.role = .field ∨ ∃ table, symbol.role = .struct table := by
  rcases List.mem_append.mp member with field | struct
  · obtain ⟨naming, _, rfl⟩ := List.mem_map.mp field
    exact .inl rfl
  · rw [List.mem_singleton.mp struct]
    exact .inr ⟨_, rfl⟩

def apply (ledger : Ledger) : Change → Ledger
  | .enter => { ledger with scopes := ledger.scopes.enter }
  | .leave =>
      match ledger.scopes.exit with
      | .ok scopes => { ledger with scopes }
      | .error _ => ledger
  | .separate => { ledger with log := ledger.log ++ [.separator] }
  | .function naming isPrototype parameters =>
      ledger.introduce .file naming.name (ledger.functionSymbol naming isPrototype parameters)
  | .parameter naming =>
      ledger.introduce .innermost naming.name (ledger.localSymbol .parameter naming)
  | .variable naming =>
      ledger.introduce .innermost naming.name (ledger.localSymbol .variable naming)
  | .struct name place fields => ledger.storeStruct name place fields

def run (ledger : Ledger) (changes : List Change) : Ledger :=
  changes.foldl apply ledger

@[simp] theorem run_nil (ledger : Ledger) : ledger.run [] = ledger := rfl

@[simp] theorem run_cons (ledger : Ledger) (change : Change) (changes : List Change) :
    ledger.run (change :: changes) = (ledger.apply change).run changes := rfl

@[simp] theorem run_append (ledger : Ledger) (changes more : List Change) :
    ledger.run (changes ++ more) = (ledger.run changes).run more :=
  List.foldl_append

end Ledger

/-! ## The changes that a tree makes -/

namespace Tree

def baseType (declarator : Tree) : ValueType :=
  match declarator.kind with
  | .type .void => { flags := { void := true } }
  | .type .int | .type .char | .type .bool => { flags := { int := true } }
  | .type .string => { flags := { string := true } }
  | .type .named => { flags := { struct := true }, structName := some declarator.text }
  | _ => {}

def statedType (declarator : Tree) : ValueType :=
  if declarator.hasArrayMark then
    { declarator.baseType with flags := { declarator.baseType.flags with array := true } }
  else declarator.baseType

def naming? (declarator : Tree) : Option TypedName :=
  declarator.declaredName?.map fun name =>
    { name := name.text, place := name.location, type := declarator.statedType }

theorem countP_declaredName? (declarators : List Tree) :
    declarators.countP (·.declaredName?.isSome) = (declarators.filterMap naming?).length := by
  simp [List.length_filterMap_eq_countP, naming?]

def headingChanges (naming : TypedName) (isPrototype : Bool) (parameters : Tree) : List Change :=
  let namings := parameters.children.filterMap naming?
  .function naming isPrototype namings.length :: .enter :: namings.map .parameter ++ [.separate]

/-- Without a name nothing is opened. -/
def openingChanges (node declarator parameters : Tree) : List Change :=
  match declarator.naming? with
  | none => []
  | some naming => headingChanges naming (node.kind == .prototype) parameters

def simpleChanges (node : Tree) : List Change :=
  match node.kind, node.children with
  | .struct, name :: declarators =>
      if name.kind = .type .named then
        [.struct name.text name.location (declarators.filterMap naming?)]
      else []
  | .variable, declarator :: _ => declarator.naming?.toList.map .variable
  | _, _ => []

mutual
def changes : Tree → List Change
  | ⟨.root, _, _, _, children⟩ => changesAll children
  | ⟨.block, _, _, _, children⟩ => .enter :: changesAll children ++ [.leave]
  | ⟨.function, _, _, _, declarator :: parameters :: rest⟩ =>
      match declarator.naming? with
      | none => []
      | some naming =>
          headingChanges naming false parameters ++ bodyChanges rest ++ [.leave, .separate]
  | ⟨.prototype, _, _, _, declarator :: parameters :: _⟩ =>
      match declarator.naming? with
      | none => []
      | some naming => headingChanges naming true parameters ++ [.leave]
  | ⟨.whileLoop, _, _, _, _ :: bodies⟩ => changesAll bodies
  | ⟨.ifThen, _, _, _, _ :: bodies⟩ => changesAll bodies
  | ⟨.ifElse, _, _, _, _ :: bodies⟩ => changesAll bodies
  | node => simpleChanges node

def bodyChanges : List Tree → List Change
  | [] => []
  | ⟨_, _, _, _, children⟩ :: _ => changesAll children

def changesAll : List Tree → List Change
  | [] => []
  | tree :: rest => tree.changes ++ changesAll rest
end

theorem changes_function {location : Location} {text : String} {note : Note}
    {declarator parameters : Tree} {rest : List Tree}
    (named : declarator.naming?.isSome = true) :
    changes ⟨.function, location, text, note, declarator :: parameters :: rest⟩ =
      openingChanges ⟨.function, location, text, note, declarator :: parameters :: rest⟩
        declarator parameters ++ bodyChanges rest ++ [.leave, .separate] := by
  rcases Option.isSome_iff_exists.mp named with ⟨naming, same⟩
  simp only [changes, openingChanges, same]
  rfl

theorem changes_prototype {location : Location} {text : String} {note : Note}
    {declarator parameters : Tree} {rest : List Tree}
    (named : declarator.naming?.isSome = true) :
    changes ⟨.prototype, location, text, note, declarator :: parameters :: rest⟩ =
      openingChanges ⟨.prototype, location, text, note, declarator :: parameters :: rest⟩
        declarator parameters ++ [.leave] := by
  rcases Option.isSome_iff_exists.mp named with ⟨naming, same⟩
  simp only [changes, openingChanges, same]
  rfl

theorem changes_simple {tree : Tree} (simple : tree.isCompound = false) :
    tree.changes = tree.simpleChanges := by
  unfold isCompound at simple
  split at simple <;> simp_all [changes]

theorem changes_control {kind : Kind} (control : kind.isControl = true) (location : Location)
    (text : String) (note : Note) (test : Tree) (bodies : List Tree) :
    changes ⟨kind, location, text, note, test :: bodies⟩ = changesAll bodies := by
  cases kind <;> simp [Kind.isControl] at control <;> simp [changes]

/-! Notes do not matter. -/

@[simp] theorem naming?_bare (tree : Tree) : tree.bare.naming? = tree.naming? := by
  simp [naming?, statedType, baseType, hasArrayMark, Function.comp_def]

@[simp] theorem naming?_comp_bare : naming? ∘ bare = naming? :=
  funext naming?_bare

@[simp] theorem headingChanges_bare (naming : TypedName) (isPrototype : Bool) (parameters : Tree) :
    headingChanges naming isPrototype parameters.bare =
      headingChanges naming isPrototype parameters := by
  simp [headingChanges]

theorem simpleChanges_bare (tree : Tree) : tree.bare.simpleChanges = tree.simpleChanges := by
  rcases tree with ⟨kind, location, text, note, children⟩
  cases kind <;> cases children <;> simp [bare_mk, simpleChanges]

private theorem changesAll_bare {trees : List Tree}
    (each : ∀ tree ∈ trees, tree.bare.changes = tree.changes) :
    changesAll (trees.map bare) = changesAll trees := by
  induction trees with
  | nil => rfl
  | cons tree rest induction => simp_all [changesAll]

theorem changes_bare (tree : Tree) : tree.bare.changes = tree.changes := by
  induction tree using Tree.statementInduction with
  | root location text note children induction =>
      simp [bare_mk, changes, changesAll_bare induction]
  | block location text note children induction =>
      simp [bare_mk, changes, changesAll_bare induction]
  | function location text note declarator parameters rest induction =>
      cases declared : declarator.naming? with
      | none => simp [bare_mk, changes, declared]
      | some naming =>
          rcases rest with _ | ⟨body, rest⟩
          · simp [bare_mk, changes, bodyChanges, declared]
          · have sameBody := changesAll_bare (induction body List.mem_cons_self)
            cases body
            simp_all [bare_mk, changes, bodyChanges]
  | prototype location text note declarator parameters rest =>
      simp [bare_mk, changes]
  | control kind location text note test bodies control induction =>
      simp [bare_mk, changes_control control, changesAll_bare induction]
  | simple tree simple =>
      rw [changes_simple simple, changes_simple (by simpa using simple), simpleChanges_bare]

end Tree

/-! ## Steps of an analysis -/

def AnalysisState.ledger (state : AnalysisState) : Ledger where
  symbols := state.symbols
  scopes := state.scopes
  log := state.log

namespace Check

variable {Value Result : Type} {ledger : Ledger}

def Books (step : Check Value) (ledger : Ledger) (holds : Value → Ledger → Prop) : Prop :=
  ∀ state : AnalysisState, state.ledger = ledger →
    Ends step state fun value after => holds value after.ledger

namespace Books

variable {holds : Value → Ledger → Prop}

theorem pure {value : Value} (here : holds value ledger) : Books (pure value) ledger holds := by
  rintro state rfl
  exact here

theorem bind {step : Check Value} {next : Value → Check Result} {holds : Result → Ledger → Prop}
    (first : Books step ledger fun value middle => Books (next value) middle holds) :
    Books (step >>= next) ledger holds := by
  intro state same
  exact first state same _ rfl

theorem imp {step : Check Value} {weaker : Value → Ledger → Prop}
    (strong : Books step ledger holds)
    (implies : ∀ value after, holds value after → weaker value after) :
    Books step ledger weaker :=
  fun state same => implies _ _ (strong state same)

theorem get {next : AnalysisState → Check Value}
    (rest : ∀ state, state.ledger = ledger → Books (next state) ledger holds) :
    Books (MonadState.get >>= next) ledger holds :=
  fun state same => rest state same state same

theorem modify {change : AnalysisState → AnalysisState} {holds : Unit → Ledger → Prop}
    {after : Ledger} (changed : ∀ state : AnalysisState, state.ledger = ledger →
      (change state).ledger = after) (here : holds () after) :
    Books (modify change) ledger holds := by
  intro state same
  rw [← changed state same] at here
  exact here

theorem of_onlyReports {step : Check Value} (reports : OnlyReports step)
    (here : ∀ value, holds value ledger) : Books step ledger holds := by
  rintro state rfl
  obtain ⟨problems, after⟩ := reports state
  rw [Ends, after]
  exact here _

end Books

theorem record_books {entry : LogEntry} {holds : Unit → Ledger → Prop}
    (here : holds () { ledger with log := ledger.log ++ [entry] }) :
    Books (record entry) ledger holds := by
  refine .modify ?_ here
  rintro state rfl
  rfl

theorem recordSymbol_books {name : String} {id : Nat} {holds : Unit → Ledger → Prop}
    (here : holds () { ledger with
      log := ledger.log ++ [.symbol name id ledger.scopes.depth] }) :
    Books (recordSymbol name id) ledger holds := by
  refine .get ?_
  rintro state rfl
  exact record_books here

theorem allocate_books {symbol : Symbol} {holds : Nat → Ledger → Prop}
    (here : holds ledger.symbols.size { ledger with symbols := ledger.symbols.push symbol }) :
    Books (allocate symbol) ledger holds := by
  rintro state rfl
  exact here

theorem enter_books {holds : Unit → Ledger → Prop} (here : holds () (ledger.apply .enter)) :
    Books enter ledger holds := by
  refine .modify ?_ here
  rintro state rfl
  rfl

theorem leave_books {holds : Unit → Ledger → Prop} (here : holds () (ledger.apply .leave)) :
    Books leave ledger holds := by
  refine .modify ?_ here
  rintro state rfl
  cases left : state.scopes.exit <;>
    simp [Ledger.apply, AnalysisState.ledger, left]

theorem replacedVariable_books {name : String} {holds : Option Nat → Ledger → Prop}
    (here : holds (ledger.replaced? name) ledger) :
    Books (replacedVariable name) ledger holds := by
  rintro state rfl
  exact here

theorem declare_books {target : DeclarationTarget} {name : String} {id : Nat}
    {holds : Unit → Ledger → Prop}
    (here : holds () { ledger with scopes := ledger.scopes.bind target name id }) :
    Books (declare target name id) ledger holds := by
  have warned (step : Check Unit) (reports : OnlyReports step) (state : AnalysisState)
      (same : state.ledger = { ledger with scopes := ledger.scopes.bind target name id }) :
      Ends step state fun value after => holds value after.ledger :=
    Books.of_onlyReports reports (fun _ => here) state same
  rintro state rfl
  refine Ends.bind (.get (.bind (.set (warned _ ?_ _ rfl))))
  split
  · exact .pure _
  · dsimp only
    split
    · exact .pure _
    · exact .report _

theorem declaredType_books {enclosing : Option String} {declarator : Tree}
    {holds : ValueType → Ledger → Prop} (here : holds declarator.statedType ledger) :
    Books (declaredType enclosing declarator) ledger holds := by
  have marking (base : ValueType) (same : declarator.baseType = base) (state : AnalysisState) :
      Reports (if declarator.hasArrayMark = true then
          pure { base with flags := { base.flags with array := true } }
        else pure base) state fun type _ => type = declarator.statedType := by
    subst same
    unfold Tree.statedType
    split <;> exact .pure rfl
  have stated (state : AnalysisState) :
      Reports (declaredType enclosing declarator) state fun type _ =>
        type = declarator.statedType := by
    unfold declaredType
    dsimp only
    split
    case h_6 kind =>
      apply Reports.bind
      apply Reports.get
      split
      · exact .bind (.pure (marking _ (by simp [Tree.baseType, kind]) _))
      · exact .bind (.report (.bind (.pure (marking _ (by simp [Tree.baseType, kind]) _))))
    case h_7 =>
      refine .bind (.report (.bind (.pure (marking _ ?_ _))))
      unfold Tree.baseType
      split <;> simp_all
    all_goals
      rename_i kind
      exact .bind (.pure (marking _ (by simp [Tree.baseType, kind]) _))
  rintro state rfl
  refine (stated state).ends ?_
  rintro _ problems rfl
  exact here

end Check

open Check

/-! ## Declarations -/

theorem Scopes.depth_bind (scopes : Scopes) (target : DeclarationTarget) (name : String)
    (id : Nat) : (scopes.bind target name id).depth = scopes.depth := by
  rcases scopes with ⟨globals, _ | ⟨scope, outer⟩, opened⟩ <;> cases target <;> rfl

namespace Declaration

variable {ledger : Ledger}

theorem checkField_books {structName : String} {table : Table} {declarator : Tree} :
    Books (checkField structName table declarator) ledger fun result after =>
      result.1 = Ledger.fieldTable ledger.symbols.size table declarator.naming?.toList ∧
        after = ledger.storeFields declarator.naming?.toList := by
  apply Books.bind
  apply declaredType_books
  cases declared : declarator.declaredName? with
  | none =>
      simp only [Tree.naming?, declared]
      exact .bind (.of_onlyReports (.report _) fun _ => .pure ⟨rfl, ledger.storeFields_nil.symm⟩)
  | some name =>
      simp only [Tree.naming?, declared]
      apply Books.bind
      apply allocate_books
      have stored : ({ ledger with symbols := ledger.symbols.push (Ledger.fieldSymbol
          ⟨name.text, name.location, declarator.statedType⟩) } : Ledger) =
            ledger.storeFields [⟨name.text, name.location, declarator.statedType⟩] := by
        simp [Ledger.storeFields]
      cases table.find? name.text with
      | none => exact .bind (.pure (.pure ⟨rfl, stored⟩))
      | some previous =>
          exact .bind (.of_onlyReports (.symbol _) fun _ =>
            .bind (.of_onlyReports (.report _) fun _ => .pure ⟨rfl, stored⟩))

theorem checkFields_books {structName : String} {table : Table} {declarators : List Tree} :
    Books (checkFields structName table declarators) ledger fun result after =>
      result.1 = Ledger.fieldTable ledger.symbols.size table (declarators.filterMap Tree.naming?) ∧
        after = ledger.storeFields (declarators.filterMap Tree.naming?) := by
  induction declarators generalizing table ledger with
  | nil => exact .pure ⟨rfl, ledger.storeFields_nil.symm⟩
  | cons declarator rest induction =>
      refine .bind (checkField_books.imp ?_)
      rintro ⟨first, annotated⟩ middle ⟨rfl, rfl⟩
      refine .bind (induction.imp ?_)
      rintro ⟨last, others⟩ after ⟨rfl, rfl⟩
      refine .pure ?_
      cases named : declarator.naming? <;>
        simp [named, Ledger.fieldTable, Ledger.storeFields]

theorem registerStruct_books {name : String} {place : Location} {id : Nat}
    {holds : Unit → Ledger → Prop}
    (here : holds () { ledger with log := ledger.log ++ [.struct name id, .separator] }) :
    Books (registerStruct name place id) ledger holds := by
  have logged : Books (do record (.struct name id); record .separator) ledger holds :=
    .bind (record_books (record_books (by simpa using here)))
  rintro state rfl
  refine Ends.bind (.get (.bind (.set ?_)))
  cases state.structs.find? name with
  | none => exact logged _ rfl
  | some previous => exact Books.bind (.of_onlyReports (.report _) fun _ => logged) _ rfl

theorem checkStruct_books {node : Tree} (isStruct : node.kind = .struct) :
    Books (checkStruct node) ledger fun _ after => after = ledger.run node.simpleChanges := by
  rcases node with ⟨kind, location, text, note, children⟩
  simp only at isStruct
  subst isStruct
  unfold checkStruct
  rcases children with _ | ⟨name, declarators⟩
  · exact .of_onlyReports (.bind (.report _) fun _ => .pure _) fun _ => rfl
  · by_cases named : name.kind = .type .named
    · simp only [named, bne_self_eq_false, Bool.false_eq_true, if_false, Tree.simpleChanges,
        if_true]
      refine .bind (checkFields_books.imp ?_)
      rintro ⟨table, annotated⟩ middle ⟨rfl, rfl⟩
      apply Books.bind
      apply allocate_books
      apply Books.bind
      apply registerStruct_books
      exact .pure rfl
    · simp only [bne_iff_ne, ne_eq, named, not_false_eq_true, if_true, Tree.simpleChanges, if_false]
      exact .of_onlyReports (.bind (.report _) fun _ => .pure _) fun _ => rfl

/-- A new name is logged before or after it is bound. -/
theorem introduced_books {target : DeclarationTarget} {name : String} {symbol : Symbol}
    {Value : Type} {next : Check Value} {holds : Value → Ledger → Prop}
    (rest : Books next (ledger.introduce target name symbol) holds) :
    Books (do
      declare target name ledger.symbols.size
      recordSymbol name ledger.symbols.size
      next) { ledger with symbols := ledger.symbols.push symbol } holds := by
  apply Books.bind
  apply declare_books
  apply Books.bind
  apply recordSymbol_books
  rw [Scopes.depth_bind]
  exact rest

theorem checkVariable_books {node : Tree} (isVariable : node.kind = .variable) :
    Books (checkVariable node) ledger fun _ after => after = ledger.run node.simpleChanges := by
  rcases node with ⟨kind, location, text, note, children⟩
  simp only at isVariable
  subst isVariable
  unfold checkVariable
  rcases children with _ | ⟨declarator, values⟩
  · exact .of_onlyReports (.malformed _ _ _) fun _ => rfl
  · apply Books.bind
    apply declaredType_books
    cases declared : declarator.declaredName? with
    | none =>
        simp only [Tree.simpleChanges, Tree.naming?, declared]
        exact .of_onlyReports (.malformed _ _ _) fun _ => rfl
    | some name =>
        simp only [Tree.simpleChanges, Tree.naming?, declared]
        apply Books.bind
        apply replacedVariable_books
        apply Books.get
        rintro state rfl
        apply Books.bind
        apply allocate_books
        rcases values with _ | ⟨value, rest⟩
        · exact .bind (.pure (introduced_books (.pure rfl)))
        · apply Books.bind
          apply Books.of_onlyReports (Expression.check_onlyReports value)
          intro value
          apply Books.bind
          apply Books.of_onlyReports (requireCompatible_onlyReports _ _ _)
          intro _
          exact .bind (.pure (introduced_books (.pure rfl)))

theorem checkParameter_books {declarator : Tree} :
    Books (checkParameter declarator) ledger fun _ after =>
      after = ledger.run (declarator.naming?.toList.map .parameter) := by
  apply Books.bind
  apply declaredType_books
  cases declared : declarator.declaredName? with
  | none =>
      simp only [Tree.naming?, declared]
      exact .of_onlyReports (.malformed _ _ _) fun _ => rfl
  | some name =>
      simp only [Tree.naming?, declared]
      apply Books.bind
      apply replacedVariable_books
      apply Books.get
      rintro state rfl
      apply Books.bind
      apply allocate_books
      exact introduced_books (.pure rfl)

theorem checkParameters_books {declarators : List Tree} :
    Books (checkParameters declarators) ledger fun _ after =>
      after = ledger.run ((declarators.filterMap Tree.naming?).map .parameter) := by
  induction declarators generalizing ledger with
  | nil => exact .pure rfl
  | cons declarator rest induction =>
      refine .bind (checkParameter_books.imp ?_)
      rintro _ middle rfl
      refine .bind (induction.imp ?_)
      rintro _ after rfl
      refine .pure ?_
      cases named : declarator.naming? <;> simp [named]

/-- A function without a name is left alone. -/
theorem openFunction_books {node declarator parameters : Tree}
    {holds : Option Heading → Ledger → Prop}
    (unnamed : declarator.naming? = none → holds none ledger)
    (opened : ∀ naming heading, declarator.naming? = some naming → holds (some heading)
      (ledger.run (Tree.headingChanges naming (node.kind == .prototype) parameters))) :
    Books (openFunction node declarator parameters) ledger holds := by
  apply Books.bind
  apply declaredType_books
  cases declared : declarator.declaredName? with
  | none =>
      have nameless : declarator.naming? = none := by simp [Tree.naming?, declared]
      exact .bind (.of_onlyReports (.report _) fun _ => .pure (unnamed nameless))
  | some name =>
      dsimp only
      rw [Tree.countP_declaredName?]
      apply Books.get
      rintro state rfl
      apply Books.bind
      apply allocate_books
      apply Books.bind
      apply recordSymbol_books
      apply Books.bind
      apply declare_books
      apply Books.bind
      apply enter_books
      refine .bind (checkParameters_books.imp ?_)
      rintro _ after rfl
      apply Books.bind
      apply record_books
      have begun := fun heading => opened _ heading (by simp only [Tree.naming?, declared]; rfl)
      simp only [Tree.headingChanges, List.cons_append, Ledger.run_cons, Ledger.run_append] at begun
      exact .pure (begun _)

end Declaration

/-! ## Statements -/

namespace Statement

variable {ledger : Ledger}

theorem simple_books {result : Option ValueType} {node : Tree} (simple : node.isCompound = false) :
    Books (Statement.simple result node) ledger fun _ after =>
      after = ledger.run node.simpleChanges := by
  have nothing {step : Check Tree} (reports : OnlyReports step) (none : node.simpleChanges = []) :
      Books step ledger fun _ after => after = ledger.run node.simpleChanges := by
    rw [none]
    exact .of_onlyReports reports fun _ => rfl
  have ofExpression := Expression.check_onlyReports node
  rcases node with ⟨kind, location, text, note, children⟩
  cases kind with
  | struct => exact Declaration.checkStruct_books rfl
  | «variable» => exact Declaration.checkVariable_books rfl
  | returnVoid =>
      refine nothing ?_ rfl
      unfold Statement.simple
      dsimp only
      split
      · exact .bind (.report _) fun _ => .pure _
      · exact .pure _
  | returnValue =>
      refine nothing ?_ rfl
      rcases children with _ | ⟨value, rest⟩
      · exact .malformed _ _ _
      · exact .bind (Expression.check_onlyReports _) fun _ =>
          .bind (.of_reports (returned_reports _ _ _)) fun _ => .pure _
  | root | block => simp [Tree.isCompound] at simple
  | function | prototype | whileLoop | ifThen | ifElse => exact nothing (.malformed _ _ _) rfl
  | field | type | arrayMark | declaredName | parameters => exact nothing (.pure _) rfl
  | _ => exact nothing ofExpression rfl

theorem openFunction_changes (node declarator parameters : Tree) :
    Books (Declaration.openFunction node declarator parameters) ledger fun opened after =>
      opened.isSome = declarator.naming?.isSome ∧
        after = ledger.run (node.openingChanges declarator parameters) :=
  Declaration.openFunction_books (fun unnamed => by simp [Tree.openingChanges, unnamed])
    fun naming heading named => by simp [Tree.openingChanges, named]

theorem leave_changes : Books leave ledger fun _ after => after = ledger.run [.leave] :=
  leave_books rfl

theorem close_changes : Books (do leave; record .separator) ledger fun _ after =>
    after = ledger.run [.leave, .separate] :=
  .bind (leave_books (record_books rfl))

/-- Checking a statement stores what its changes say. -/
theorem isCheckLaw_books : IsCheckLaw (fun _ => True)
    (fun _ state tree _ after => after.ledger = state.ledger.run tree.changes)
    (fun _ state trees _ after => after.ledger = state.ledger.run (Tree.changesAll trees))
    (fun state node declarator parameters opened inside =>
      opened.isSome = declarator.naming?.isSome ∧
        inside.ledger = state.ledger.run (node.openingChanges declarator parameters))
    (fun state _ _ after => after.ledger = state.ledger) (fun _ _ _ => True) where
  child _ _ := trivial
  checked _ _ _ := trivial
  checkedAll _ _ _ := trivial
  nil _ _ := rfl
  cons same _ sameRest _ := by rw [sameRest, same, Tree.changesAll, Ledger.run_append]
  root _ same := same
  block {_ state middle _ _ _ _ _} _ same := by
    apply (leave_changes middle rfl).imp
    intro _ after left
    rw [left, same, ← Ledger.run_append]
    rfl
  opened {state _ _ _ _ declarator parameters _} _ _ :=
    openFunction_changes _ declarator parameters state rfl
  nameless {_ _ _ _ _ _ _ declarator _ _} heading _ opening := by
    have unnamed : declarator.naming? = none := by simpa using opening.1.symm
    rcases heading with rfl | rfl <;>
      simp [opening.2, Tree.changes, Tree.openingChanges, unnamed]
  bodiless {_ _ inside place _ _ _ _ _} _ opening := by
    apply Ends.bind
    apply Ends.modify
    apply (close_changes _ rfl).imp
    intro _ after closed
    rw [closed, Tree.changes_function opening.1.symm, Ledger.run_append, Ledger.run_append,
      ← opening.2]
    rfl
  function {_ _ _ middle _ _ _ _ _ _ _ _ _ _ _ _ _} _ _ opening same _ := by
    apply (close_changes middle rfl).imp
    intro _ after closed
    rw [closed, same, opening.2, Tree.changes_function opening.1.symm, Ledger.run_append,
      Ledger.run_append]
    rfl
  prototype {_ _ inside _ _ _ _ _ _ _} _ opening := by
    apply (leave_changes inside rfl).imp
    intro _ after left
    rw [left, opening.2, Tree.changes_prototype opening.1.symm, Ledger.run_append]
  condition {state test} _ := by
    rcases condition_onlyReports test state with ⟨problems, after⟩
    rw [Ends, after]
    rfl
  control control _ tested same _ := by
    rw [same, tested, Tree.changes_control control]
  simple _ simple := by
    rw [Tree.changes_simple simple]
    exact simple_books simple _ rfl

theorem check_books (tree : Tree) (result : Option ValueType) (ledger : Ledger) :
    Books (check result tree) ledger fun _ after => after = ledger.run tree.changes := by
  rintro state rfl
  exact isCheckLaw_books.statement trivial result state

end Statement

theorem analyze_books (tree : Tree) :
    let ledger := ({} : Ledger).run tree.changes
    (analyze tree).2.symbols = ledger.symbols ∧
      (analyze tree).2.globals = ledger.scopes.globals ∧ (analyze tree).2.log = ledger.log := by
  have same : (Numbering.number tree).changes = tree.changes := by
    rw [← Tree.changes_bare, Numbering.bare_number, Tree.changes_bare]
  have booked := Statement.check_books (Numbering.number tree) none {} {} rfl
  rw [same] at booked
  exact ⟨congrArg (·.symbols) booked, congrArg (·.scopes.globals) booked,
    congrArg (·.log) booked⟩

end OcLang
