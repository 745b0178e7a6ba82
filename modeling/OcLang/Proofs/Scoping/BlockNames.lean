import OcLang.Proofs.Analysis.Arrangement
import OcLang.Proofs.Analysis.Repetition
import OcLang.Proofs.Scoping.Blocks
import OcLang.Proofs.Scoping.Names
import OcLang.Proofs.Scoping.Resolution
import OcLang.Proofs.Scoping.Symbols

namespace OcLang

/-! # The scopes of names

A variable is stored with the number of the scope in which it is declared. Its name shows the
same number. -/

namespace Lexical

def ShowScopes (events : List Event) : Prop :=
  ∀ place role name, .declaration place role name ∈ events → role.isVariable = true →
    name.note.block = place.innermost

theorem showScopes_append {events more : List Event} :
    ShowScopes (events ++ more) ↔ ShowScopes events ∧ ShowScopes more := by
  constructor
  · intro all
    exact ⟨fun place role name member => all place role name (List.mem_append_left _ member),
      fun place role name member => all place role name (List.mem_append_right _ member)⟩
  · rintro ⟨first, others⟩ place role name member
    exact (List.mem_append.mp member).elim (first place role name) (others place role name)

theorem showScopes_uses (context : Context) (tree : Tree) : ShowScopes (uses context tree) :=
  fun _ _ _ member => absurd member not_declared_in_uses

theorem showScopes_heading {context : Context} {name parameters : Tree}
    (shows : parameters.ShowsBlock (context.opened + 1)) :
    ShowScopes (headingEvents context name parameters) := by
  intro place role declared member isVariable
  rcases declares_heading member with ⟨isFunction, _⟩ | ⟨inside, declares⟩
  · simp [isFunction, Role.isVariable] at isVariable
  · rw [inside]
    exact shows declared (mem_preorder_of_child_declares declares)

theorem showScopes_simple {context : Context} {tree : Tree}
    (shows : tree.ShowsBlock context.innermost) : ShowScopes (simpleEvents context tree) := by
  intro place role name member _
  obtain ⟨rfl, declares⟩ := declares_simple member
  exact shows name (mem_preorder_of_child_declares declares)

theorem opened_heading (context : Context) (name parameters : Tree) :
    (context.heading name parameters).opened = context.opened + 1 :=
  opened_declareParameters _ _

theorem opened_afterSimple (context : Context) (tree : Tree) :
    (afterSimple context tree).opened = context.opened := by
  unfold afterSimple
  split
  · unfold Context.storeStruct
    split
    · rfl
    · split <;> rfl
  · split <;> rfl
  · rfl

structure NamesShow (events : List Event) (behind : Context) (opened : Nat) : Prop where
  opened : behind.opened = opened
  names : ShowScopes events

end Lexical

open Lexical

namespace Numbering

theorem openScope_run (opened : Nat) : openScope.run opened = (opened + 1, opened + 1) := rfl

theorem exists_declaredName?_place (scope : Option Nat) {tree name : Tree}
    (declared : tree.declaredName? = some name) :
    ∃ placed, (place scope tree).declaredName? = some placed := by
  rw [← Option.isSome_iff_exists, ← Option.isNone_eq_false_iff, declaredName?_place, declared]
  rfl

theorem statements_names {trees : List Tree}
    (each : ∀ tree ∈ trees, ∀ scope (context : Context), context.innermost = scope.getD 0 →
      Ends (statement scope tree) context.opened fun numbered after =>
        NamesShow (events context numbered) (Lexical.after context numbered) after)
    {scope : Option Nat} {context : Context} (here : context.innermost = scope.getD 0) :
    Ends (statements scope trees) context.opened fun numbered after =>
      NamesShow (eventsAll context numbered) (afterAll context numbered) after := by
  induction trees generalizing context with
  | nil => exact .pure ⟨rfl, by simp [ShowScopes, eventsAll]⟩
  | cons tree rest induction =>
      rw [List.forall_mem_cons] at each
      refine .bind ((each.1 scope context here).imp ?_)
      rintro first middle ⟨between, names⟩
      subst between
      have inside : (Lexical.after context first).innermost = scope.getD 0 := by
        rw [Context.innermost, enclosing_after]
        exact here
      refine .bind ((induction each.2 inside).imp ?_)
      rintro others after ⟨behind, more⟩
      exact .pure ⟨behind, showScopes_append.mpr ⟨names, more⟩⟩

theorem statement_names (tree : Tree) (shaped : tree.IsShaped) (unplaced : tree.ShowsBlock 0)
    (scope : Option Nat) (context : Context) (here : context.innermost = scope.getD 0) :
    Ends (statement scope tree) context.opened fun numbered after =>
      NamesShow (events context numbered) (Lexical.after context numbered) after := by
  induction tree using Tree.statementInduction generalizing scope context with
  | root location text note children induction =>
      rw [statement]
      refine .bind ((statements_names (fun child member => induction child member
        (shaped.child member) (unplaced.child member)) here).imp ?_)
      rintro numbered after ⟨behind, names⟩
      exact .pure ⟨behind, names⟩
  | block location text note children induction =>
      rw [statement]
      have entered : context.enter.innermost = (some (context.opened + 1)).getD 0 := rfl
      refine .bind (.run (.bind ((statements_names (fun child member => induction child member
        (shaped.child member) (unplaced.child member)) entered).imp ?_)))
      rintro numbered after ⟨behind, names⟩
      exact .pure ⟨behind, names⟩
  | function location text note declarator parameters rest induction =>
      obtain ⟨_, _, place, word, bodyNote, children, name, same, _, declared, _⟩ := shaped.function
      cases same
      rw [statement, declared]
      simp only [Option.isNone_some, Bool.false_eq_true, if_false]
      obtain ⟨placed, isPlaced⟩ := exists_declaredName?_place scope declared
      -- The parameters show the scope that the function opens, its name the one around it.
      let heading := context.heading placed (parameters.stamp (context.opened + 1))
      have body : Tree.IsShaped ⟨.block, place, word, bodyNote, children⟩ :=
        shaped.child (by simp)
      have unplacedBody : Tree.ShowsBlock ⟨.block, place, word, bodyNote, children⟩ 0 :=
        unplaced.child (by simp)
      have inside : heading.innermost = (some (context.opened + 1)).getD 0 := by
        simp [heading, Context.innermost]
      have begun := statements_names (fun child member => induction _ List.mem_cons_self child
        member (body.child member) (unplacedBody.child member)) inside
      rw [opened_heading] at begun
      refine .bind_of_run (openScope_run _) (.bind (.bind (begun.imp ?_)))
      rintro numbered after ⟨behind, names⟩
      refine .pure (.pure ⟨?_, ?_⟩)
      · simpa [Lexical.after, isPlaced, afterBody, Context.close] using behind
      · simp only [events, isPlaced, bodyEvents]
        exact showScopes_append.mpr ⟨showScopes_heading (Tree.showsBlock_stamp _ _), names⟩
  | prototype location text note declarator parameters rest =>
      obtain ⟨_, _, name, same, _, declared, _⟩ := shaped.prototype
      cases same
      rw [statement, heading, declared]
      simp only [Option.isNone_some, Bool.false_eq_true, if_false]
      obtain ⟨placed, isPlaced⟩ := exists_declaredName?_place scope declared
      refine .bind_of_run (openScope_run _) (.pure ⟨?_, ?_⟩)
      · simpa [Lexical.after, isPlaced, Context.close] using opened_heading context placed _
      · simp only [events, isPlaced]
        exact showScopes_heading (Tree.showsBlock_stamp _ _)
  | control kind location text note test bodies control induction =>
      rw [statement_control control]
      refine .bind ((statements_names (fun body member => induction body member
        (shaped.child (List.mem_cons_of_mem _ member))
        (unplaced.child (List.mem_cons_of_mem _ member))) here).imp ?_)
      rintro numbered after ⟨behind, names⟩
      refine .pure ?_
      rw [events_control _ control, after_control _ control]
      exact ⟨behind, showScopes_append.mpr ⟨showScopes_uses _ _, names⟩⟩
  | simple tree simple =>
      rw [statement_simple simple]
      have same : (Numbering.place scope tree).isCompound = false := by
        have bare : (Numbering.place scope tree).bare = tree.bare :=
          mapNotes_place (fun _ _ => rfl) scope tree
        rw [← Tree.isCompound_bare, bare, Tree.isCompound_bare, simple]
      have shows := unplaced.place scope
      rw [← here] at shows
      refine .pure ?_
      rw [events_simple _ same, after_simple _ same]
      exact ⟨opened_afterSimple _ _, showScopes_simple shows⟩

end Numbering

/-! ## The variables that are stored -/

structure Ledger.IsDeclared (ledger : Ledger) (context : Context) : Prop where
  stored : ledger.symbols.size = context.stored
  known : ∀ (id : Nat) symbol, ledger.symbols[id]? = some symbol → symbol.isVariable = true →
    ∃ declaration ∈ context.declared, declaration.symbol = id ∧ declaration.isVariable = true

namespace Ledger.IsDeclared

variable {ledger : Ledger} {context : Context}

theorem start : IsDeclared {} {} :=
  ⟨rfl, by simp⟩

theorem congr (isDeclared : ledger.IsDeclared context) {other : Ledger} {place : Context}
    (symbols : other.symbols = ledger.symbols) (declared : place.declared = context.declared)
    (stored : place.stored = context.stored) : other.IsDeclared place := by
  constructor
  · rw [symbols, stored, isDeclared.stored]
  · rw [symbols, declared]
    exact isDeclared.known

theorem introduce (isDeclared : ledger.IsDeclared context) (target : DeclarationTarget)
    {symbol : Symbol} {role : Role} (same : symbol.isVariable = role.isVariable)
    (word : String) (name : Tree) :
    (ledger.introduce target word symbol).IsDeclared (context.declare role name) := by
  constructor
  · simp [Ledger.introduce, Context.declare, isDeclared.stored]
  · intro id other stored isVariable
    simp only [Ledger.introduce, Array.getElem?_push] at stored
    split at stored <;> rename_i position
    · obtain rfl := Option.some_inj.mp stored
      refine ⟨context.declaration role name, List.mem_cons_self, ?_, same.symm.trans isVariable⟩
      rw [position, isDeclared.stored]
      rfl
    · obtain ⟨declaration, member, found⟩ := isDeclared.known id other stored isVariable
      exact ⟨declaration, List.mem_cons_of_mem _ member, found⟩

theorem storeStruct (isDeclared : ledger.IsDeclared context) (name : String) (place : Location)
    (fields : List TypedName) :
    (ledger.storeStruct name place fields).IsDeclared
      { context with stored := context.stored + fields.length + 1 } := by
  have symbols := ledger.symbols_storeStruct name place fields
  constructor
  · rw [symbols, ← isDeclared.stored]
    simp [Ledger.structSymbols, Nat.add_assoc]
  · intro id symbol stored isVariable
    rw [symbols] at stored
    rcases stored_append stored with old | ⟨_, new⟩
    · exact isDeclared.known id symbol old isVariable
    · rcases Ledger.mem_structSymbols (List.mem_of_getElem? new) with field | ⟨table, struct⟩ <;>
        simp_all [Symbol.isVariable, SymbolRole.roles]

theorem declareParameters (isDeclared : ledger.IsDeclared context) (declarators : List Tree) :
    (ledger.run ((declarators.filterMap Tree.naming?).map .parameter)).IsDeclared
      (context.declareParameters declarators) := by
  induction declarators generalizing ledger context with
  | nil => exact isDeclared
  | cons declarator rest induction =>
      cases declared : declarator.declaredName? with
      | none => simpa [Tree.naming?, Context.declareParameters, declared] using induction isDeclared
      | some name =>
          simp only [Context.declareParameters, declared, Tree.naming?, List.filterMap_cons,
            Option.map_some, List.map_cons, Ledger.run_cons]
          exact induction (isDeclared.introduce .innermost rfl _ name)

theorem simple {node : Tree} (isDeclared : ledger.IsDeclared context) :
    (ledger.run node.simpleChanges).IsDeclared (afterSimple context node) := by
  rcases node with ⟨kind, location, text, note, children⟩
  cases kind with
  | struct =>
      rcases children with _ | ⟨name, declarators⟩
      · exact isDeclared
      · by_cases named : name.kind = .type .named
        · simp only [Tree.simpleChanges, afterSimple, Context.storeStruct, named, if_true,
            Tree.countP_declaredName?]
          exact isDeclared.storeStruct name.text name.location _
        · simpa [Tree.simpleChanges, afterSimple, Context.storeStruct, named] using isDeclared
  | «variable» =>
      rcases children with _ | ⟨declarator, values⟩
      · exact isDeclared
      · cases declared : declarator.declaredName? with
        | none => simpa [Tree.simpleChanges, afterSimple, Tree.naming?, declared] using isDeclared
        | some name =>
            simp only [Tree.simpleChanges, afterSimple, Tree.naming?, declared]
            exact isDeclared.introduce .innermost rfl _ name
  | _ => exact isDeclared

theorem heading (isDeclared : ledger.IsDeclared context) (naming : TypedName) (isPrototype : Bool)
    (name parameters : Tree) :
    (ledger.run (Tree.headingChanges naming isPrototype parameters)).IsDeclared
      (context.heading name parameters) := by
  have function (parameters : Nat) :
      (ledger.apply (.function naming isPrototype parameters)).IsDeclared
        (context.declare .function name) :=
    isDeclared.introduce .file rfl naming.name name
  have entered (parameters : Nat) :
      ((ledger.apply (.function naming isPrototype parameters)).apply .enter).IsDeclared
        (context.declare .function name).enter :=
    (function parameters).congr rfl rfl rfl
  simp only [Tree.headingChanges, List.cons_append, Ledger.run_cons, Ledger.run_append]
  exact ((entered _).declareParameters parameters.children).congr rfl rfl rfl

theorem leave (isDeclared : ledger.IsDeclared context) (outer : Context) :
    (ledger.apply .leave).IsDeclared (outer.close context) := by
  refine isDeclared.congr ?_ rfl rfl
  cases left : ledger.scopes.exit <;> simp [apply, left]

private theorem changesAll {trees : List Tree}
    (each : ∀ tree ∈ trees, ∀ {ledger : Ledger} {context : Context}, ledger.IsDeclared context →
      (ledger.run tree.changes).IsDeclared (Lexical.after context tree))
    (isDeclared : ledger.IsDeclared context) :
    (ledger.run (Tree.changesAll trees)).IsDeclared (afterAll context trees) := by
  induction trees generalizing ledger context with
  | nil => exact isDeclared
  | cons tree rest induction =>
      rw [List.forall_mem_cons] at each
      rw [Tree.changesAll, Ledger.run_append]
      exact induction each.2 (each.1 isDeclared)

theorem changes (tree : Tree) (isDeclared : ledger.IsDeclared context) :
    (ledger.run tree.changes).IsDeclared (Lexical.after context tree) := by
  induction tree using Tree.statementInduction generalizing ledger context with
  | root location text note children induction =>
      exact changesAll (fun child member {_ _} => induction child member) isDeclared
  | block location text note children induction =>
      simp only [Tree.changes, Ledger.run_append, Ledger.run_cons, List.cons_append]
      have entered : (ledger.apply .enter).IsDeclared context.enter := isDeclared.congr rfl rfl rfl
      exact (changesAll (fun child member {_ _} => induction child member) entered).leave context
  | function location text note declarator parameters rest induction =>
      cases declared : declarator.declaredName? with
      | none => simpa [Tree.changes, Lexical.after, Tree.naming?, declared] using isDeclared
      | some name =>
          obtain ⟨naming, named⟩ : ∃ naming, declarator.naming? = some naming := by
            simp [Tree.naming?, declared]
          have begun := isDeclared.heading naming false name parameters
          have body : ((ledger.run (Tree.headingChanges naming false parameters)).run
              (Tree.bodyChanges rest)).IsDeclared
                (afterBody (context.heading name parameters) rest) := by
            rcases rest with _ | ⟨⟨kind, place, word, bodyNote, children⟩, rest⟩
            · exact begun
            · exact changesAll
                (fun child member {_ _} => induction _ List.mem_cons_self child member) begun
          simp only [Tree.changes, Lexical.after, named, declared, Ledger.run_append]
          exact (body.leave context).congr rfl rfl rfl
  | prototype location text note declarator parameters rest =>
      cases declared : declarator.declaredName? with
      | none => simpa [Tree.changes, Lexical.after, Tree.naming?, declared] using isDeclared
      | some name =>
          obtain ⟨naming, named⟩ : ∃ naming, declarator.naming? = some naming := by
            simp [Tree.naming?, declared]
          simp only [Tree.changes, Lexical.after, named, declared, Ledger.run_append]
          exact (isDeclared.heading naming true name parameters).leave context
  | control kind location text note test bodies control induction =>
      rw [Tree.changes_control control, after_control _ control]
      exact changesAll (fun body member {_ _} => induction body member) isDeclared
  | simple tree simple =>
      rw [Tree.changes_simple simple, after_simple _ simple]
      exact isDeclared.simple

end Ledger.IsDeclared

/-! ## Whole trees -/

namespace Tree

def unplaced (tree : Tree) : Tree :=
  tree.mapNotes fun note => { note with block := 0 }

@[simp] theorem bare_unplaced (tree : Tree) : tree.unplaced.bare = tree.bare :=
  mapNotes_mapNotes _ _ tree

theorem showsBlock_unplaced (tree : Tree) : tree.unplaced.ShowsBlock 0 := by
  induction tree using Tree.induction with
  | node tree induction =>
      obtain ⟨kind, location, text, note, children⟩ := tree
      rw [unplaced, mapNotes_mk, showsBlock_mk]
      exact ⟨rfl, List.forall_mem_map.mpr induction⟩

end Tree

/-- The numbers of an annotated tree are those that it gets when all else is noted already. -/
theorem Numbering.number_unplaced {tree : Tree} (fresh : tree.IsFresh) :
    number (analyze tree).1.unplaced = (analyze tree).1 := by
  refine eq_of_views ?_ ?_
  · have blocks : (analyze tree).1.blocksOnly = (number tree).blocksOnly :=
      (Statement.check_repeats (number tree) none {}).1
    have nothing : (analyze tree).1.unplaced.blocksOnly = tree.blocksOnly := by
      have bare : (analyze tree).1.bare = tree.bare := (analyze_follows False tree False.elim).1
      have still : tree.bare.blocksOnly = tree.bare := Tree.mapNotes_mapNotes _ _ tree
      calc (analyze tree).1.unplaced.blocksOnly
          = (analyze tree).1.bare := Tree.mapNotes_mapNotes _ _ _
        _ = tree.bare := bare
        _ = tree.blocksOnly := by rw [← still, fresh]
    rw [← number_blocksOnly, nothing, number_blocksOnly, blocks]
  · exact (mapNotes_statement (fun _ _ => rfl) _ none 0).trans (Tree.mapNotes_mapNotes _ _ _)

def scopesOpened (tree : Tree) : Nat :=
  ((Statement.check none (Numbering.number tree)).run {}).2.scopes.opened

structure ShowsScopes (tree annotated : Tree) (symbols : Array Symbol) : Prop where
  same : annotated.bare = tree.bare
  /-- Blocks, functions and prototypes that the walk comes to as statements open scopes. -/
  openings : ∀ scope ∈ tree.openings, tree.HasAt scope
  ordered : Tree.InPreorder tree.openings
  opened : scopesOpened tree = tree.openings.length
  numbers : ∀ (index : Nat) scope, tree.openings[index]? = some scope →
    ∃ node, annotated.at? scope.entry = some node ∧ node.note.block = index + 1
  blocks : ∀ path node, annotated.at? path = some node →
    Lies tree.openings path 1 0 node.note.block
  names : ∀ context role name, .declaration context role name ∈ events {} annotated →
    role.isVariable = true → name ∈ annotated.preorder ∧
      ∃ id symbol, name.note.symbol = some id ∧ symbols[id]? = some symbol ∧
        symbol.isVariable = true ∧ symbol.block = name.note.block
  stored : ∀ (id : Nat) symbol, symbols[id]? = some symbol → symbol.isVariable = true →
    ∃ context role name, .declaration context role name ∈ events {} annotated ∧
      role.isVariable = true ∧ name.note.symbol = some id

theorem analyze_showsScopes {tree : Tree} (fresh : tree.IsFresh) (shaped : tree.IsShaped) :
    ShowsScopes tree (analyze tree).1 (analyze tree).2.symbols := by
  obtain ⟨same, follows⟩ := analyze_follows False tree False.elim
  let unplaced := (analyze tree).1.unplaced
  have bare : unplaced.bare = tree.bare := (Tree.bare_unplaced _).trans same
  have shows := Tree.showsBlock_unplaced (analyze tree).1
  have places := Numbering.statement_numbered unplaced (shaped.congr bare) shows none 0
  have names := Numbering.statement_names unplaced (shaped.congr bare) shows none {} rfl
  have numbered : ((Numbering.statement none unplaced).run 0).1 = (analyze tree).1 :=
    Numbering.number_unplaced fresh
  rw [Ends, numbered] at places names
  rw [Tree.openings_congr bare] at places
  have holds {context : Context} {role : Role} {name : Tree}
      (member : .declaration context role name ∈ events {} (analyze tree).1) :
      name.note.symbol = some context.stored ∧
        (context.declaration role name).RecordedIn (analyze tree).2.symbols :=
    follows.holds (.declaration context role name) member
  refine ⟨same, fun scope member => Tree.hasAt_of_mem_statements (List.mem_filter.mp member).1,
    tree.inPreorder_openings, ?opened, ?numbers, places.lies, ?names, ?stored⟩
  case opened =>
    have walked : scopesOpened tree = (after {} tree).opened := follows.agrees.opened
    have counted := names.opened
    rw [Statement.after_congr same, places.after, Nat.zero_add] at counted
    rw [walked, counted]
  case numbers =>
    intro index scope here
    have shapedHere : (analyze tree).1.IsShaped := shaped.congr same
    have openings : (analyze tree).1.openings = tree.openings := Tree.openings_congr same
    obtain ⟨node, found, _⟩ := Tree.exists_entry shapedHere
      (openings ▸ List.mem_of_getElem? here)
    refine ⟨node, found, ?_⟩
    rw [Nat.add_comm]
    exact (places.lies _ node found).unique tree.inPreorder_openings
      (Tree.lies_entry shaped here 1 0)
  case names =>
    intro context role name member isVariable
    obtain ⟨refers, symbol, stored, _, block, same, _⟩ := holds member
    refine ⟨mem_preorder_of_declaration _ member, context.stored, symbol, refers, stored,
      same.trans isVariable, ?_⟩
    rw [block, names.names context role name member isVariable]
    cases role with
    | function => contradiction
    | _ => rfl
  case stored =>
    intro id symbol stored isVariable
    rw [(analyze_books tree).1] at stored
    have declared := Ledger.IsDeclared.start.changes tree
    obtain ⟨declaration, known, rfl, declares⟩ := declared.known id symbol stored isVariable
    rw [← Statement.after_congr same] at known
    have traces := events_traces (analyze tree).1 {}
    rcases traces.declares_of_mem known with none | ⟨event, member, made⟩
    · contradiction
    · cases event with
      | declaration context role name =>
          obtain rfl := Option.some_inj.mp made
          exact ⟨context, role, name, member, declares, (holds member).1⟩
      | _ => contradiction

/-- A block with a block in it and another one in place of a value, and a function that holds
a function and a block. -/
def nestedScopes : String :=
  "[\"root\",[0,0,0],\"t\",[
    [\"block\",[0,1,0],\"\",[
      [\"block\",[0,2,2]],
      [\"vardecl\",[0,3,2],\"\",[
        [\"int\",[0,3,2],\"int\",[[\"declid\",[0,3,6],\"x\"]]],[\"block\",[0,3,10]]]]]],
    [\"function\",[0,4,0],\"\",[
      [\"void\",[0,4,0],\"void\",[[\"declid\",[0,4,5],\"f\"]]],
      [\"paramlist\",[0,4,6],\"\",[
        [\"int\",[0,4,7],\"int\",[[\"declid\",[0,4,11],\"a\"]]]]],
      [\"block\",[0,4,14],\"\",[
        [\"function\",[0,5,2],\"\",[
          [\"void\",[0,5,2],\"void\",[[\"declid\",[0,5,7],\"g\"]]],[\"paramlist\",[0,5,8]],
          [\"block\",[0,5,11]]]],
        [\"block\",[0,6,2]]]]]]]]"

set_option maxRecDepth 8192 in
theorem nestedScopes_shown : ∃ tree, Tree.load nestedScopes = .ok tree ∧ tree.IsFresh ∧
    tree.IsShaped ∧ ShowsScopes tree (analyze tree).1 (analyze tree).2.symbols ∧
      tree.openings.map (·.path) = [[0], [0, 0], [1], [1, 2, 0], [1, 2, 1]] ∧
      (analyze tree).1.preorder.map (·.note.block) =
        [0, 1, 2, 1, 1, 1, 1, 0, 0, 0, 3, 3, 3, 3, 3, 3, 3, 4, 4, 5] := by
  have shown : ((Tree.load nestedScopes).toOption.any fun tree =>
      decide (tree.openings.map (·.path) = [[0], [0, 0], [1], [1, 2, 0], [1, 2, 1]] ∧
        (analyze tree).1.preorder.map (·.note.block) =
          [0, 1, 2, 1, 1, 1, 1, 0, 0, 0, 3, 3, 3, 3, 3, 3, 3, 4, 4, 5])) = true := by
    rw [show nestedScopes = String.ofList _ from rfl, Tree.load_ofList]
    decide +kernel
  obtain ⟨tree, loaded, fresh, shaped, facts⟩ := Tree.exists_loaded shown
  exact ⟨tree, loaded, fresh, shaped, analyze_showsScopes fresh shaped, of_decide_eq_true facts⟩

end OcLang
