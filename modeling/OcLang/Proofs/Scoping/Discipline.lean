import Mathlib.Data.List.Induction
import Mathlib.Data.List.Infix
import OcLang.Scopes

namespace OcLang

/-! # The discipline of open scopes

What scopes answer depends on what was done with them before: on the blocks that
are still open, and on the names that were declared while each of them was the
innermost one. -/

namespace Table

def insertAll (table : Table) (bindings : List (String × Nat)) : Table :=
  bindings.foldl (fun table binding => table.insert binding.1 binding.2) table

@[simp] theorem insertAll_nil (table : Table) : table.insertAll [] = table := rfl

@[simp] theorem insertAll_cons (table : Table) (name : String) (symbol : Nat)
    (bindings : List (String × Nat)) :
    table.insertAll ((name, symbol) :: bindings) =
      (table.insert name symbol).insertAll bindings := rfl

@[simp] theorem insertAll_append (table : Table) (bindings more : List (String × Nat)) :
    table.insertAll (bindings ++ more) = (table.insertAll bindings).insertAll more :=
  List.foldl_append

def latest? (bindings : List (String × Nat)) (name : String) : Option Nat :=
  bindings.reverse.lookup name

theorem mem_of_latest? {bindings : List (String × Nat)} {name : String} {symbol : Nat}
    (latest : latest? bindings name = some symbol) : (name, symbol) ∈ bindings := by
  have found : (Table.mk bindings.reverse).find? name = some symbol := latest
  exact List.mem_reverse.mp (mem_entries_of_find? found)

theorem find?_insertAll (table : Table) (bindings : List (String × Nat)) (name : String) :
    (table.insertAll bindings).find? name = (latest? bindings name).or (table.find? name) := by
  induction bindings generalizing table with
  | nil => rfl
  | cons binding rest induction =>
      rcases binding with ⟨other, symbol⟩
      rw [insertAll_cons, induction, find?_insert, latest?, latest?, List.reverse_cons,
        List.lookup_append, List.lookup_cons, List.lookup_nil, Option.or_assoc]
      by_cases same : name = other
      · simp [same]
      · simp [same, beq_eq_false_iff_ne.mpr same]

@[simp] theorem find?_insertAll_empty (bindings : List (String × Nat)) (name : String) :
    (({} : Table).insertAll bindings).find? name = latest? bindings name := by
  rw [find?_insertAll]
  exact Option.or_none

end Table

namespace Scopes

open Table

/-! ## Runs -/

inductive Query where
  | find (name : String)
  | lookup (name : String) (place : Location)
  | lookupGlobal (name : String) (place : Location)
deriving DecidableEq, Repr

inductive Action where
  | enter
  | exit
  | declare (target : DeclarationTarget) (name : String) (symbol : Nat)
  | ask (query : Query)
deriving DecidableEq, Repr

inductive Answer where
  | opened (block : Nat)
  | closed
  | replaced (previous : Option Nat)
  | found (symbol : Option Nat)
  | resolved (result : Except Problem Nat)

def answer (scopes : Scopes) : Query → Answer
  | .find name => .found (scopes.find? name)
  | .lookup name place => .resolved (scopes.lookup name place)
  | .lookupGlobal name place => .resolved (scopes.lookupGlobal name place)

def act (scopes : Scopes) : Action → Except ScopeFault (Answer × Scopes)
  | .enter => .ok (.opened scopes.enter.currentBlock, scopes.enter)
  | .exit => scopes.exit.map fun outer => (.closed, outer)
  | .declare target name symbol =>
      .ok (.replaced (scopes.bound? target name), scopes.bind target name symbol)
  | .ask query => .ok (scopes.answer query, scopes)

def run : List Action → Scopes → Except ScopeFault (List Answer × Scopes)
  | [], scopes => .ok ([], scopes)
  | action :: rest, scopes => do
      let (answer, middle) ← scopes.act action
      let (answers, after) ← run rest middle
      return (answer :: answers, after)

def IsAllowed (actions : List Action) : Prop :=
  ∀ before, before <+: actions → before.count .exit ≤ before.count .enter

theorem isAllowed_iff_inits (actions : List Action) :
    IsAllowed actions ↔ ∀ before ∈ actions.inits, before.count .exit ≤ before.count .enter := by
  simp only [List.mem_inits, IsAllowed]

instance (actions : List Action) : Decidable (IsAllowed actions) :=
  decidable_of_iff _ (isAllowed_iff_inits actions).symm

def blocks (answers : List Answer) : List Nat :=
  answers.filterMap fun
    | .opened block => some block
    | _ => none

section

variable {action : Action} {actions more : List Action} {scopes middle after : Scopes}
variable {answer : Answer} {answers others : List Answer}

theorem run_cons (first : scopes.act action = .ok (answer, middle))
    (rest : run actions middle = .ok (answers, after)) :
    run (action :: actions) scopes = .ok (answer :: answers, after) := by
  simp [run, first, rest, Bind.bind, Except.bind, pure, Except.pure]

theorem of_run_cons (ran : run (action :: actions) scopes = .ok (answers, after)) :
    ∃ answer others middle, answers = answer :: others ∧
      scopes.act action = .ok (answer, middle) ∧ run actions middle = .ok (others, after) := by
  cases first : scopes.act action with
  | error fault => simp [run, first, Bind.bind, Except.bind] at ran
  | ok result =>
      cases rest : run actions result.2 with
      | error fault => simp [run, first, rest, Bind.bind, Except.bind] at ran
      | ok others =>
          simp only [run, first, rest, Bind.bind, Except.bind, pure, Except.pure, Except.ok.injEq,
            Prod.mk.injEq] at ran
          exact ⟨result.1, others.1, result.2, ran.1.symm, rfl, ran.2 ▸ rest⟩

theorem run_append (first : run actions scopes = .ok (answers, middle))
    (second : run more middle = .ok (others, after)) :
    run (actions ++ more) scopes = .ok (answers ++ others, after) := by
  induction actions generalizing scopes answers with
  | nil =>
      cases first
      exact second
  | cons action rest induction =>
      rcases of_run_cons first with ⟨answer, answers, between, rfl, stepped, ran⟩
      exact run_cons stepped (induction ran)

theorem length_of_run (ran : run actions scopes = .ok (answers, after)) :
    answers.length = actions.length := by
  induction actions generalizing scopes answers with
  | nil =>
      cases ran
      rfl
  | cons action rest induction =>
      rcases of_run_cons ran with ⟨answer, answers, middle, rfl, -, ran⟩
      rw [List.length_cons, List.length_cons, induction ran]

/-! ## Block numbers -/

theorem blocks_of_act (stepped : scopes.act action = .ok (answer, after)) :
    blocks [answer] = List.range' (scopes.opened + 1) ([action].count .enter) ∧
      after.opened = scopes.opened + [action].count .enter := by
  cases action with
  | enter =>
      cases stepped
      exact ⟨rfl, rfl⟩
  | exit =>
      cases inner : scopes.inner with
      | nil => simp [act, exit, inner, Except.map] at stepped
      | cons scope outer =>
          simp only [act, exit, inner, Except.map, Except.ok.injEq, Prod.mk.injEq] at stepped
          rcases stepped with ⟨rfl, rfl⟩
          exact ⟨rfl, rfl⟩
  | declare target name symbol =>
      cases stepped
      refine ⟨rfl, ?_⟩
      cases target <;> cases inner : scopes.inner <;> simp [bind, inner]
  | ask query =>
      cases stepped
      cases query <;> exact ⟨rfl, rfl⟩

theorem blocks_of_run (ran : run actions scopes = .ok (answers, after)) :
    blocks answers = List.range' (scopes.opened + 1) (actions.count .enter) := by
  induction actions generalizing scopes answers with
  | nil =>
      cases ran
      rfl
  | cons action rest induction =>
      rcases of_run_cons ran with ⟨answer, answers, middle, rfl, stepped, ran⟩
      have first := blocks_of_act stepped
      have split : blocks (answer :: answers) = blocks [answer] ++ blocks answers :=
        List.filterMap_append (l := [answer])
      rw [split, first.1, induction ran, first.2, Nat.add_right_comm, List.range'_append_1,
        ← List.count_append, List.singleton_append]

end

/-! ## Histories -/

inductive Segment where
  | nil
  | declare (target : DeclarationTarget) (name : String) (symbol : Nat) (rest : Segment)
  | ask (query : Query) (rest : Segment)
  | scope (inside rest : Segment)

namespace Segment

def actions : Segment → List Action
  | nil => []
  | declare target name symbol rest => .declare target name symbol :: rest.actions
  | ask query rest => .ask query :: rest.actions
  | scope inside rest => .enter :: inside.actions ++ .exit :: rest.actions

def bindings : Segment → List (String × Nat)
  | nil => []
  | declare .innermost name symbol rest => (name, symbol) :: rest.bindings
  | declare .file _ _ rest => rest.bindings
  | ask _ rest => rest.bindings
  | scope _ rest => rest.bindings

def fileBindings (outermost : Bool) : Segment → List (String × Nat)
  | nil => []
  | declare target name symbol rest =>
      if outermost ∨ target = .file then (name, symbol) :: rest.fileBindings outermost
      else rest.fileBindings outermost
  | ask _ rest => rest.fileBindings outermost
  | scope inside rest => inside.fileBindings false ++ rest.fileBindings outermost

def append : Segment → Segment → Segment
  | nil, more => more
  | declare target name symbol rest, more => declare target name symbol (rest.append more)
  | ask query rest, more => ask query (rest.append more)
  | scope inside rest, more => scope inside (rest.append more)

@[simp] theorem actions_append (segment more : Segment) :
    (segment.append more).actions = segment.actions ++ more.actions := by
  induction segment with
  | nil => rfl
  | declare target name symbol rest induction => simp [append, actions, induction]
  | ask query rest induction => simp [append, actions, induction]
  | scope inside rest _ induction => simp [append, actions, induction]

theorem count_actions (segment : Segment) :
    segment.actions.count .exit = segment.actions.count .enter := by
  induction segment with
  | nil => rfl
  | declare target name symbol rest induction => simpa [actions] using induction
  | ask query rest induction => simpa [actions] using induction
  | scope inside rest first second =>
      simp only [actions, List.cons_append, List.count_cons, List.count_append]
      simp [first, second]
      omega

/-- Inside a block only what is declared for the file gets there. -/
theorem declared_of_mem_fileBindings {segment : Segment} {name : String} {symbol : Nat}
    (member : (name, symbol) ∈ segment.fileBindings false) :
    .declare .file name symbol ∈ segment.actions := by
  induction segment with
  | nil => cases member
  | declare target other id rest induction => cases target <;> grind [fileBindings, actions]
  | ask query rest induction => grind [fileBindings, actions]
  | scope inside rest first second => grind [fileBindings, actions]

end Segment

inductive History where
  | file (segment : Segment)
  | opened (outer : History) (segment : Segment)

namespace History

def actions : History → List Action
  | file segment => segment.actions
  | opened outer segment => outer.actions ++ .enter :: segment.actions

def depth : History → Nat
  | file _ => 0
  | opened outer _ => outer.depth + 1

def fileBindings : History → List (String × Nat)
  | file segment => segment.fileBindings true
  | opened outer segment => outer.fileBindings ++ segment.fileBindings false

def local? (name : String) : History → Option Nat
  | file _ => none
  | opened outer segment => (latest? segment.bindings name).or (outer.local? name)

def find? (history : History) (name : String) : Option Nat :=
  (history.local? name).or (latest? history.fileBindings name)

def bound? : History → DeclarationTarget → String → Option Nat
  | opened _ segment, .innermost, name => latest? segment.bindings name
  | history, _, name => latest? history.fileBindings name

/-- The history ends in this block: the one whose number was answered when the
innermost open block was entered, or file scope. -/
def IsIn (block : Nat) (answers : List Answer) : History → Prop
  | file _ => block = 0
  | opened outer _ => answers[outer.actions.length]? = some (.opened block)

def append : History → Segment → History
  | file segment, more => file (segment.append more)
  | opened outer segment, more => opened outer (segment.append more)

@[simp] theorem actions_append (history : History) (more : Segment) :
    (history.append more).actions = history.actions ++ more.actions := by
  cases history <;> simp [append, actions]

theorem count_actions (history : History) :
    history.actions.count .enter = history.actions.count .exit + history.depth := by
  induction history with
  | file segment => exact segment.count_actions.symm
  | opened outer segment induction =>
      simp [actions, depth, induction, segment.count_actions]
      omega

end History

theorem IsAllowed.of_append {actions more : List Action} (allowed : IsAllowed (actions ++ more)) :
    IsAllowed actions :=
  fun _ before => allowed _ (before.trans (List.prefix_append actions more))

theorem exists_history {actions : List Action} (allowed : IsAllowed actions) :
    ∃ history : History, history.actions = actions := by
  induction actions using List.reverseRecOn with
  | nil => exact ⟨.file .nil, rfl⟩
  | append_singleton before action induction =>
      rcases induction allowed.of_append with ⟨history, rfl⟩
      cases action with
      | enter => exact ⟨.opened history .nil, rfl⟩
      | declare target name symbol =>
          exact ⟨history.append (.declare target name symbol .nil), history.actions_append _⟩
      | ask query => exact ⟨history.append (.ask query .nil), history.actions_append _⟩
      | exit =>
          cases history with
          | file segment =>
              have counts := allowed _ (List.prefix_refl _)
              rw [History.actions, List.count_append, List.count_append,
                segment.count_actions] at counts
              exact absurd counts (by simp)
          | opened outer segment =>
              exact ⟨outer.append (.scope segment .nil), by
                simp [History.actions, Segment.actions]⟩

theorem exists_segment {actions : List Action} (allowed : IsAllowed actions)
    (closed : actions.count .enter = actions.count .exit) :
    ∃ segment : Segment, segment.actions = actions := by
  rcases exists_history allowed with ⟨history, rfl⟩
  cases history with
  | file segment => exact ⟨segment, rfl⟩
  | opened outer segment =>
      have counts := (History.opened outer segment).count_actions
      rw [closed] at counts
      simp [History.depth] at counts

/-! ## What a run leaves behind -/

def after (scopes : Scopes) (segment : Segment) : Scopes :=
  match scopes.inner with
  | [] =>
      { scopes with
        globals := scopes.globals.insertAll (segment.fileBindings true)
        opened := scopes.opened + segment.actions.count .enter }
  | scope :: outer =>
      { globals := scopes.globals.insertAll (segment.fileBindings false)
        inner := { scope with table := scope.table.insertAll segment.bindings } :: outer
        opened := scopes.opened + segment.actions.count .enter }

@[simp] theorem after_nil (scopes : Scopes) : scopes.after .nil = scopes := by
  rcases scopes with ⟨globals, _ | ⟨scope, outer⟩, opened⟩ <;> rfl

@[simp] theorem after_ask (scopes : Scopes) (query : Query) (rest : Segment) :
    scopes.after (.ask query rest) = scopes.after rest := by
  rcases scopes with ⟨globals, _ | ⟨scope, outer⟩, opened⟩ <;>
    simp [after, Segment.actions, Segment.bindings, Segment.fileBindings]

theorem after_declare (scopes : Scopes) (target : DeclarationTarget) (name : String) (symbol : Nat)
    (rest : Segment) :
    (scopes.bind target name symbol).after rest =
      scopes.after (.declare target name symbol rest) := by
  rcases scopes with ⟨globals, _ | ⟨scope, outer⟩, opened⟩ <;> cases target <;>
    simp [after, bind, Segment.actions, Segment.bindings, Segment.fileBindings]

def afterBlock (scopes : Scopes) (inside : Segment) : Scopes :=
  { scopes with
    globals := scopes.globals.insertAll (inside.fileBindings false)
    opened := scopes.opened + 1 + inside.actions.count .enter }

theorem after_afterBlock (scopes : Scopes) (inside rest : Segment) :
    (scopes.afterBlock inside).after rest = scopes.after (.scope inside rest) := by
  rcases scopes with ⟨globals, _ | ⟨scope, outer⟩, opened⟩ <;>
    simp [afterBlock, after, Segment.actions, Segment.bindings, Segment.fileBindings] <;> omega

theorem run_block {inside : Segment} {scopes : Scopes} {answers : List Answer}
    (ran : run inside.actions scopes.enter = .ok (answers, scopes.enter.after inside)) :
    ∃ answers, run (.enter :: inside.actions ++ [.exit]) scopes =
      .ok (answers, scopes.afterBlock inside) :=
  ⟨_, run_cons rfl (run_append ran (run_cons rfl rfl))⟩

theorem run_segment (segment : Segment) (scopes : Scopes) :
    ∃ answers, run segment.actions scopes = .ok (answers, scopes.after segment) := by
  induction segment generalizing scopes with
  | nil => exact ⟨[], by rw [after_nil]; rfl⟩
  | declare target name symbol rest induction =>
      rcases induction (scopes.bind target name symbol) with ⟨answers, ran⟩
      exact ⟨_, run_cons rfl (after_declare .. ▸ ran)⟩
  | ask query rest induction =>
      rcases induction scopes with ⟨answers, ran⟩
      exact ⟨_, run_cons rfl (after_ask scopes query rest ▸ ran)⟩
  | scope inside rest first second =>
      rcases first scopes.enter with ⟨before, ran⟩
      rcases run_block ran with ⟨opening, ranBlock⟩
      rcases second (scopes.afterBlock inside) with ⟨answers, ranRest⟩
      refine ⟨opening ++ answers, ?_⟩
      rw [← after_afterBlock, Segment.actions, List.append_cons]
      exact run_append ranBlock ranRest

def History.tables : History → List Table
  | file _ => []
  | opened outer segment => ({} : Table).insertAll segment.bindings :: outer.tables

theorem History.length_tables (history : History) : history.tables.length = history.depth := by
  induction history with
  | file segment => rfl
  | opened outer segment induction => rw [tables, depth, List.length_cons, induction]

theorem History.findSome?_tables (history : History) (name : String) :
    history.tables.findSome? (·.find? name) = history.local? name := by
  induction history with
  | file segment => rfl
  | opened outer segment induction =>
      rw [tables, local?, List.findSome?_cons, find?_insertAll_empty, induction]
      cases latest? segment.bindings name <;> rfl

structure Shows (scopes : Scopes) (history : History) (answers : List Answer) : Prop where
  globals : scopes.globals = ({} : Table).insertAll history.fileBindings
  tables : scopes.inner.map (·.table) = history.tables
  block : history.IsIn scopes.currentBlock answers

theorem run_history (history : History) :
    ∃ answers scopes, run history.actions {} = .ok (answers, scopes) ∧
      scopes.Shows history answers := by
  induction history with
  | file segment =>
      rcases run_segment segment {} with ⟨answers, ran⟩
      exact ⟨answers, _, ran, rfl, rfl, rfl⟩
  | opened outer segment induction =>
      rcases induction with ⟨before, scopes, ranBefore, shows⟩
      rcases run_segment segment scopes.enter with ⟨answers, ran⟩
      refine ⟨_, _, run_append ranBefore (run_cons rfl ran), ?_, ?_, ?_⟩
      · simp [after, enter, History.fileBindings, shows.globals]
      · simp [after, enter, History.tables, shows.tables]
      · rw [History.IsIn, ← length_of_run ranBefore, List.getElem?_append_right (Nat.le_refl _),
          Nat.sub_self, List.getElem?_cons_zero]
        rfl

section

variable {scopes : Scopes} {history : History} {answers : List Answer}

theorem Shows.depth_eq (shows : scopes.Shows history answers) : scopes.depth = history.depth := by
  rw [← history.length_tables, ← shows.tables, List.length_map]
  rfl

theorem Shows.find?_eq (shows : scopes.Shows history answers) (name : String) :
    scopes.find? name = history.find? name := by
  rw [Scopes.find?, History.find?, shows.globals, find?_insertAll_empty,
    ← history.findSome?_tables, ← shows.tables, List.findSome?_map]
  rfl

theorem Shows.bound?_eq (shows : scopes.Shows history answers) (target : DeclarationTarget)
    (name : String) : scopes.bound? target name = history.bound? target name := by
  have tables := shows.tables
  have globals : scopes.globals.find? name = latest? history.fileBindings name := by
    rw [shows.globals, find?_insertAll_empty]
  cases history with
  | file segment =>
      have inner : scopes.inner = [] := List.map_eq_nil_iff.mp tables
      cases target <;> simp [Scopes.bound?, History.bound?, inner, globals]
  | opened outer segment =>
      rcases List.map_eq_cons_iff.mp tables with ⟨scope, rest, inner, table, -⟩
      cases target <;> simp [Scopes.bound?, History.bound?, inner, globals, table]

/-- A block that was closed shows only in the names that it declared for the
file, and in those only where no open block binds them. -/
theorem Shows.find?_afterBlock (shows : scopes.Shows history answers) (inside : Segment)
    (name : String) (changed : (scopes.afterBlock inside).find? name ≠ scopes.find? name) :
    (∃ symbol, .declare .file name symbol ∈ inside.actions) ∧ history.local? name = none := by
  have bound : (scopes.inner.findSome? fun scope => scope.table.find? name) =
      history.local? name := by
    rw [← history.findSome?_tables, ← shows.tables, List.findSome?_map]
    rfl
  simp only [Scopes.find?, afterBlock, bound, find?_insertAll] at changed
  cases hidden : history.local? name with
  | some symbol => simp [hidden] at changed
  | none =>
      refine ⟨?_, rfl⟩
      cases latest : latest? (inside.fileBindings false) name with
      | none => simp [latest] at changed
      | some symbol =>
          exact ⟨symbol, Segment.declared_of_mem_fileBindings (mem_of_latest? latest)⟩

structure IsDisciplined (history : History) (answers : List Answer) (scopes : Scopes) : Prop where
  depth : scopes.depth = history.depth
  block : history.IsIn scopes.currentBlock answers
  find : ∀ name, scopes.find? name = history.find? name
  declare : ∀ target name symbol,
    run (history.actions ++ [.declare target name symbol]) {} =
      .ok (answers ++ [.replaced (history.bound? target name)], scopes.bind target name symbol)
  /-- A block that is opened, filled and closed leaves no trace but the names
  that it declared for the file. -/
  restored : ∀ inside, IsAllowed inside → inside.count .enter = inside.count .exit →
    ∃ more after,
      run (history.actions ++ (.enter :: inside ++ [.exit])) {} = .ok (answers ++ more, after) ∧
        after.depth = scopes.depth ∧ after.currentBlock = scopes.currentBlock ∧
        ∀ name, after.find? name ≠ scopes.find? name →
          (∃ symbol, .declare .file name symbol ∈ inside) ∧ history.local? name = none

theorem Shows.isDisciplined (shows : scopes.Shows history answers)
    (ran : run history.actions {} = .ok (answers, scopes)) :
    IsDisciplined history answers scopes where
  depth := shows.depth_eq
  block := shows.block
  find := shows.find?_eq
  declare target name symbol := by
    rw [← shows.bound?_eq]
    exact run_append ran (run_cons rfl rfl)
  restored inside allowed closed := by
    rcases exists_segment allowed closed with ⟨segment, rfl⟩
    rcases run_segment segment scopes.enter with ⟨others, ranInside⟩
    rcases run_block ranInside with ⟨more, ranBlock⟩
    exact ⟨more, _, run_append ran ranBlock, rfl, rfl, shows.find?_afterBlock segment⟩

end

/-- Every run from the empty scopes that closes no scope too many goes through.
Blocks are numbered upwards, and what is in scope at its end is what its history
says. -/
theorem run_disciplined (actions : List Action) (allowed : IsAllowed actions) :
    ∃ answers scopes, run actions {} = .ok (answers, scopes) ∧
      (blocks answers).Pairwise (· < ·) ∧ (blocks answers).length = actions.count .enter ∧
      (∀ block ∈ blocks answers, 0 < block ∧ block ≤ actions.count .enter) ∧
      (∃ history : History, history.actions = actions) ∧
      ∀ history : History, history.actions = actions →
        IsDisciplined history answers scopes := by
  rcases exists_history allowed with ⟨found, rfl⟩
  rcases run_history found with ⟨answers, scopes, ran, -⟩
  have numbers : blocks answers = List.range' 1 (found.actions.count .enter) := blocks_of_run ran
  refine ⟨answers, scopes, ran, ?_, ?_, ?_, ⟨found, rfl⟩, ?_⟩
  · rw [numbers]
    exact List.pairwise_lt_range'
  · rw [numbers, List.length_range']
  · intro block member
    rw [numbers, List.mem_range'_1] at member
    omega
  · intro history same
    rcases run_history history with ⟨_, _, ranAgain, shows⟩
    rw [same, ran] at ranAgain
    cases ranAgain
    exact shows.isDisciplined (same ▸ ran)

def layered : List Action :=
  [.declare .file "f" 0, .enter, .declare .innermost "x" 1, .enter, .declare .innermost "x" 2,
    .ask (.find "x"), .declare .file "g" 3, .exit]

theorem layered_disciplined :
    IsAllowed layered ∧ ∃ answers scopes, run layered {} = .ok (answers, scopes) ∧
      (blocks answers).Pairwise (· < ·) ∧ (blocks answers).length = layered.count .enter ∧
      (∀ block ∈ blocks answers, 0 < block ∧ block ≤ layered.count .enter) ∧
      (∃ history : History, history.actions = layered) ∧
      ∀ history : History, history.actions = layered →
        IsDisciplined history answers scopes :=
  ⟨by decide, run_disciplined layered (by decide)⟩

end Scopes

end OcLang
