import OcLang.Proofs.Oil.Evaluations
import OcLang.Proofs.Oil.Output
import OcLang.Proofs.Tree.Nodes
import OcLang.Proofs.Typing.Statements

namespace OcLang

open Lexical

/-! # Nodes that code can be made from

In an accepted tree every node that code is made from refers to the symbols that its
code needs. -/

namespace Lexical

/-! ## What the nodes of a walk do with names -/

/-- What a node does with names, as a statement or as a value, is among the events. -/
def Covers (all : List Event) (node : Tree) : Prop :=
  ∃ context, events context node ⊆ all ∨ uses context node ⊆ all

section

variable {all : List Event} {tree child : Tree} {context : Context}

/-- An expression does the same as a statement and as a value. -/
theorem events_operands (member : child ∈ tree.operands) :
    events context tree = uses context tree := by
  unfold Tree.operands at member
  split at member <;> first | rfl | contradiction

theorem covers_of_events (shaped : tree.IsShaped) (statement : events context tree ⊆ all)
    (member : child ∈ tree.inner) : Covers all child := by
  rcases tree with ⟨kind, location, text, note, children⟩
  cases kind with
  | root | block =>
      rcases Oil.exists_events member _ with ⟨place, sub⟩
      exact ⟨place, .inl (List.Subset.trans sub statement)⟩
  | function =>
      rcases shaped.function with ⟨_, parameters, _, _, _, statements, name, rfl, _, declared, _⟩
      simp only [events, declared, bodyEvents] at statement
      rcases Oil.exists_events member (context.heading name parameters) with ⟨place, sub⟩
      exact ⟨place, .inl (List.Subset.trans sub (List.append_subset.mp statement).2)⟩
  | whileLoop | ifThen | ifElse =>
      rcases children with _ | ⟨test, bodies⟩
      · contradiction
      · rw [events_control _ rfl, List.append_subset] at statement
        rcases List.mem_cons.mp member with rfl | body
        · exact ⟨context, .inr statement.1⟩
        · rcases Oil.exists_events body context with ⟨place, sub⟩
          exact ⟨place, .inl (List.Subset.trans sub statement.2)⟩
  | «variable» =>
      rcases shaped.variable with ⟨declarator, values, name, rfl, _, declared, _⟩
      rcases values with _ | ⟨value, rest⟩
      · contradiction
      · simp only [events, simpleEvents, declared, List.head?_cons, Option.toList_some, usesAll,
          List.append_nil, List.append_subset] at statement
        rw [List.mem_singleton.mp member]
        exact ⟨context, .inr statement.1⟩
  | returnValue =>
      rcases children with _ | ⟨value, rest⟩
      · contradiction
      · rw [List.mem_singleton.mp member]
        exact ⟨context, .inr statement⟩
  | call | select | index | allocate | assign | binary | unary =>
      have operand : child ∈ Tree.operands _ := member
      rw [events_operands operand] at statement
      exact ⟨context, .inr (List.Subset.trans (uses_operand _ operand) statement)⟩
  | _ => contradiction

/-- A value that is a statement by its kind would be misplaced, so that only operands are
right below a value. -/
theorem covers_of_uses (placed : ¬Refused all) (shaped : tree.IsShaped)
    (value : uses context tree ⊆ all) (member : child ∈ tree.inner) : Covers all child := by
  have expression := (Oil.isExpression_of_uses shaped (Oil.not_refused_of_subset value placed)).kind
  have operand : child ∈ tree.operands := by
    unfold Tree.inner at member
    split at member <;> first | contradiction | exact member
  exact ⟨context, .inr (List.Subset.trans (uses_operand _ operand) value)⟩

/-- The nodes of a walk do nothing with names but what the whole tree does. -/
theorem covers_of_walked (placed : ¬Refused all) (shaped : tree.IsShaped)
    (covers : Covers all tree) : ∀ node ∈ tree.walked, Covers all node := by
  have both : ∀ node ∈ tree.walked, node.IsShaped ∧ Covers all node := by
    refine Tree.forall_mem_walked ⟨shaped, covers⟩ fun node here child member => ?_
    rcases here with ⟨shapedNode, context, statement | value⟩
    · exact ⟨shapedNode.inner member, covers_of_events shapedNode statement member⟩
    · exact ⟨shapedNode.inner member, covers_of_uses placed shapedNode value member⟩
  exact fun node walked => (both node walked).2

/-! ## What single nodes do -/

theorem use_of_covers {node : Tree} (covers : Covers all node)
    (identifier : node.kind = .identifier) : ∃ context, .use context node ∈ all := by
  rcases node with ⟨kind, location, text, note, children⟩
  simp only at identifier
  subst identifier
  rcases covers with ⟨context, statement | value⟩
  · exact ⟨context, statement List.mem_cons_self⟩
  · exact ⟨context, value List.mem_cons_self⟩

theorem declaration_of_covers {node declarator name : Tree} {values : List Tree}
    (placed : ¬Refused all) (covers : Covers all node) (isVariable : node.kind = .variable)
    (children : node.children = declarator :: values)
    (declared : declarator.declaredName? = some name) :
    ∃ context, .declaration context (.variable values.head?) name ∈ all := by
  rcases node with ⟨kind, location, text, note, below⟩
  simp only at isVariable children
  subst isVariable children
  rcases covers with ⟨context, statement | value⟩
  · simp only [events, simpleEvents, declared] at statement
    exact ⟨context, statement (List.mem_append_right _ List.mem_cons_self)⟩
  · exact absurd ⟨_, value List.mem_cons_self⟩ placed

theorem heading_of_covers {node declarator parameters : Tree} {rest : List Tree}
    (placed : ¬Refused all) (shaped : node.IsShaped) (covers : Covers all node)
    (heads : node.kind = .function ∨ node.kind = .prototype)
    (children : node.children = declarator :: parameters :: rest) :
    parameters.kind = .parameters ∧
      ∃ context, parameterEvents context parameters.children ⊆ all := by
  rcases node with ⟨kind, location, text, note, below⟩
  simp only at heads children
  subst children
  rcases covers with ⟨context, statement | value⟩
  · have heading : parameters.kind = .parameters ∧ ∃ name, headingEvents context name parameters ⊆ all
        := by
      rcases heads with rfl | rfl
      · rcases shaped.function with ⟨_, _, _, _, _, _, name, same, _, declared, list⟩
        cases same
        simp only [events, declared] at statement
        exact ⟨list, name, (List.append_subset.mp statement).1⟩
      · rcases shaped.prototype with ⟨_, _, name, same, _, declared, list⟩
        cases same
        simp only [events, declared] at statement
        exact ⟨list, name, statement⟩
    rcases heading with ⟨list, name, sub⟩
    exact ⟨list, _, (List.cons_subset.mp sub).2⟩
  · rcases heads with rfl | rfl
    all_goals exact absurd ⟨_, value List.mem_cons_self⟩ placed

theorem namesStruct_of_covers {node : Tree} (placed : ¬Refused all) (covers : Covers all node) :
    node.NamesStruct := by
  intro isStruct
  rcases node with ⟨kind, location, text, note, children⟩
  simp only at isStruct
  subst isStruct
  rcases covers with ⟨context, statement | value⟩
  · simp only [events, simpleEvents, structEvents] at statement
    split at statement
    · assumption
    · exact absurd ⟨_, statement List.mem_cons_self⟩ placed
  · exact absurd ⟨_, value List.mem_cons_self⟩ placed

end

end Lexical

/-! ## Nodes that refer to what they need -/

namespace Tree

def Refers (analysis : Analysis) (sort : Symbol → Bool) (node : Tree) : Prop :=
  ∃ id symbol, node.note.symbol = some id ∧ analysis.symbols[id]? = some symbol ∧
    sort symbol = true

def DeclaresVariable (analysis : Analysis) (declarator : Tree) : Prop :=
  ∃ name, declarator.declaredName? = some name ∧ name.Refers analysis Symbol.isVariable

def IsReady (analysis : Analysis) (known : List Declared) (node : Tree) : Prop :=
  match node.kind, node.children with
  | .identifier, _ => node.Refers analysis fun _ => true
  | .variable, declarator :: _ => declarator.DeclaresVariable analysis
  | .function, _ :: parameters :: _ | .prototype, _ :: parameters :: _ =>
      ∀ declarator ∈ parameters.children, declarator.DeclaresVariable analysis
  | .call, callee :: _ => callee.Refers analysis Symbol.isFunction
  | .select, [object, field] =>
      field.Refers analysis (·.role.roles.isField) ∧
        ∃ record, .struct record ∈ known ∧ object.note.structName = some record.name ∧
          record.selects field
  | .variable, [] | .call, [] | .select, _ => False
  | _, _ => True

theorem Refers.imp {analysis : Analysis} {sort weaker : Symbol → Bool} {node : Tree}
    (refers : node.Refers analysis sort)
    (implies : ∀ symbol, sort symbol = true → weaker symbol = true) :
    node.Refers analysis weaker := by
  rcases refers with ⟨id, symbol, noted, stored, sorted⟩
  exact ⟨id, symbol, noted, stored, implies symbol sorted⟩

end Tree

section

variable {analysis : Analysis} {known : List Declared} {all : List Event} {node : Tree}

theorem refers_of_use {context : Context} (resolved : Oil.Resolved analysis.symbols all)
    (member : .use context node ∈ all) : node.Refers analysis fun _ => true := by
  have here := resolved _ member
  cases found : context.resolve? node.text with
  | none => simp [Event.unresolved?, found] at here
  | some meant =>
      simp only [Event.Holds, found] at here
      rcases here.1 with ⟨noted, _, symbol, stored, _⟩
      exact ⟨meant.symbol, symbol, noted, stored, rfl⟩

theorem declaresVariable_of_declaration {context : Context} {role : Role} {declarator name : Tree}
    (resolved : Oil.Resolved analysis.symbols all)
    (declared : declarator.declaredName? = some name)
    (member : .declaration context role name ∈ all) (isVariable : role.isVariable = true) :
    declarator.DeclaresVariable analysis := by
  rcases (resolved _ member).1 with ⟨noted, symbol, stored, _, _, sort, _⟩
  exact ⟨name, declared, context.stored, symbol, noted, stored, sort.trans isVariable⟩

theorem exists_parameterEvent {declarators : List Tree} {declarator name : Tree}
    (member : declarator ∈ declarators) (declared : declarator.declaredName? = some name)
    (context : Context) :
    ∃ place, .declaration place .parameter name ∈ parameterEvents context declarators := by
  induction declarators generalizing context with
  | nil => contradiction
  | cons first rest induction =>
      rw [parameterEvents_cons]
      rcases List.mem_cons.mp member with rfl | later
      · exact ⟨context, List.mem_append_left _ (by simp [parameterEvents, declared])⟩
      · rcases induction later (context.declareParameters [first]) with ⟨place, below⟩
        exact ⟨place, List.mem_append_right _ below⟩

theorem declaresVariable_of_heading {declarator parameters : Tree} {rest : List Tree}
    (resolved : Oil.Resolved analysis.symbols all) (placed : ¬Refused all)
    (shaped : node.IsShaped) (covers : Covers all node)
    (heads : node.kind = .function ∨ node.kind = .prototype)
    (children : node.children = declarator :: parameters :: rest) :
    ∀ parameter ∈ parameters.children, parameter.DeclaresVariable analysis := by
  intro parameter member
  rcases heading_of_covers placed shaped covers heads children with ⟨list, context, sub⟩
  have shapedList : parameters.IsShaped := shaped.child (by simp [children])
  rcases (shapedList.parameters list parameter member).2 with ⟨name, declared⟩
  rcases exists_parameterEvent member declared context with ⟨place, declaration⟩
  exact declaresVariable_of_declaration resolved declared (sub declaration) rfl

theorem isReady_of_covers (resolved : Oil.Resolved analysis.symbols all) (placed : ¬Refused all)
    (shaped : node.IsShaped) (covers : Covers all node) (fits : node.Fits known)
    (recorded : ∀ declared ∈ known, declared.RecordedIn analysis.symbols) :
    node.IsReady analysis known := by
  rcases node with ⟨kind, location, text, note, children⟩
  cases kind with
  | identifier =>
      rcases use_of_covers covers rfl with ⟨context, member⟩
      exact refers_of_use resolved member
  | «variable» =>
      rcases shaped.variable with ⟨declarator, values, name, rfl, _, declared, _⟩
      rcases declaration_of_covers placed covers rfl rfl declared with ⟨context, member⟩
      exact declaresVariable_of_declaration resolved declared member rfl
  | function =>
      rcases shaped.function with ⟨declarator, parameters, _, _, _, _, _, rfl, _⟩
      exact declaresVariable_of_heading resolved placed shaped covers (.inl rfl) rfl
  | prototype =>
      rcases shaped.prototype with ⟨declarator, parameters, _, rfl, _⟩
      exact declaresVariable_of_heading resolved placed shaped covers (.inr rfl) rfl
  -- A call and a selection say nothing about symbols by themselves; the analysis has
  -- checked them against declarations whose symbols are stored.
  | call =>
      cases children with
      | nil => exact absurd shaped.fault (by simp [Tree.shapeFault?])
      | cons callee arguments =>
          rcases fits with ⟨signature, declared, _, noted, _⟩
          rcases recorded _ declared with ⟨symbol, parameters, stored, role, _⟩
          exact ⟨signature.symbol, symbol, noted, stored, by simp [Symbol.isFunction, role,
            SymbolRole.roles]⟩
  | select =>
      have fine := shaped.fault
      rcases children with _ | ⟨object, _ | ⟨field, _ | ⟨third, rest⟩⟩⟩ <;>
        simp [Tree.shapeFault?] at fine
      rcases fits with ⟨record, declared, owner, selects⟩
      rcases recorded _ declared with ⟨_, _, _, _, _, fields⟩
      rcases selects with ⟨listed, member, sameText, id, noted, same⟩
      rcases fields listed member id noted with ⟨symbol, stored, isField⟩
      exact ⟨⟨id, symbol, same, stored, by simp [isField, SymbolRole.roles]⟩, record, declared, owner,
        listed, member, sameText, id, noted, same⟩
  | _ => trivial

/-- A called name refers to a function, and lists of parameters need nothing themselves. -/
theorem isReady_of_aside {parent : Tree} (shaped : parent.IsShaped)
    (ready : parent.IsReady analysis known) (aside : node ∈ parent.asides) :
    node.IsReady analysis known := by
  unfold Tree.asides at aside
  split at aside
  · rename_i callee arguments
    rw [List.mem_singleton.mp aside]
    have identifier : callee.kind = .identifier := by
      simpa [Tree.shapeFault?, Tree.require] using shaped.fault
    have refers : callee.Refers analysis fun _ => true := Tree.Refers.imp ready fun _ _ => rfl
    simpa [Tree.IsReady, identifier] using refers
  · rcases shaped.function with ⟨_, parameters, _, _, _, _, _, same, _, _, list⟩
    cases same
    simp [List.mem_singleton.mp aside, Tree.IsReady, list]
  · rcases shaped.prototype with ⟨_, parameters, _, same, _, _, list⟩
    cases same
    simp [List.mem_singleton.mp aside, Tree.IsReady, list]
  · contradiction

/-- In an accepted tree all nodes refer to what they need. -/
theorem analyze_isReady {root : Tree} (shaped : root.IsShaped) (fresh : root.IsFresh)
    (accepted : (analyze root).2.diagnostics.hasErrors = false) :
    ∀ node ∈ (analyze root).1.preorder,
      node.IsReady (analyze root).2 ((analyze root).1.walked.filterMap Tree.declared?) := by
  rcases events_of_accepted accepted with ⟨resolved, placed⟩
  rcases analyze_learns fresh accepted with ⟨knows, fits, _⟩
  have recorded : ∀ declared ∈ (analyze root).1.walked.filterMap Tree.declared?,
      declared.RecordedIn (analyze root).2.symbols := knows.recorded
  have shapedHere : (analyze root).1.IsShaped :=
    shaped.congr (analyze_follows False root False.elim).1
  have covers := covers_of_walked placed shapedHere ⟨{}, .inl (List.Subset.refl _)⟩
  have walked : ∀ node ∈ (analyze root).1.walked,
      node.IsReady (analyze root).2 ((analyze root).1.walked.filterMap Tree.declared?) :=
    fun node member => isReady_of_covers resolved placed (shapedHere.walked node member)
      (covers node member) (fits node member) recorded
  intro node inside
  rcases Tree.mem_preorder_cases shapedHere
    (fun node member => namesStruct_of_covers placed (covers node member)) node inside with
    here | ⟨parent, member, aside⟩ | block | part
  · exact walked node here
  · exact isReady_of_aside (shapedHere.walked parent member) (walked parent member) aside
  · rcases node with ⟨kind, location, text, note, children⟩
    simp only at block
    subst block
    trivial
  · rcases node with ⟨kind, location, text, note, children⟩
    cases kind <;> trivial

end

end OcLang
