import OcLang.Proofs.Oil.ExpressionLaws
import OcLang.Proofs.Oil.LineLaws
import OcLang.Proofs.Oil.Operands
import OcLang.Proofs.Tree.Walk

namespace OcLang.Oil

/-! # Rules of lines

Many a property of a program is one of each of its lines, of each operand that is written in
it or of each type. Such rules are kept by every statement if they are kept where the lines,
operands and types are made. -/

def Line.isPlain : Line → Bool
  | .perform _ | .jumpUnless _ _ | .jump _ | .anchor _ | .returnValue _ | .returnVoid => true
  | _ => false

def Computation.element? : Computation → Option OilType
  | .allocate _ element => some element
  | _ => none

def Operand.isCommon : Operand → Bool
  | .literal _ | .temporary _ | .element _ _ | .cast .int _ | .cast .char _ => true
  | _ => false

structure Rules where
  line : Line → Prop
  operand : Operand → Prop
  type : OilType → Prop

def Rules.Allow (rules : Rules) (operands : List Operand) : Prop :=
  ∀ operand ∈ operands, rules.operand operand

structure Lowered.Keeps (lowered : Lowered) (rules : Rules) : Prop where
  lines : ∀ line ∈ lowered.lines, rules.line line
  operand : rules.Allow lowered.operand.within

structure Rules.KeptByExpressions (rules : Rules) (analysis : Analysis) (holds : Tree → Prop) :
    Prop where
  inner {tree operand : Tree} (here : holds tree) (member : operand ∈ tree.operands) :
    holds operand
  common {operand : Operand} (common : operand.isCommon = true) : rules.operand operand
  int : rules.type .int
  char : rules.type .char
  pointer {element : OilType} (kept : rules.type element) : rules.type (.pointer element)
  value {tree : Tree} (here : holds tree) : rules.type (.ofValue tree.note.type)
  struct {location : Location} {text : String} {note : Note} {type : Tree}
    (here : holds ⟨.allocate .struct, location, text, note, [type]⟩) :
    rules.type (.struct type.text)
  element {location : Location} {text : String} {note : Note} {type size : Tree}
    (here : holds ⟨.allocate .array, location, text, note, [type, size]⟩) :
    rules.type (.ofKeyword type)
  call {location : Location} {text : String} {note : Note} {children : List Tree}
    {function : String} {arguments : List Operand}
    (here : holds ⟨.call, location, text, note, children⟩)
    (lowers : LowersTo analysis ⟨.call, location, text, note, children⟩
      (.call function arguments)) : rules.operand (.call function arguments)
  select {location : Location} {text : String} {note : Note} {object field : Tree}
    {base : Operand} (here : holds ⟨.select, location, text, note, [object, field]⟩)
    (lowers : LowersTo analysis ⟨.select, location, text, note, [object, field]⟩
      (.field base (object.note.structName.getD "") field.text)) :
    rules.operand (.field base (object.note.structName.getD "") field.text)
  computes {type : OilType} {temporary : Temporary} {value : Computation}
    (ofType : rules.type type) (ofElement : ∀ element ∈ value.element?, rules.type element)
    (operands : rules.Allow value.operands) : rules.line (.compute type temporary value)
  stores {target source : Operand} (operands : rules.Allow (target.within ++ source.within)) :
    rules.line (.store target source)
  assigns {location : Location} {text : String} {note : Note} {target value : Tree}
    {operand : Operand} (here : holds ⟨.assign, location, text, note, [target, value]⟩)
    (string : value.kind = .literal .string) (lowers : LowersTo analysis target operand)
    (operands : rules.Allow operand.within) :
    rules.line (.store operand (.boundString location))
  leaf {node : Tree} (here : holds node) (leaf : node.hasOperands = false)
    (other : ¬∃ location text note type,
      node = ⟨.allocate .struct, location, text, note, [type]⟩) :
    (lowerLeaf analysis node).Keeps rules
  crowded {operator : UnaryOperator} {location : Location} {text : String} {note : Note}
    {operand second : Tree} {rest : List Tree}
    (here : holds ⟨.unary operator, location, text, note, operand :: second :: rest⟩) :
    (noValue (.unary operator)).Keeps rules

section

variable {rules : Rules} {operands more : List Operand} {operand : Operand}

namespace Rules.Allow

theorem nil : rules.Allow [] := by
  simp [Allow]

theorem append (first : rules.Allow operands) (second : rules.Allow more) :
    rules.Allow (operands ++ more) :=
  List.forall_mem_append.mpr ⟨first, second⟩

theorem cons (here : rules.operand operand) (rest : rules.Allow operands) :
    rules.Allow (operand :: operands) :=
  List.forall_mem_cons.mpr ⟨here, rest⟩

theorem single (here : rules.operand operand) : rules.Allow [operand] :=
  cons here nil

end Rules.Allow

theorem Lowered.Keeps.concat {lowered : Lowered} {line : Line} (keeps : lowered.Keeps rules)
    (here : rules.line line) : ∀ other ∈ lowered.lines ++ [line], rules.line other :=
  List.forall_mem_append.mpr ⟨keeps.lines, List.forall_mem_singleton.mpr here⟩

namespace Rules.KeptByExpressions

variable {analysis : Analysis} {holds : Tree → Prop}
  (kept : rules.KeptByExpressions analysis holds)

include kept

/-! ## Expressions -/

theorem computed {lines : List Line} {value : Computation} {type : OilType}
    (before : ∀ line ∈ lines, rules.line line)
    (ofType : rules.type type) (ofElement : ∀ element ∈ value.element?, rules.type element)
    (operands : rules.Allow value.operands) (kind : TemporaryKind) (number : Nat) :
    Ends (compute kind type lines value) number fun lowered _ => lowered.Keeps rules := by
  apply Ends.bind
  apply Ends.modifyGet
  apply Ends.pure
  constructor
  · exact List.forall_mem_append.mpr
      ⟨before, List.forall_mem_singleton.mpr (kept.computes ofType ofElement operands)⟩
  · exact .single (kept.common rfl)

theorem copied {lowered : Lowered} {type : OilType} (keeps : lowered.Keeps rules)
    (ofType : rules.type type) (kind : TemporaryKind) (number : Nat) :
    Ends (compute kind type lowered.lines (.copy lowered.operand)) number
      fun lowered _ => lowered.Keeps rules := by
  apply kept.computed keeps.lines ofType
  · simp [Computation.element?]
  · exact keeps.operand

theorem read {value : Tree} (here : holds value) {lowered : Lowered}
    (keeps : lowered.Keeps rules) (number : Nat) :
    Ends (readValue value lowered) number fun result _ => result.Keeps rules := by
  unfold readValue
  split
  · exact .pure keeps
  · split
    · exact kept.copied keeps kept.char _ number
    · exact kept.copied keeps (kept.value here) _ number

theorem stored {location : Location} {text : String} {note : Note} {target value : Tree}
    {lowered source : Lowered} (here : holds ⟨.assign, location, text, note, [target, value]⟩)
    (lowers : LowersTo analysis target lowered.operand) (keeps : lowered.Keeps rules)
    (keepsSource : source.Keeps rules) (number : Nat) :
    Ends (lowerStore location lowered value source) number
      fun result _ => result.Keeps rules := by
  unfold lowerStore
  split
  · rename_i string
    have line := kept.assigns here (by simpa using string) lowers keeps.operand
    exact .pure ⟨List.forall_mem_append.mpr ⟨keeps.lines, List.forall_mem_singleton.mpr line⟩,
      keeps.operand⟩
  · have hereValue : holds value := kept.inner here (by simp [Tree.operands])
    apply Ends.bind
    apply (kept.read hereValue keepsSource number).imp
    intro read _ keepsRead
    have line := kept.stores (keeps.operand.append keepsRead.operand)
    apply Ends.pure
    constructor
    · rw [List.forall_mem_append, List.forall_mem_append, List.forall_mem_singleton]
      exact ⟨⟨keeps.lines, keepsRead.lines⟩, line⟩
    · exact keeps.operand

theorem combined (operator : BinaryOperator) {left right : Lowered} (keeps : left.Keeps rules)
    (keepsRight : right.Keeps rules) (number : Nat) :
    Ends (lowerBinary operator left right) number fun lowered _ => lowered.Keeps rules := by
  have lines := List.forall_mem_append.mpr ⟨keeps.lines, keepsRight.lines⟩
  have operands := keeps.operand.append keepsRight.operand
  have plain : ∀ element ∈ (Computation.binary operator left.operand right.operand).element?,
      rules.type element := by
    simp [Computation.element?]
  unfold lowerBinary
  dsimp only
  split
  · exact kept.computed lines kept.char plain operands _ number
  · exact kept.computed lines kept.int plain operands _ number

theorem operated (operator : UnaryOperator) {operand : Lowered} (keeps : operand.Keeps rules)
    (number : Nat) :
    Ends (lowerUnary operator operand) number fun lowered _ => lowered.Keeps rules := by
  cases operator with
  | ord => exact .pure ⟨keeps.lines, .cons (kept.common rfl) keeps.operand⟩
  | chr => exact .pure ⟨keeps.lines, .cons (kept.common rfl) keeps.operand⟩
  | not =>
      apply kept.computed keeps.lines kept.char
      · simp [Computation.element?]
      · exact keeps.operand
  | _ =>
      apply kept.computed keeps.lines kept.int
      · simp [Computation.element?]
      · exact keeps.operand

theorem allocated {element : OilType} (ofElement : rules.type element) {count : Lowered}
    (keeps : count.Keeps rules) (number : Nat) :
    Ends (lowerAllocation element count) number fun lowered _ => lowered.Keeps rules := by
  apply kept.computed keeps.lines (kept.pointer ofElement)
  · simpa [Computation.element?] using ofElement
  · exact keeps.operand

theorem isExpressionLaw : IsExpressionLaw analysis holds
    (fun _ _ lowered _ => lowered.Keeps rules)
    (fun _ _ lines operands _ =>
      (∀ line ∈ lines, rules.line line) ∧ rules.Allow (Operand.withinAll operands)) where
  operand := kept.inner
  nil _ := ⟨by simp, .nil⟩
  cons keeps others := ⟨List.forall_mem_append.mpr ⟨keeps.lines, others.1⟩,
    keeps.operand.append others.2⟩
  call here lowers keep := ⟨keep.1, .cons (kept.call here lowers) keep.2⟩
  select here lowers keeps := ⟨keeps.lines, .cons (kept.select here lowers) keeps.operand⟩
  index _ keeps keepsPosition := ⟨List.forall_mem_append.mpr ⟨keeps.lines, keepsPosition.lines⟩,
    .cons (kept.common rfl) (keeps.operand.append keepsPosition.operand)⟩
  newStruct here number := by
    apply kept.allocated (kept.struct here)
    exact ⟨by simp, .single (kept.common rfl)⟩
  newArray here keeps := kept.allocated (kept.element here) keeps _
  newString _ keeps := kept.allocated kept.char keeps _
  assign here lowers keeps keepsValue := kept.stored here lowers keeps keepsValue _
  binary _ keeps keepsRight := kept.combined _ keeps keepsRight _
  unary _ keeps := kept.operated _ keeps _
  crowded here _ := kept.crowded here
  leaf here leaf other _ := kept.leaf here leaf other

theorem expression {tree : Tree} (here : holds tree) (number : Nat) :
    Ends (lower analysis tree) number fun lowered _ => lowered.Keeps rules :=
  kept.isExpressionLaw.expression here number

theorem wanted {tree : Tree} (here : holds tree) (number : Nat) :
    Ends (lowerValue analysis tree) number fun lowered _ => lowered.Keeps rules := by
  apply Ends.bind
  apply (kept.expression here number).imp
  intro lowered middle keeps
  exact kept.read here keeps middle

theorem condition {tree : Tree} (here : holds tree) (number : Nat) :
    Ends (lowerCondition analysis tree) number fun lowered _ => lowered.Keeps rules := by
  apply lowerCondition_ends (kept.expression here number)
  intro lowered middle keeps
  exact kept.copied keeps kept.char _ middle

end Rules.KeptByExpressions

/-! ## Statements -/

structure HandsDown (expression statement : Tree → Prop) : Prop where
  child {location : Location} {text : String} {note : Note} {children : List Tree} {child : Tree}
    (here : statement ⟨.block, location, text, note, children⟩) (member : child ∈ children) :
    statement child
  inside {location : Location} {text : String} {note : Note}
    {declarator parameters body child : Tree}
    (here : statement ⟨.function, location, text, note, [declarator, parameters, body]⟩)
    (member : child ∈ body.children) : statement child
  body {kind : Kind} {location : Location} {text : String} {note : Note} {test body : Tree}
    {bodies : List Tree} (control : kind.isControl = true)
    (here : statement ⟨kind, location, text, note, test :: bodies⟩) (member : body ∈ bodies) :
    statement body
  test {kind : Kind} {location : Location} {text : String} {note : Note} {test : Tree}
    {bodies : List Tree} (control : kind.isControl = true)
    (here : statement ⟨kind, location, text, note, test :: bodies⟩) : expression test
  initial {location : Location} {text : String} {note : Note} {declarator value : Tree}
    {rest : List Tree}
    (here : statement ⟨.variable, location, text, note, declarator :: value :: rest⟩) :
    expression value
  returned {location : Location} {text : String} {note : Note} {value : Tree} {rest : List Tree}
    (here : statement ⟨.returnValue, location, text, note, value :: rest⟩) : expression value
  whole {tree : Tree} (here : statement tree) (isExpression : tree.kind.isExpression = true) :
    expression tree

theorem HandsDown.of_inner {expression statement : Tree → Prop}
    (inner : ∀ {tree child : Tree}, statement tree → child ∈ tree.inner → statement child)
    (weaken : ∀ {tree : Tree}, statement tree → expression tree) :
    HandsDown expression statement where
  child here member := inner here member
  inside here member := inner here member
  body control here member := inner here (by simp [Tree.inner_control control, member])
  test control here := weaken (inner here (by simp [Tree.inner_control control]))
  initial here := weaken (inner here List.mem_cons_self)
  returned here := weaken (inner here List.mem_cons_self)
  whole here _ := weaken here

structure Rules.KeptByStatements (rules : Rules) (analysis : Analysis)
    (expression statement : Tree → Prop) : Prop extends
    rules.KeptByExpressions analysis expression, HandsDown expression statement where
  declared {location : Location} {text : String} {note : Note} {declarator name : Tree}
    {values : List Tree} (here : statement ⟨.variable, location, text, note, declarator :: values⟩)
    (declared : declarator.declaredName? = some name) :
    rules.operand (.variable (variableName analysis name)) ∧ rules.type (.ofDeclarator declarator)
  declares {type : OilType} {name : VariableName} {value : Option Operand}
    (ofType : rules.type type) (target : rules.operand (.variable name))
    (operands : rules.Allow (Line.declare type name value).operands) :
    rules.line (.declare type name value)
  rebinds {location : Location} {text : String} {note : Note} {declarator name value : Tree}
    {rest : List Tree}
    (here : statement ⟨.variable, location, text, note, declarator :: value :: rest⟩)
    (declared : declarator.declaredName? = some name) (string : value.kind = .literal .string)
    (replaces : replacesVariable analysis name = true)
    (target : rules.operand (.variable (variableName analysis name))) :
    rules.line (.store (.variable (variableName analysis name)) (.boundString location))
  plain {line : Line} (plain : line.isPlain = true) (operands : rules.Allow line.operands) :
    rules.line line
  gap : (∀ tree, statement tree → tree.IsShaped) ∨
    (∀ kind, rules.line (.gap kind)) ∧ rules.operand .missing

namespace Rules.KeptByStatements

variable {analysis : Analysis} {expression statement : Tree → Prop}
  (kept : rules.KeptByStatements analysis expression statement)

include kept

theorem declaration {location : Location} {text : String} {note : Note} {children : List Tree}
    (here : statement ⟨.variable, location, text, note, children⟩) (placement : Placement)
    (number : Nat) :
    Ends (lowerDeclaration analysis placement ⟨.variable, location, text, note, children⟩) number
      fun lines _ => ∀ line ∈ lines, rules.line line := by
  have gap (unshaped : ¬Tree.IsShaped ⟨.variable, location, text, note, children⟩) :
      ∀ line ∈ [Line.gap .variable], rules.line line :=
    List.forall_mem_singleton.mpr
      ((kept.gap.resolve_left fun shaped => unshaped (shaped _ here)).1 _)
  unfold lowerDeclaration
  dsimp only
  split
  · apply Ends.pure
    apply gap
    intro shaped
    rcases shaped.variable with ⟨_, _, _, same, _⟩
    contradiction
  · rename_i declarator values
    split
    · rename_i unnamed
      apply Ends.pure
      apply gap
      intro shaped
      rcases shaped.variable with ⟨_, _, _, same, _, named, _⟩
      cases same
      rw [unnamed] at named
      contradiction
    · rename_i name declared
      have target := kept.declared here declared
      split
      · apply Ends.pure
        split
        · simp
        · exact List.forall_mem_singleton.mpr (kept.declares target.2 target.1 .nil)
      · rename_i value rest
        split
        · rename_i string
          apply Ends.pure
          split
          · rename_i replaces
            exact List.forall_mem_singleton.mpr
              (kept.rebinds here declared (by simpa using string) replaces target.1)
          · simp
        · apply Ends.bind
          apply (kept.wanted (kept.initial here) number).imp
          intro lowered _ keeps
          apply Ends.pure
          split
          · exact keeps.concat (kept.stores ((Allow.single target.1).append keeps.operand))
          · have operands : rules.Allow (Line.declare (.ofDeclarator declarator)
                (variableName analysis name) (some lowered.operand)).operands := by
              simpa [Line.operands] using keeps.operand
            exact keeps.concat (kept.declares target.2 target.1 operands)

theorem simple {tree : Tree} (here : statement tree) (simple : tree.isCompound = false)
    (placement : Placement) (number : Nat) :
    Ends (lowerSimple analysis placement tree) number
      fun lines _ => ∀ line ∈ lines, rules.line line := by
  rcases tree with ⟨kind, location, text, note, children⟩
  have gap (unshaped : ¬Tree.IsShaped ⟨kind, location, text, note, children⟩) :=
    kept.gap.resolve_left fun shaped => unshaped (shaped _ here)
  cases kind with
  | «variable» => exact kept.declaration here placement number
  | returnValue =>
      cases children with
      | nil =>
          have missing := (gap fun shaped => by simpa [Tree.shapeFault?] using shaped.fault).2
          exact .pure (List.forall_mem_singleton.mpr (kept.plain rfl (.single missing)))
      | cons value rest =>
          apply Ends.bind
          apply (kept.wanted (kept.returned here) number).imp
          intro lowered _ keeps
          exact .pure (keeps.concat (kept.plain rfl keeps.operand))
  | returnVoid => exact .pure (List.forall_mem_singleton.mpr (kept.plain rfl .nil))
  | call =>
      apply Ends.bind
      apply (kept.expression (kept.whole here rfl) number).imp
      intro lowered _ keeps
      exact .pure (keeps.concat (kept.plain rfl keeps.operand))
  | whileLoop | ifThen | ifElse =>
      cases children with
      | nil =>
          exact .pure (List.forall_mem_singleton.mpr
            ((gap fun shaped => by simpa [Tree.shapeFault?] using shaped.fault).1 _))
      | cons test bodies => simp [Tree.isCompound] at simple
  | literal | identifier | select | index | allocate | assign | binary | unary =>
      apply Ends.bind
      apply (kept.expression (kept.whole here rfl) number).imp
      intro lowered _ keeps
      exact .pure keeps.lines
  | _ => exact .pure (by simp)

theorem isLineLaw : IsLineLaw fun (_ : List Empty) _ lines _ =>
    ∀ line ∈ lines, rules.line line where
  nil _ := by simp
  append first second := List.forall_mem_append.mpr ⟨first, second⟩
  anchor _ _ := List.forall_mem_singleton.mpr (kept.plain rfl .nil)
  jump _ _ := List.forall_mem_singleton.mpr (kept.plain rfl .nil)

/-- The lines do not stand for parts of the tree here. -/
theorem isStatementLaw : IsStatementLaw analysis statement (fun _ => ([] : List Empty))
    (fun _ _ => []) (fun _ _ lines _ => ∀ line ∈ lines, rules.line line) where
  toIsLineLaw := kept.isLineLaw
  child := kept.child
  body := kept.body
  block _ _ _ _ := by simp
  control _ _ _ _ _ := by simp
  condition control here label number := by
    apply (kept.condition (kept.test control here) number).imp
    intro condition _ keeps
    exact keeps.concat (kept.plain rfl keeps.operand)
  malformed control here none placement number := by
    have gap := kept.gap.resolve_left fun shaped =>
      skipLabel?_of_isShaped control (shaped _ here) none
    apply kept.isLineLaw.malformed [] control none
    · apply (kept.condition (kept.test control here) number).imp
      intro condition _ keeps
      exact keeps.lines
    · intro _
      exact List.forall_mem_singleton.mpr (gap.1 _)
  simple := kept.simple
  heading _ _ := by simp

/-! ## Programs -/

theorem function {tree : Tree} (here : statement tree) (isFunction : tree.kind = .function)
    (later : List Tree) (number : Nat) :
    Ends (lowerFunction analysis tree later) number fun result _ =>
      ∀ function ∈ result, ∀ line ∈ function.body, rules.line line := by
  rcases tree with ⟨kind, location, text, note, children⟩
  subst isFunction
  unfold lowerFunction
  split
  · rename_i declarator parameters body children
    subst children
    split
    · exact .pure (by simp)
    · split
      · exact .pure (by simp)
      · apply Ends.bind
        apply (kept.isStatementLaw.body_lines (fun child => kept.inside here) number).imp
        intro lines _ keep
        apply Ends.pure
        rintro _ ⟨⟩
        exact keep
  · exact .pure (by simp)

theorem program {root : Tree} (each : ∀ item ∈ root.children, statement item) :
    ∀ line ∈ (generate analysis root).lines, rules.line line := by
  have ends : Ends (generateNumbered analysis root) firstTemporary fun program _ =>
      ∀ line ∈ program.lines, rules.line line := by
    apply Ends.bind
    apply (lowerFunctions_each (fun function member => by
      have both := List.mem_filter.mp member
      exact kept.function (each function both.1) (by simpa using both.2)) firstTemporary).imp
    intro functions middle keep
    apply Ends.bind
    apply (kept.isStatementLaw.main_lines (fun item member =>
      each item (List.mem_filter.mp member).1) middle).imp
    intro main _ keepMain
    apply Ends.pure
    rw [Program.lines, List.forall_mem_append]
    refine ⟨fun line member => ?_, keepMain⟩
    rcases List.mem_flatMap.mp member with ⟨function, known, below⟩
    rcases keep function known with ⟨_, _, keepBody⟩
    exact keepBody line below
  exact ends

end Rules.KeptByStatements

end

end OcLang.Oil
