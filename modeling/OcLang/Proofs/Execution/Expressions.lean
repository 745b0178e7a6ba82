import OcLang.Proofs.Execution.Matching

namespace OcLang.Oil

open Lexical Source

/-! # Integer expressions run as they are lowered -/

/-! ## Literals -/

theorem literalNumber?_integerLiteral {text : String} (filled : text ≠ "")
    (digits : text.toList.all (·.isDigit) = true) :
    literalNumber? (integerLiteral text) = some (Nat.ofDigitChars 10 text.toList 0) := by
  have sameNumber : ∀ chars : List Char,
      Nat.ofDigitChars 10 (chars.dropWhile (· == '0')) 0 = Nat.ofDigitChars 10 chars 0 := by
    intro chars
    induction chars with
    | nil => rfl
    | cons c rest induction =>
        by_cases zero : c = '0'
        · simp [zero, Nat.ofDigitChars_cons, induction]
        · simp [zero]
  have kept : (text.toList.dropWhile (· == '0')).all (·.isDigit) = true := by
    rw [List.all_eq_true] at digits ⊢
    exact fun c member => digits c ((List.dropWhile_sublist _).subset member)
  have notZero := List.head?_dropWhile_not (· == '0') text.toList
  unfold integerLiteral
  dsimp only
  rw [← sameNumber text.toList]
  cases rest : text.toList.dropWhile (· == '0') with
  | nil => simp [filled, literalNumber?]
  | cons c chars =>
      rw [rest] at kept notZero
      simp only [List.isEmpty_cons, Bool.false_and, Bool.false_eq_true, if_false]
      unfold literalNumber?
      rw [String.toList_ofList]
      split <;> simp_all

/-! ## Settled operands -/

def Operand.IsSettled (limit : Nat) : Operand → Prop
  | .literal _ | .variable _ => True
  | .temporary held => held.number < limit
  | _ => False

theorem Operand.IsSettled.value?_eq {operand : Operand} {first limit : Nat}
    {before after : Memory} (settled : operand.IsSettled first) (operators : Operators)
    (keeps : KeepsBut first limit before after) :
    operand.value? operators after = operand.value? operators before := by
  cases operand with
  | literal text => rfl
  | «variable» name => simp [Operand.value?, keeps.variable_eq]
  | temporary held => simp [Operand.value?, keeps.temporary_eq settled]
  | _ => exact settled.elim

/-! ## Lowered expressions -/

/-- However memory shows frames, it does so whatever temporaries hold, and the names have the
same values in both. -/
structure ShowsNames (analysis : Analysis) (relates : List Frame → Memory → Prop)
    (names : List Tree) : Prop where
  kept : ∀ {frames first limit before after}, KeepsBut first limit before after →
    relates frames before → relates frames after
  named : ∀ name ∈ names, name.kind = .identifier → ∀ frames memory, relates frames memory →
    ∃ cell, memory (variableName analysis name).spelling = some cell ∧
      find? frames name.text = some cell.value

theorem ShowsNames.mono {analysis : Analysis} {relates : List Frame → Memory → Prop}
    {names others : List Tree} (shown : ShowsNames analysis relates names)
    (fewer : others ⊆ names) : ShowsNames analysis relates others :=
  ⟨shown.kept, fun name member => shown.named name (fewer member)⟩

section

variable {operators : Operators} {lines : List Line} {analysis : Analysis} {context : Context}
  {relates : List Frame → Memory → Prop}

variable (operators lines relates) in
structure Prepares (tree : Tree) (first limit : Nat) (lowered : Lowered) : Prop where
  le : first ≤ limit
  settled : lowered.operand.IsSettled limit
  runs : ∀ frames counter memory, CodeAt lines counter lowered.lines → relates frames memory →
    ∃ value after, value? operators frames tree = some value ∧
      Reaches operators lines ⟨counter, memory⟩ ⟨counter + lowered.lines.length, after⟩ ∧
      KeepsBut first limit memory after ∧ lowered.operand.value? operators after = some value

variable (operators lines context) in
structure Computes (tree : Tree) (first limit : Nat) (lowered : Lowered) : Prop where
  le : first ≤ limit
  settled : lowered.operand.IsSettled limit
  runs : ∀ frames counter memory, CodeAt lines counter lowered.lines →
    ShowsFrames context memory context.scopes frames →
    ∃ value after, value? operators frames tree = some value ∧
      Reaches operators lines ⟨counter, memory⟩ ⟨counter + lowered.lines.length, after⟩ ∧
      KeepsBut first limit memory after ∧ lowered.operand.value? operators after = some value

/-- Behind some lines, a value is put into a new temporary as its type holds it. -/
theorem compute_reaches {code : List Line} {counter : Nat} {computation : Computation}
    {config : Config} {memory : Memory} {value : Int} (type : OilType) (temporary : Temporary)
    (stands : CodeAt lines counter (code ++ [.compute type temporary computation]))
    (reaches : Reaches operators lines config ⟨counter + code.length, memory⟩)
    (computed : computation.value? operators memory = some value) :
    Reaches operators lines config
      ⟨counter + (code ++ [Line.compute type temporary computation]).length,
        memory.set temporary.spelling ⟨type, type.hold value⟩⟩ := by
  have stepped : step operators lines ⟨counter + code.length, memory⟩ =
      some ⟨counter + code.length + 1,
        memory.set temporary.spelling ⟨type, type.hold value⟩⟩ := by
    simp [step, stands.right.head, computed, Config.write]
  simpa [Nat.add_assoc] using reaches.trans (.step stepped)

theorem compute_prepares {tree : Tree} {first limit : Nat} {code : List Line}
    {computation : Computation} (kind : TemporaryKind) (type : OilType) (le : first ≤ limit)
    (runs : ∀ frames counter memory, CodeAt lines counter code → relates frames memory →
      ∃ value after, value? operators frames tree = some value ∧ type.hold value = value ∧
        Reaches operators lines ⟨counter, memory⟩ ⟨counter + code.length, after⟩ ∧
        KeepsBut first limit memory after ∧ computation.value? operators after = some value) :
    Ends (compute kind type code computation) limit fun lowered after =>
      Prepares operators lines relates tree first after lowered := by
  refine .bind (.modifyGet (.pure ⟨Nat.le_succ_of_le le, Nat.lt_succ_self _, ?_⟩))
  intro frames counter memory stands related
  obtain ⟨value, middle, evaluated, held, reaches, keeps, computed⟩ :=
    runs frames counter memory stands.left related
  let temporary : Temporary := ⟨kind, limit⟩
  refine ⟨value, middle.set temporary.spelling ⟨type, type.hold value⟩, evaluated,
    compute_reaches type temporary stands reaches computed,
    keeps.trans (.set middle temporary _) le (Nat.le_succ _), ?_⟩
  simp [Operand.value?, Memory.set, temporary, held]

theorem hold_of_bit {value : Int} (bit : value = 0 ∨ value = 1) : OilType.char.hold value = value := by
  rcases bit with rfl | rfl <;> rfl

theorem lowerBinary_prepares {operator : BinaryOperator} {left right : Tree}
    {first middle limit : Nat} {one other : Lowered} (location : Location) (text : String)
    (note : Note)
    (kept : ∀ {frames first limit before after}, KeepsBut first limit before after →
      relates frames before → relates frames after)
    (leftPrepares : Prepares operators lines relates left first middle one)
    (rightPrepares : Prepares operators lines relates right middle limit other) :
    Ends (lowerBinary operator one other) limit fun lowered after =>
      Prepares operators lines relates ⟨.binary operator, location, text, note, [left, right]⟩
        first after lowered := by
  have runs : ∀ frames counter memory, CodeAt lines counter (one.lines ++ other.lines) →
      relates frames memory →
      ∃ leftValue rightValue after,
        value? operators frames ⟨.binary operator, location, text, note, [left, right]⟩ =
          some (operators.binary operator leftValue rightValue) ∧
        Reaches operators lines ⟨counter, memory⟩
          ⟨counter + (one.lines ++ other.lines).length, after⟩ ∧
        KeepsBut first limit memory after ∧
        (Computation.binary operator one.operand other.operand).value? operators after =
          some (operators.binary operator leftValue rightValue) := by
    intro frames counter memory stands related
    obtain ⟨leftValue, between, evaluated, reaches, keeps, here⟩ :=
      leftPrepares.runs frames counter memory stands.left related
    obtain ⟨rightValue, after, evaluatedRight, reachesRight, keepsRight, there⟩ :=
      rightPrepares.runs frames _ between stands.right (kept keeps related)
    refine ⟨leftValue, rightValue, after, by simp [value?, evaluated, evaluatedRight], ?_,
      keeps.trans keepsRight leftPrepares.le rightPrepares.le, ?_⟩
    · simpa [Nat.add_assoc] using reaches.trans reachesRight
    · have settled := leftPrepares.settled.value?_eq operators keepsRight
      simp [Computation.value?, settled, here, there]
  have le := Nat.le_trans leftPrepares.le rightPrepares.le
  unfold lowerBinary
  dsimp only
  split
  · rename_i comparison
    refine compute_prepares _ _ le fun frames counter memory stands related => ?_
    obtain ⟨leftValue, rightValue, after, evaluated, reaches, keeps, computed⟩ :=
      runs frames counter memory stands related
    exact ⟨_, after, evaluated, hold_of_bit (operators.comparison_bit operator comparison _ _),
      reaches, keeps, computed⟩
  · refine compute_prepares _ _ le fun frames counter memory stands related => ?_
    obtain ⟨leftValue, rightValue, after, evaluated, reaches, keeps, computed⟩ :=
      runs frames counter memory stands related
    exact ⟨_, after, evaluated, rfl, reaches, keeps, computed⟩

theorem lowerUnary_prepares {operator : UnaryOperator} (computes : operator.isConversion = false)
    {operand : Tree} {first limit : Nat} {lowered : Lowered} (location : Location) (text : String)
    (note : Note) (inner : Prepares operators lines relates operand first limit lowered) :
    Ends (lowerUnary operator lowered) limit fun lowered after =>
      Prepares operators lines relates ⟨.unary operator, location, text, note, [operand]⟩
        first after lowered := by
  have runs : ∀ frames counter memory, CodeAt lines counter lowered.lines →
      relates frames memory →
      ∃ value after,
        value? operators frames ⟨.unary operator, location, text, note, [operand]⟩ =
          some (operators.unary operator value) ∧
        Reaches operators lines ⟨counter, memory⟩ ⟨counter + lowered.lines.length, after⟩ ∧
        KeepsBut first limit memory after ∧
        (Computation.unary operator lowered.operand).value? operators after =
          some (operators.unary operator value) := by
    intro frames counter memory stands related
    obtain ⟨value, after, evaluated, reaches, keeps, here⟩ :=
      inner.runs frames counter memory stands related
    exact ⟨value, after, by simp [value?, evaluated], reaches, keeps,
      by simp [Computation.value?, here]⟩
  cases operator with
  | ord => simp [UnaryOperator.isConversion] at computes
  | chr => simp [UnaryOperator.isConversion] at computes
  | not =>
      refine compute_prepares _ _ inner.le fun frames counter memory stands related => ?_
      obtain ⟨value, after, evaluated, reaches, keeps, computed⟩ :=
        runs frames counter memory stands related
      exact ⟨_, after, evaluated, hold_of_bit (operators.not_bit value), reaches, keeps, computed⟩
  | _ =>
      refine compute_prepares _ _ inner.le fun frames counter memory stands related => ?_
      obtain ⟨value, after, evaluated, reaches, keeps, computed⟩ :=
        runs frames counter memory stands related
      exact ⟨_, after, evaluated, rfl, reaches, keeps, computed⟩

variable (operators lines)

/-- The lines of an integer expression compute its value. -/
theorem lower_prepares {tree : Tree} (expression : IsExpression tree)
    (shown : ShowsNames analysis relates tree.preorder) (number : Nat) :
    Ends (lower analysis tree) number fun lowered limit =>
      Prepares operators lines relates tree number limit lowered := by
  induction expression generalizing number with
  | literal location text note filled digits =>
      simp only [lower]
      refine .pure ⟨Nat.le_refl _, trivial, fun frames counter memory _ _ => ?_⟩
      refine ⟨_, memory, rfl, .refl _, .refl _ _ _, ?_⟩
      simp [lowerLeaf, Operand.value?, literalNumber?_integerLiteral filled digits]
  | identifier location text note =>
      simp only [lower]
      refine .pure ⟨Nat.le_refl _, trivial, fun frames counter memory _ related => ?_⟩
      obtain ⟨cell, stored, looked⟩ :=
        shown.named ⟨.identifier, location, text, note, []⟩ (by simp [Tree.preorder]) rfl frames
          memory related
      refine ⟨cell.value, memory, looked, .refl _, .refl _ _ _, ?_⟩
      simp [lowerLeaf, Operand.value?, stored]
  | binary operator location text note left right whole first second induction inductionSecond =>
      have shownLeft : ShowsNames analysis relates left.preorder :=
        shown.mono (by simp [Tree.preorder, Tree.preorderAll])
      have shownRight : ShowsNames analysis relates right.preorder :=
        shown.mono (by simp [Tree.preorder, Tree.preorderAll])
      simp only [lower]
      refine .bind ((induction shownLeft number).imp fun one middle prepares => ?_)
      refine .bind ((inductionSecond shownRight middle).imp fun other limit preparesRight => ?_)
      exact lowerBinary_prepares location text note shown.kept prepares preparesRight
  | unary operator location text note operand conversion inner induction =>
      have shownOperand : ShowsNames analysis relates operand.preorder :=
        shown.mono (by simp [Tree.preorder, Tree.preorderAll])
      simp only [lower]
      refine .bind ((induction shownOperand number).imp fun lowered limit prepares => ?_)
      exact lowerUnary_prepares conversion location text note prepares

theorem mem_uses {tree name : Tree} (expression : IsExpression tree)
    (member : name ∈ tree.preorder) (isName : name.kind = .identifier) :
    .use context name ∈ uses context tree := by
  induction expression with
  | literal location text note filled digits =>
      obtain rfl : name = _ := by simpa [Tree.preorder, Tree.preorderAll] using member
      contradiction
  | identifier location text note =>
      obtain rfl : name = _ := by simpa [Tree.preorder, Tree.preorderAll] using member
      simp [uses, leafEvents]
  | binary operator location text note left right whole first second induction inductionSecond =>
      simp only [Tree.preorder, Tree.preorderAll, List.append_nil, List.mem_cons,
        List.mem_append] at member
      simp only [uses, List.mem_append]
      rcases member with rfl | left | right
      · contradiction
      · exact .inl (induction left)
      · exact .inr (inductionSecond right)
  | unary operator location text note operand conversion inner induction =>
      simp only [Tree.preorder, Tree.preorderAll, List.append_nil, List.mem_cons] at member
      simp only [uses]
      rcases member with rfl | inside
      · contradiction
      · exact induction inside

theorem showsNames_of_resolved {tree : Tree} (expression : IsExpression tree)
    (resolved : Resolved analysis.symbols (uses context tree)) :
    ShowsNames analysis (fun frames memory => ShowsFrames context memory context.scopes frames)
      tree.preorder where
  kept keeps shows := keeps.showsFrames shows
  named name member isName frames memory shows := by
    obtain ⟨holds, known⟩ := resolved _ (mem_uses expression member isName)
    cases found : context.resolve? name.text with
    | none => simp [Event.unresolved?, found] at known
    | some meant =>
        obtain ⟨value, looked, stored⟩ := find?_eq shows found
        rw [variableName_use holds found]
        exact ⟨_, stored, looked⟩

theorem lower_computes {tree : Tree} (expression : IsExpression tree)
    (resolved : Resolved analysis.symbols (uses context tree)) (number : Nat) :
    Ends (lower analysis tree) number fun lowered limit =>
      Computes operators lines context tree number limit lowered :=
  (lower_prepares operators lines expression (showsNames_of_resolved expression resolved)
    number).imp fun _ _ prepares => ⟨prepares.le, prepares.settled, prepares.runs⟩

theorem isDirect_of_expression {tree : Tree} (expression : IsExpression tree) :
    isDirect tree.kind = true := by
  cases expression <;> rfl

theorem lowerValue_computes {tree : Tree} (expression : IsExpression tree)
    (resolved : Resolved analysis.symbols (uses context tree)) (number : Nat) :
    Ends (lowerValue analysis tree) number fun lowered limit =>
      Computes operators lines context tree number limit lowered := by
  refine .bind ((lower_computes operators lines expression resolved
    number).imp fun lowered limit computes => ?_)
  rw [readValue, if_pos (isDirect_of_expression expression)]
  exact .pure computes

theorem lowerCondition_computes {tree : Tree} (condition : IsCondition tree)
    (resolved : Resolved analysis.symbols (uses context tree)) (number : Nat) :
    Ends (lowerCondition analysis tree) number fun lowered limit =>
      Computes operators lines context tree number limit lowered := by
  refine .bind ((lower_computes operators lines condition.1 resolved
    number).imp fun lowered limit computes => ?_)
  split
  · exact .pure computes
  · rename_i other
    rcases condition.2 with comparison | negation
    · rw [if_pos comparison]
      exact .pure computes
    · exact absurd negation other

end

end OcLang.Oil
