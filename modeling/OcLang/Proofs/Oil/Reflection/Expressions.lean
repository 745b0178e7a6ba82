import OcLang.Proofs.Oil.ExpressionLaws
import OcLang.Proofs.Oil.Labels
import OcLang.Proofs.Oil.Mentions
import OcLang.Proofs.Oil.Outline
import OcLang.Proofs.Oil.Variables
import OcLang.Proofs.Tree.Shape

namespace OcLang

open Lexical

/-! # Names in expressions -/

namespace Lexical.Variable

def oilName (held : Variable) : Oil.VariableName :=
  .declared held.scope held.name

def spelling (held : Variable) : String :=
  held.oilName.spelling

theorem spelling_injective {first second : Variable} (equal : first.spelling = second.spelling) :
    first = second := by
  rcases Oil.VariableName.spelling_injective equal with ⟨sameScope, sameName⟩
  cases first
  cases second
  simp_all

theorem mem_map_spelling {held : Variable} {known : List Variable} :
    held.spelling ∈ known.map spelling ↔ held ∈ known := by
  constructor
  · intro member
    rcases List.mem_map.mp member with ⟨other, otherMember, equal⟩
    rwa [← spelling_injective equal]
  · exact List.mem_map_of_mem

end Lexical.Variable

namespace Oil

/-! ## Names that lines mention -/

def usedNames (events : List Event) : List VariableName :=
  (events.filterMap Event.mention?).map Variable.oilName

@[simp] theorem usedNames_nil : usedNames [] = [] := rfl

@[simp] theorem usedNames_append (events more : List Event) :
    usedNames (events ++ more) = usedNames events ++ usedNames more := by
  simp [usedNames]

/-- An expression leaves the names in its lines that are used whether or not its
value is wanted. The others are in its operand. -/
structure Mentions (context : Context) (tree : Tree) (lowered : Lowered) : Prop where
  lines : ∀ name, name ∈ lowered.lines.flatMap Line.mentioned ↔
    name ∈ usedNames (effects context tree)
  all : ∀ name, name ∈ lowered.lines.flatMap Line.mentioned ∨ name ∈ lowered.operand.mentioned ↔
    name ∈ usedNames (uses context tree)

theorem Mentions.of_lines {context : Context} {tree : Tree} {lowered : Lowered}
    (sameUses : effects context tree = uses context tree)
    (lines : ∀ name, name ∈ lowered.lines.flatMap Line.mentioned ↔
      name ∈ usedNames (uses context tree))
    (operand : ∀ name ∈ lowered.operand.mentioned, name ∈ lowered.lines.flatMap Line.mentioned) :
    Mentions context tree lowered where
  lines name := by rw [sameUses, lines]
  all name := by
    rw [← lines]
    exact ⟨fun found => found.elim id (operand name), .inl⟩

section

variable {analysis : Analysis} {context : Context}

theorem compute_mentioned (kind : TemporaryKind) (type : OilType) (lines : List Line)
    (value : Computation) (number : Nat) :
    Ends (compute kind type lines value) number fun lowered _ =>
      lowered.lines.flatMap Line.mentioned = lines.flatMap Line.mentioned ++ value.mentioned ∧
        lowered.operand.mentioned = [] := by
  refine .bind (.modifyGet (.pure ⟨?_, rfl⟩))
  simp [Line.mentioned]

theorem readValue_mentioned (value : Tree) (lowered : Lowered) (number : Nat) :
    Ends (readValue value lowered) number fun result _ => ∀ name,
      name ∈ result.lines.flatMap Line.mentioned ∨ name ∈ result.operand.mentioned ↔
        name ∈ lowered.lines.flatMap Line.mentioned ∨ name ∈ lowered.operand.mentioned := by
  have computed (kind : TemporaryKind) (type : OilType) :
      Ends (compute kind type lowered.lines (.copy lowered.operand)) number fun result _ => ∀ name,
        name ∈ result.lines.flatMap Line.mentioned ∨ name ∈ result.operand.mentioned ↔
          name ∈ lowered.lines.flatMap Line.mentioned ∨ name ∈ lowered.operand.mentioned := by
    refine (compute_mentioned kind type lowered.lines (.copy lowered.operand) number).imp ?_
    rintro result _ ⟨lines, operand⟩ name
    rw [lines, operand]
    simp [Computation.mentioned]
  unfold readValue
  split
  · exact .pure fun name => Iff.rfl
  · split <;> exact computed _ _

theorem lowerLeaf_mentions {node : Tree} (leaf : node.hasOperands = false)
    (resolved : Resolved analysis.symbols (uses context node)) :
    Mentions context node (lowerLeaf analysis node) := by
  have effects := effects_leaf context leaf
  have uses := uses_leaf context leaf
  rw [uses] at resolved effects
  by_cases identifier : node.kind = .identifier
  · have here := resolved (.use context node) (by simp [leafEvents, identifier])
    cases found : context.resolve? node.text with
    | none => simp [Event.unresolved?, found] at here
    | some meant =>
        have named := variableName_use here.1 found
        constructor <;>
          simp [lowerLeaf, identifier, effects, uses, leafEvents, usedNames, Event.mention?, found,
            named, Operand.mentioned, Variable.oilName]
  · have nothing : usedNames (leafEvents context node) = [] := by
      unfold leafEvents usedNames
      split
      · contradiction
      · split <;> simp [Event.mention?]
    have plain : (lowerLeaf analysis node).lines.flatMap Line.mentioned = [] ∧
        (lowerLeaf analysis node).operand.mentioned = [] := by
      unfold lowerLeaf
      split <;> simp_all [Operand.mentioned, noValue, Line.mentioned]
    constructor <;> simp [effects, uses, identifier, nothing, plain]

theorem compute_mentions {tree : Tree} {lines : List Line} {value : Computation}
    (sameUses : effects context tree = uses context tree)
    (names : ∀ name, name ∈ lines.flatMap Line.mentioned ∨ name ∈ value.mentioned ↔
      name ∈ usedNames (uses context tree))
    (kind : TemporaryKind) (type : OilType) (number : Nat) :
    Ends (compute kind type lines value) number fun lowered _ =>
      Mentions context tree lowered := by
  refine (compute_mentioned kind type lines value number).imp ?_
  rintro lowered _ ⟨computed, operand⟩
  refine .of_lines sameUses (fun name => ?_) (by simp [operand])
  rw [computed, List.mem_append]
  exact names name

theorem lowerStore_mentions {location : Location} {text : String} {note : Note}
    {target value : Tree} {lowered source : Lowered} (mentions : Mentions context target lowered)
    (mentionsValue : Mentions context value source) (number : Nat) :
    Ends (lowerStore location lowered value source) number fun result _ =>
      Mentions context ⟨.assign, location, text, note, [target, value]⟩ result := by
  unfold lowerStore
  split
  · rename_i string
    have noNames : usedNames (uses context value) = [] := by
      rcases value with ⟨kind, place, word, valueNote, children⟩
      have literal : kind = .literal .string := by simpa using string
      subst literal
      simp [uses, leafEvents, Kind.isConstant]
    refine .pure (.of_lines rfl (fun name => ?_) fun name stored => ?_)
    · simp [uses, noNames, Line.mentioned_store, Operand.mentioned, ← mentions.all name]
    · simp [Line.mentioned_store, stored]
  · refine .bind ((readValue_mentioned value source number).imp fun read _ same => ?_)
    refine .pure (.of_lines rfl (fun name => ?_) fun name stored => ?_)
    · have here := mentions.all name
      have there := mentionsValue.all name
      have sameNames := same name
      simp only [List.flatMap_append, List.flatMap_cons, List.flatMap_nil, List.append_nil,
        List.mem_append, Line.mentioned_store, uses, usedNames_append]
      grind
    · simp [Line.mentioned_store, stored]

structure MentionEach (context : Context) (trees : List Tree) (code : List Line)
    (operands : List Operand) : Prop where
  lines : ∀ name, name ∈ code.flatMap Line.mentioned ↔ name ∈ usedNames (effectsAll context trees)
  all : ∀ name, name ∈ code.flatMap Line.mentioned ∨ name ∈ Operand.mentionedAll operands ↔
    name ∈ usedNames (usesAll context trees)

theorem lowerUnary_mentions {operator : UnaryOperator} {location : Location} {text : String}
    {note : Note} {operand : Tree} {lowered : Lowered} (mentions : Mentions context operand lowered)
    (number : Nat) :
    Ends (lowerUnary operator lowered) number fun result _ =>
      Mentions context ⟨.unary operator, location, text, note, [operand]⟩ result := by
  cases operator with
  | ord | chr => exact .pure ⟨mentions.lines, mentions.all⟩
  | _ => exact compute_mentions rfl mentions.all _ _ number

theorem lowerBinary_mentions {operator : BinaryOperator} {location : Location} {text : String}
    {note : Note} {left right : Tree} {first second : Lowered}
    (mentions : Mentions context left first) (mentionsRight : Mentions context right second)
    (number : Nat) :
    Ends (lowerBinary operator first second) number fun result _ =>
      Mentions context ⟨.binary operator, location, text, note, [left, right]⟩ result := by
  have names : ∀ name, name ∈ (first.lines ++ second.lines).flatMap Line.mentioned ∨
      name ∈ (Computation.binary operator first.operand second.operand).mentioned ↔
        name ∈ usedNames (uses context ⟨.binary operator, location, text, note, [left, right]⟩) := by
    intro name
    have here := mentions.all name
    have there := mentionsRight.all name
    simp only [List.flatMap_append, List.mem_append, Computation.mentioned, uses, usedNames_append]
    grind
  unfold lowerBinary
  dsimp only
  split <;> exact compute_mentions rfl names _ _ number

structure IsResolved (analysis : Analysis) (context : Context) (tree : Tree) : Prop where
  shaped : tree.IsShaped
  resolved : Resolved analysis.symbols (uses context tree)

theorem isExpressionLaw_mentions : IsExpressionLaw analysis (IsResolved analysis context)
    (fun tree _ lowered _ => Mentions context tree lowered)
    (fun trees _ lines operands _ => MentionEach context trees lines operands) where
  operand here member := ⟨here.shaped.child (Tree.mem_children_of_mem_operands member),
    fun event used => here.resolved event (uses_operand context member used)⟩
  nil _ := ⟨fun _ => Iff.rfl, by simp [Operand.mentionedAll, usesAll]⟩
  cons mentions others := by
    constructor
    · intro name
      simp only [List.flatMap_append, List.mem_append, effectsAll, usedNames_append,
        mentions.lines, others.lines]
    · intro name
      have here := mentions.all name
      have there := others.all name
      simp only [List.flatMap_append, List.mem_append, Operand.mentionedAll, usesAll,
        usedNames_append]
      grind
  call {_ _ _ callee _ _ _ _ _} _ _ mentions := by
    have none : usedNames [.call context callee] = [] := rfl
    exact ⟨mentions.lines, fun name => by
      simpa [uses, none, Operand.mentioned] using mentions.all name⟩
  select _ _ mentions := ⟨mentions.lines, mentions.all⟩
  index _ mentions mentionsPosition := by
    constructor
    · intro name
      simp only [List.flatMap_append, List.mem_append, effects, usedNames_append,
        mentions.lines, mentionsPosition.lines]
    · intro name
      have here := mentions.all name
      have there := mentionsPosition.all name
      simp only [List.flatMap_append, List.mem_append, Operand.mentioned, uses, usedNames_append]
      grind
  newStruct _ number := by
    refine compute_mentions rfl (fun name => ?_) _ _ number
    simp [Computation.mentioned, Operand.mentioned, uses, leafEvents, Kind.isConstant]
  newArray _ mentions := compute_mentions rfl mentions.all _ _ _
  newString _ mentions := compute_mentions rfl mentions.all _ _ _
  assign _ _ mentions mentionsValue := lowerStore_mentions mentions mentionsValue _
  binary _ mentions mentionsRight := lowerBinary_mentions mentions mentionsRight _
  unary _ mentions := lowerUnary_mentions mentions _
  crowded here _ := absurd here.shaped.fault (by simp [Tree.shapeFault?])
  leaf here leaf _ _ := lowerLeaf_mentions leaf here.resolved

/-- The code of an expression mentions the variables that it uses. -/
theorem lower_mentions {tree : Tree} (shaped : tree.IsShaped)
    (resolved : Resolved analysis.symbols (uses context tree)) (number : Nat) :
    Ends (lower analysis tree) number fun lowered _ => Mentions context tree lowered :=
  isExpressionLaw_mentions.expression ⟨shaped, resolved⟩ number

end

end Oil

end OcLang
