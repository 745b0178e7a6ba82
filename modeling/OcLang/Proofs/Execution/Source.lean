import OcLang.Proofs.Execution.Operators
import OcLang.Proofs.Tree.Skeleton

namespace OcLang.Source

/-! # Running integer programs

An integer program is run by walking through its tree. Values are kept in frames,
one for every open block and one for the file, the innermost first. -/

abbrev Frame := List (String × Int)

def find? (frames : List Frame) (name : String) : Option Int :=
  frames.findSome? fun frame => frame.lookup name

def declare (name : String) (value : Int) : List Frame → List Frame
  | [] => []
  | frame :: outer => ((name, value) :: frame) :: outer

def assign (name : String) (value : Int) : List Frame → Option (List Frame)
  | [] => none
  | frame :: outer =>
      if (frame.lookup name).isSome then some (((name, value) :: frame) :: outer)
      else (assign name value outer).map (frame :: ·)

inductive Outcome where
  | done (frames : List Frame)
  | stuck
  /-- Some loop did not end in the given number of rounds. -/
  | timeout

def Outcome.andThen (outcome : Outcome) (next : List Frame → Outcome) : Outcome :=
  match outcome with
  | .done frames => next frames
  | .stuck => .stuck
  | .timeout => .timeout

section

variable (operators : Operators)

def value? (frames : List Frame) : Tree → Option Int
  | ⟨.literal .int, _, text, _, _⟩ => some (operators.number (Nat.ofDigitChars 10 text.toList 0))
  | ⟨.identifier, _, text, _, _⟩ => find? frames text
  | ⟨.binary operator, _, _, _, [left, right]⟩ => do
      return operators.binary operator (← value? frames left) (← value? frames right)
  | ⟨.unary operator, _, _, _, [operand]⟩ => do
      return operators.unary operator (← value? frames operand)
  | _ => none

def choose (test : Option Int) (consequence alternative : Outcome) : Outcome :=
  match test with
  | none => .stuck
  | some value => if value = 0 then alternative else consequence

def repeatWhile (test : List Frame → Option Int) (body : List Frame → Outcome) :
    Nat → List Frame → Outcome
  | 0, _ => .timeout
  | rounds + 1, frames =>
      choose (test frames) ((body frames).andThen (repeatWhile test body rounds)) (.done frames)

mutual
/-- Run a statement. No loop may take more than the given number of rounds each
time it is met. -/
def run (rounds : Nat) : Tree → List Frame → Outcome
  | ⟨.variable, _, _, _, [declarator, value]⟩, frames =>
      match declarator.declaredName?, value? operators frames value with
      | some name, some value => .done (declare name.text value frames)
      | _, _ => .stuck
  | ⟨.assign, _, _, _, [target, value]⟩, frames =>
      match (value? operators frames value).bind fun value => assign target.text value frames with
      | some frames => .done frames
      | none => .stuck
  | ⟨.block, _, _, _, children⟩, frames =>
      (runAll rounds children ([] :: frames)).andThen fun frames => .done frames.tail
  | ⟨.whileLoop, _, _, _, [test, body]⟩, frames =>
      repeatWhile (fun frames => value? operators frames test) (run rounds body) rounds frames
  | ⟨.ifThen, _, _, _, [test, consequence]⟩, frames =>
      choose (value? operators frames test) (run rounds consequence frames) (.done frames)
  | ⟨.ifElse, _, _, _, [test, consequence, alternative]⟩, frames =>
      choose (value? operators frames test) (run rounds consequence frames)
        (run rounds alternative frames)
  | _, _ => .stuck

def runAll (rounds : Nat) : List Tree → List Frame → Outcome
  | [], frames => .done frames
  | tree :: rest, frames => (run rounds tree frames).andThen (runAll rounds rest)
end

def EndsWith (root : Tree) (file : Frame) : Prop :=
  ∃ rounds, runAll operators rounds root.children [[]] = .done [file]

end

/-! ## Integer programs -/

inductive IsExpression : Tree → Prop
  | literal (location : Location) (text : String) (note : Note) (filled : text ≠ "")
      (digits : text.toList.all (·.isDigit) = true) :
      IsExpression ⟨.literal .int, location, text, note, []⟩
  | identifier (location : Location) (text : String) (note : Note) :
      IsExpression ⟨.identifier, location, text, note, []⟩
  | binary (operator : BinaryOperator) (location : Location) (text : String) (note : Note)
      (left right : Tree) (whole : operator ≠ .div ∧ operator ≠ .rem)
      (first : IsExpression left) (second : IsExpression right) :
      IsExpression ⟨.binary operator, location, text, note, [left, right]⟩
  | unary (operator : UnaryOperator) (location : Location) (text : String) (note : Note)
      (operand : Tree) (computes : operator.isConversion = false)
      (inner : IsExpression operand) :
      IsExpression ⟨.unary operator, location, text, note, [operand]⟩

def IsCondition (tree : Tree) : Prop :=
  IsExpression tree ∧ (tree.kind.isComparison = true ∨ tree.kind = .unary .not)

/-- Statements of integer programs. A declaration stands directly in a block or in
the file. -/
inductive IsStatement : (mayDeclare : Bool) → Tree → Prop
  | declaration (location place : Location) (text word : String) (note typeNote : Note)
      (name value : Tree) (named : name.kind = .declaredName) (expression : IsExpression value) :
      IsStatement true
        ⟨.variable, location, text, note, [⟨.type .int, place, word, typeNote, [name]⟩, value]⟩
  | assign (mayDeclare : Bool) (location place : Location) (text name : String)
      (note nameNote : Note) (value : Tree) (expression : IsExpression value) :
      IsStatement mayDeclare
        ⟨.assign, location, text, note, [⟨.identifier, place, name, nameNote, []⟩, value]⟩
  | block (mayDeclare : Bool) (location : Location) (text : String) (note : Note)
      (children : List Tree) (statements : ∀ child ∈ children, IsStatement true child) :
      IsStatement mayDeclare ⟨.block, location, text, note, children⟩
  | whileLoop (mayDeclare : Bool) (location : Location) (text : String) (note : Note)
      (test body : Tree) (condition : IsCondition test) (inner : IsStatement false body) :
      IsStatement mayDeclare ⟨.whileLoop, location, text, note, [test, body]⟩
  | ifThen (mayDeclare : Bool) (location : Location) (text : String) (note : Note)
      (test consequence : Tree) (condition : IsCondition test)
      (inner : IsStatement false consequence) :
      IsStatement mayDeclare ⟨.ifThen, location, text, note, [test, consequence]⟩
  | ifElse (mayDeclare : Bool) (location : Location) (text : String) (note : Note)
      (test consequence alternative : Tree) (condition : IsCondition test)
      (first : IsStatement false consequence) (second : IsStatement false alternative) :
      IsStatement mayDeclare ⟨.ifElse, location, text, note, [test, consequence, alternative]⟩

theorem IsStatement.nested {mayDeclare : Bool} {tree : Tree}
    (statement : IsStatement mayDeclare tree) (other : tree.kind ≠ .variable) :
    IsStatement false tree := by
  cases statement with
  | declaration => exact absurd rfl other
  | assign _ _ _ _ _ _ _ _ expression => exact .assign _ _ _ _ _ _ _ _ expression
  | block _ _ _ _ _ statements => exact .block _ _ _ _ _ statements
  | whileLoop _ _ _ _ _ _ condition inner => exact .whileLoop _ _ _ _ _ _ condition inner
  | ifThen _ _ _ _ _ _ condition inner => exact .ifThen _ _ _ _ _ _ condition inner
  | ifElse _ _ _ _ _ _ _ condition first second =>
      exact .ifElse _ _ _ _ _ _ _ condition first second

structure IsProgram (root : Tree) : Prop where
  isRoot : root.kind = .root
  statements : ∀ child ∈ root.children, IsStatement true child

/-! Notes do not make an integer program. -/

theorem IsExpression.congr {tree other : Tree} (expression : IsExpression tree)
    (same : other.bare = tree.bare) : IsExpression other := by
  induction expression generalizing other with
  | literal location text note filled digits =>
      obtain ⟨note, children, rfl, sameChildren⟩ := Tree.exists_of_bare_eq same
      obtain rfl : children = [] := by simpa using sameChildren
      exact .literal _ _ _ filled digits
  | identifier location text note =>
      obtain ⟨note, children, rfl, sameChildren⟩ := Tree.exists_of_bare_eq same
      obtain rfl : children = [] := by simpa using sameChildren
      exact .identifier _ _ _
  | binary operator location text note left right whole first second induction inductionSecond =>
      obtain ⟨note, children, rfl, sameChildren⟩ := Tree.exists_of_bare_eq same
      simp only [List.map_cons, List.map_nil, List.map_eq_cons_iff, List.map_eq_nil_iff]
        at sameChildren
      obtain ⟨left, _, rfl, sameLeft, right, _, rfl, sameRight, rfl⟩ := sameChildren
      exact .binary _ _ _ _ _ _ whole (induction sameLeft) (inductionSecond sameRight)
  | unary operator location text note operand computes inner induction =>
      obtain ⟨note, children, rfl, sameChildren⟩ := Tree.exists_of_bare_eq same
      simp only [List.map_cons, List.map_nil, List.map_eq_cons_iff, List.map_eq_nil_iff]
        at sameChildren
      obtain ⟨operand, _, rfl, sameOperand, rfl⟩ := sameChildren
      exact .unary _ _ _ _ _ computes (induction sameOperand)

theorem IsCondition.congr {tree other : Tree} (condition : IsCondition tree)
    (same : other.bare = tree.bare) : IsCondition other := by
  have sameKind := ((Tree.bare_eq_iff _ _).mp same).1
  exact ⟨condition.1.congr same, by rw [sameKind]; exact condition.2⟩

theorem IsStatement.congr {mayDeclare : Bool} {tree other : Tree}
    (statement : IsStatement mayDeclare tree) (same : other.bare = tree.bare) :
    IsStatement mayDeclare other := by
  induction statement generalizing other with
  | declaration location place text word note typeNote name value named expression =>
      obtain ⟨note, children, rfl, sameChildren⟩ := Tree.exists_of_bare_eq same
      simp only [List.map_cons, List.map_nil, List.map_eq_cons_iff, List.map_eq_nil_iff]
        at sameChildren
      obtain ⟨declarator, _, rfl, sameDeclarator, value, _, rfl, sameValue, rfl⟩ := sameChildren
      obtain ⟨typeNote, names, rfl, sameNames⟩ := Tree.exists_of_bare_eq sameDeclarator
      simp only [List.map_cons, List.map_nil, List.map_eq_cons_iff, List.map_eq_nil_iff]
        at sameNames
      obtain ⟨name, _, rfl, sameName, rfl⟩ := sameNames
      have sameKind := ((Tree.bare_eq_iff _ _).mp sameName).1
      exact .declaration _ _ _ _ _ _ _ _ (by rw [sameKind, named]) (expression.congr sameValue)
  | assign mayDeclare location place text name note nameNote value expression =>
      obtain ⟨note, children, rfl, sameChildren⟩ := Tree.exists_of_bare_eq same
      simp only [List.map_cons, List.map_nil, List.map_eq_cons_iff, List.map_eq_nil_iff]
        at sameChildren
      obtain ⟨target, _, rfl, sameTarget, value, _, rfl, sameValue, rfl⟩ := sameChildren
      obtain ⟨targetNote, children, rfl, sameChildren⟩ := Tree.exists_of_bare_eq sameTarget
      obtain rfl : children = [] := by simpa using sameChildren
      exact .assign _ _ _ _ _ _ _ _ (expression.congr sameValue)
  | block mayDeclare location text note children statements induction =>
      obtain ⟨note, others, rfl, sameChildren⟩ := Tree.exists_of_bare_eq same
      refine .block _ _ _ _ _ fun child member => ?_
      have listed : child.bare ∈ children.map Tree.bare := by
        rw [← sameChildren]
        exact List.mem_map_of_mem member
      obtain ⟨original, originalMember, sameChild⟩ := List.mem_map.mp listed
      exact induction original originalMember sameChild.symm
  | whileLoop mayDeclare location text note test body condition inner induction =>
      obtain ⟨note, children, rfl, sameChildren⟩ := Tree.exists_of_bare_eq same
      simp only [List.map_cons, List.map_nil, List.map_eq_cons_iff, List.map_eq_nil_iff]
        at sameChildren
      obtain ⟨test, _, rfl, sameTest, body, _, rfl, sameBody, rfl⟩ := sameChildren
      exact .whileLoop _ _ _ _ _ _ (condition.congr sameTest) (induction sameBody)
  | ifThen mayDeclare location text note test consequence condition inner induction =>
      obtain ⟨note, children, rfl, sameChildren⟩ := Tree.exists_of_bare_eq same
      simp only [List.map_cons, List.map_nil, List.map_eq_cons_iff, List.map_eq_nil_iff]
        at sameChildren
      obtain ⟨test, _, rfl, sameTest, body, _, rfl, sameBody, rfl⟩ := sameChildren
      exact .ifThen _ _ _ _ _ _ (condition.congr sameTest) (induction sameBody)
  | ifElse mayDeclare location text note test consequence alternative condition first second
      induction inductionSecond =>
      obtain ⟨note, children, rfl, sameChildren⟩ := Tree.exists_of_bare_eq same
      simp only [List.map_cons, List.map_nil, List.map_eq_cons_iff, List.map_eq_nil_iff]
        at sameChildren
      obtain ⟨test, _, rfl, sameTest, one, _, rfl, sameOne, two, _, rfl, sameTwo, rfl⟩ :=
        sameChildren
      exact .ifElse _ _ _ _ _ _ _ (condition.congr sameTest) (induction sameOne)
        (inductionSecond sameTwo)

section

variable {operators : Operators}

theorem value?_bare {tree : Tree} (expression : IsExpression tree) (frames : List Frame) :
    value? operators frames tree.bare = value? operators frames tree := by
  induction expression with
  | literal => rfl
  | identifier => rfl
  | binary operator location text note left right whole first second induction inductionSecond =>
      simp [Tree.bare_mk, value?, induction, inductionSecond]
  | unary operator location text note operand computes inner induction =>
      simp [Tree.bare_mk, value?, induction]

private theorem runAll_bare {rounds : Nat} {children : List Tree}
    (each : ∀ child ∈ children, ∀ frames,
      run operators rounds child.bare frames = run operators rounds child frames)
    (frames : List Frame) :
    runAll operators rounds (children.map Tree.bare) frames =
      runAll operators rounds children frames := by
  induction children generalizing frames with
  | nil => rfl
  | cons child rest induction =>
      have same : runAll operators rounds (rest.map Tree.bare) = runAll operators rounds rest :=
        funext (induction fun tree member => each tree (by simp [member]))
      simp [runAll, each child (by simp), same]

theorem run_bare {mayDeclare : Bool} {tree : Tree} (statement : IsStatement mayDeclare tree)
    (rounds : Nat) (frames : List Frame) :
    run operators rounds tree.bare frames = run operators rounds tree frames := by
  induction statement generalizing frames with
  | declaration location place text word note typeNote name value named expression =>
      simp only [Tree.bare_mk, List.map_cons, List.map_nil, run, value?_bare expression]
      cases value? operators frames value <;>
        simp [Tree.declaredName?, named, Kind.isNaming, Option.filter]
  | assign mayDeclare location place text name note nameNote value expression =>
      simp [Tree.bare_mk, run, value?_bare expression]
  | block mayDeclare location text note children statements induction =>
      simp [Tree.bare_mk, run, runAll_bare induction]
  | whileLoop mayDeclare location text note test body condition inner induction =>
      have same : run operators rounds body.bare = run operators rounds body := funext induction
      simp [Tree.bare_mk, run, value?_bare condition.1, same]
  | ifThen mayDeclare location text note test consequence condition inner induction =>
      simp [Tree.bare_mk, run, value?_bare condition.1, induction]
  | ifElse mayDeclare location text note test consequence alternative condition first second
      induction inductionSecond =>
      simp [Tree.bare_mk, run, value?_bare condition.1, induction, inductionSecond]

theorem runAll_congr {trees others : List Tree}
    (statements : ∀ tree ∈ trees, IsStatement true tree)
    (same : others.map Tree.bare = trees.map Tree.bare) (rounds : Nat) (frames : List Frame) :
    runAll operators rounds others frames = runAll operators rounds trees frames := by
  have also : ∀ other ∈ others, IsStatement true other := by
    intro other member
    have listed : other.bare ∈ trees.map Tree.bare := by
      rw [← same]
      exact List.mem_map_of_mem member
    obtain ⟨tree, treeMember, sameTree⟩ := List.mem_map.mp listed
    exact (statements tree treeMember).congr sameTree.symm
  rw [← runAll_bare fun other member => run_bare (also other member) rounds, same,
    runAll_bare fun tree member => run_bare (statements tree member) rounds]

end

def declaredVariable? : Tree → Option String
  | ⟨.variable, _, _, _, declarator :: _⟩ => declarator.declaredName?.map (·.text)
  | _ => none

theorem declaredVariable?_bare (tree : Tree) :
    declaredVariable? tree.bare = declaredVariable? tree := by
  obtain ⟨kind, location, text, note, children⟩ := tree
  cases children <;> cases kind <;>
    simp [Tree.bare_mk, declaredVariable?, Function.comp_def]

def fileVariables (root : Tree) : List String :=
  root.children.filterMap declaredVariable?

end OcLang.Source
