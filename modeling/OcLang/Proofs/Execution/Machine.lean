import OcLang.Proofs.Execution.Operators
import OcLang.Proofs.Oil.Labels

namespace OcLang.Oil

/-! # Running generated lines

A machine runs the lines of a body one by one. Its memory knows variables and
temporaries by the spelling of their names only, and jumps look for the line
that anchors their label. Lines that integer programs do not need stop the
machine. -/

structure Cell where
  type : OilType
  value : Int

abbrev Memory := String → Option Cell

def Memory.set (memory : Memory) (name : String) (cell : Cell) : Memory :=
  fun other => if other = name then some cell else memory other

/-- A number as a variable of some type holds it; characters have eight bits. -/
def OilType.hold : OilType → Int → Int
  | .char, value => value.bmod 256
  | _, value => value

/-- The number that a literal means. Digits behind a zero are octal. -/
def literalNumber? (text : String) : Option Nat :=
  match text.toList with
  | [] => none
  | ['0'] => some 0
  | '0' :: digits =>
      if digits.all fun digit => digit.isDigit && digit < '8' then
        some (Nat.ofDigitChars 8 digits 0)
      else none
  | digits => if digits.all (·.isDigit) then some (Nat.ofDigitChars 10 digits 0) else none

/-- A place in a running body: the number of the next line, and the memory. -/
structure Config where
  counter : Nat
  memory : Memory

section

variable (operators : Operators)

def Operand.value? (memory : Memory) : Operand → Option Int
  | .literal text => (literalNumber? text).map operators.number
  | .variable name => (memory name.spelling).map (·.value)
  | .temporary held => (memory held.spelling).map (·.value)
  | _ => none

def Computation.value? (memory : Memory) : Computation → Option Int
  | .copy operand => operand.value? operators memory
  | .binary operator left right => do
      return operators.binary operator (← left.value? operators memory)
        (← right.value? operators memory)
  | .unary operator operand => do
      return operators.unary operator (← operand.value? operators memory)
  | .allocate _ _ => none

def Config.write (config : Config) (name : String) (type : OilType) (value : Int) : Config where
  counter := config.counter + 1
  memory := config.memory.set name { type, value := type.hold value }

def Config.next (config : Config) : Config :=
  { config with counter := config.counter + 1 }

def Line.marks (line : Line) (label : Label) : Bool :=
  match line with
  | .anchor other => other.spelling == label.spelling
  | _ => false

def Config.goto (lines : List Line) (config : Config) (label : Label) : Option Config :=
  (lines.findIdx? (·.marks label)).map fun counter => { config with counter }

def step (lines : List Line) (config : Config) : Option Config :=
  match lines[config.counter]? with
  | some (.declare type name (some value)) => do
      let value ← value.value? operators config.memory
      return config.write name.spelling type value
  | some (.compute type temporary value) => do
      let value ← value.value? operators config.memory
      return config.write temporary.spelling type value
  | some (.store (.variable name) source) => do
      let cell ← config.memory name.spelling
      let value ← source.value? operators config.memory
      return config.write name.spelling cell.type value
  | some (.jumpUnless condition label) => do
      let value ← condition.value? operators config.memory
      if value = 0 then config.goto lines label else return config.next
  | some (.jump label) => config.goto lines label
  | some (.anchor _) => some config.next
  | _ => none

def runFor (lines : List Line) : Nat → Config → Option Config
  | 0, config => some config
  | count + 1, config => (step operators lines config).bind (runFor lines count)

def Program.start (program : Program) : Memory := fun name =>
  (program.globals.find? (·.2.spelling = name)).map fun declared =>
    { type := declared.1, value := 0 }

def Program.EndsWith (program : Program) (memory : Memory) : Prop :=
  ∃ count, runFor operators program.main count ⟨0, program.start⟩ =
    some ⟨program.main.length, memory⟩

end

/-! ## Runs -/

section

variable {operators : Operators} {lines : List Line}

theorem runFor_add (first second : Nat) (config : Config) :
    runFor operators lines (first + second) config =
      (runFor operators lines first config).bind (runFor operators lines second) := by
  induction first generalizing config with
  | zero => simp [runFor]
  | succ first induction =>
      rw [Nat.succ_add]
      simp only [runFor, Option.bind_assoc]
      congr 1
      funext next
      exact induction next

variable (operators lines) in
def Reaches (config final : Config) : Prop :=
  ∃ count, runFor operators lines count config = some final

variable (operators lines) in
def Survives (count : Nat) (config : Config) : Prop :=
  (runFor operators lines count config).isSome = true

theorem Reaches.refl (config : Config) : Reaches operators lines config config := ⟨0, rfl⟩

theorem Reaches.trans {config middle final : Config}
    (first : Reaches operators lines config middle)
    (second : Reaches operators lines middle final) : Reaches operators lines config final := by
  obtain ⟨count, reached⟩ := first
  obtain ⟨more, reachedFinal⟩ := second
  exact ⟨count + more, by simp [runFor_add, reached, reachedFinal]⟩

theorem Reaches.step {config final : Config}
    (stepped : Oil.step operators lines config = some final) :
    Reaches operators lines config final :=
  ⟨1, by simp [runFor, stepped]⟩

theorem Survives.of_le {count more : Nat} {config : Config}
    (survives : Survives operators lines more config) (fewer : count ≤ more) :
    Survives operators lines count config := by
  obtain ⟨rest, rfl⟩ := Nat.exists_eq_add_of_le fewer
  unfold Survives at survives ⊢
  rw [runFor_add] at survives
  cases reached : runFor operators lines count config <;> simp_all

theorem Survives.of_reaches {count : Nat} {config middle : Config}
    (survives : Survives operators lines count middle)
    (reaches : Reaches operators lines config middle) : Survives operators lines count config := by
  obtain ⟨first, reached⟩ := reaches
  have further : Survives operators lines (first + count) config := by
    unfold Survives
    rw [runFor_add, reached]
    exact survives
  exact further.of_le (Nat.le_add_left _ _)

theorem Survives.of_step {count : Nat} {config middle : Config}
    (survives : Survives operators lines count middle)
    (stepped : Oil.step operators lines config = some middle) :
    Survives operators lines (count + 1) config := by
  unfold Survives at survives ⊢
  simpa [runFor, stepped] using survives

theorem runFor_end (memory : Memory) (count : Nat) :
    runFor operators lines (count + 1) ⟨lines.length, memory⟩ = none := by
  simp [runFor, Oil.step]

theorem Reaches.unique {config : Config} {first second : Memory}
    (one : Reaches operators lines config ⟨lines.length, first⟩)
    (other : Reaches operators lines config ⟨lines.length, second⟩) : first = second := by
  obtain ⟨count, reached⟩ := one
  obtain ⟨more, reachedToo⟩ := other
  rcases Nat.lt_trichotomy count more with less | rfl | less
  · obtain ⟨rest, rfl⟩ := Nat.exists_eq_add_of_lt less
    rw [Nat.add_assoc, runFor_add, reached, Option.bind_some, runFor_end] at reachedToo
    contradiction
  · rw [reached] at reachedToo
    simpa using reachedToo
  · obtain ⟨rest, rfl⟩ := Nat.exists_eq_add_of_lt less
    rw [Nat.add_assoc, runFor_add, reachedToo, Option.bind_some, runFor_end] at reached
    contradiction

theorem Reaches.bounded {config : Config} {memory : Memory}
    (reaches : Reaches operators lines config ⟨lines.length, memory⟩) :
    ∃ count, ¬Survives operators lines count config := by
  obtain ⟨count, reached⟩ := reaches
  refine ⟨count + 1, ?_⟩
  unfold Survives
  rw [runFor_add, reached, Option.bind_some, runFor_end]
  simp

/-! ## Parts of a body -/

variable (lines) in
def CodeAt (counter : Nat) (code : List Line) : Prop :=
  ∃ before behind, lines = before ++ code ++ behind ∧ before.length = counter

namespace CodeAt

variable {counter : Nat} {code more : List Line} {line : Line}

theorem whole : CodeAt lines 0 lines := ⟨[], [], by simp, rfl⟩

theorem left (stands : CodeAt lines counter (code ++ more)) : CodeAt lines counter code := by
  obtain ⟨before, behind, rfl, rfl⟩ := stands
  exact ⟨before, more ++ behind, by simp, rfl⟩

theorem right (stands : CodeAt lines counter (code ++ more)) :
    CodeAt lines (counter + code.length) more := by
  obtain ⟨before, behind, rfl, rfl⟩ := stands
  exact ⟨before ++ code, behind, by simp, by simp⟩

theorem head (stands : CodeAt lines counter (line :: more)) : lines[counter]? = some line := by
  obtain ⟨before, behind, rfl, rfl⟩ := stands
  simp

theorem tail (stands : CodeAt lines counter (line :: more)) :
    CodeAt lines (counter + 1) more := by
  obtain ⟨before, behind, rfl, rfl⟩ := stands
  exact ⟨before ++ [line], behind, by simp, by simp⟩

theorem at_eq {place : Nat} (stands : CodeAt lines counter code) (equal : counter = place) :
    CodeAt lines place code :=
  equal ▸ stands

theorem goto {label : Label} (stands : CodeAt lines counter (.anchor label :: more))
    (distinct : ((anchors lines).map (·.spelling)).Nodup) (config : Config) :
    config.goto lines label = some ⟨counter, config.memory⟩ := by
  obtain ⟨before, behind, rfl, rfl⟩ := stands
  have unmarked : before.findIdx? (·.marks label) = none := by
    refine List.findIdx?_eq_none_iff.mpr fun line member => ?_
    refine Bool.eq_false_iff.mpr fun marked => ?_
    obtain ⟨other, rfl, same⟩ : ∃ other, line = .anchor other ∧ other.spelling = label.spelling := by
      cases line <;> simp_all [Line.marks]
    have listed : other.spelling ∈ (anchors before).map (·.spelling) :=
      List.mem_map_of_mem (List.mem_filterMap.mpr ⟨_, member, rfl⟩)
    simp only [anchors_append, List.map_append, List.append_assoc, List.nodup_append] at distinct
    exact distinct.2.2 _ listed label.spelling (by simp [Line.anchor?]) same
  rw [Config.goto, List.append_assoc, List.findIdx?_append, unmarked]
  simp [List.findIdx?_cons, Line.marks]

end CodeAt

end

end OcLang.Oil
