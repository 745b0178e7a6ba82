import OcLang.Oil.Program

namespace OcLang.Oil

/-! # Variables in generated programs

Lines mention variables and declare variables. A program that a compiler accepts
declares what it mentions, and declares it once. -/

mutual
def Operand.mentioned : Operand → List VariableName
  | .variable name => [name]
  | .cast _ operand => operand.mentioned
  | .field object _ _ => object.mentioned
  | .element array position => array.mentioned ++ position.mentioned
  | .call _ arguments => mentionedAll arguments
  | .literal _ | .temporary _ | .boundString _ | .missing => []

def Operand.mentionedAll : List Operand → List VariableName
  | [] => []
  | operand :: rest => operand.mentioned ++ mentionedAll rest
end

def Computation.mentioned : Computation → List VariableName
  | .copy operand | .unary _ operand => operand.mentioned
  | .binary _ left right => left.mentioned ++ right.mentioned
  | .allocate count _ => count.mentioned

namespace Line

def mentioned : Line → List VariableName
  | .declare _ _ value => value.toList.flatMap Operand.mentioned
  | .compute _ _ value => value.mentioned
  | .store target source => target.mentioned ++ source.mentioned
  | .perform call => call.mentioned
  | .jumpUnless condition _ => condition.mentioned
  | .returnValue value => value.mentioned
  | .jump _ | .anchor _ | .returnVoid | .gap _ => []

theorem mentioned_store (target source : Operand) :
    (Line.store target source).mentioned = target.mentioned ++ source.mentioned := rfl

def declared? : Line → Option String
  | .declare _ name _ => some name.spelling
  | _ => none

end Line

def declaredNames (lines : List Line) : List String :=
  lines.filterMap Line.declared?

def DeclaresFirst (known : List String) : List Line → Prop
  | [] => True
  | line :: rest =>
      (∀ name ∈ line.mentioned, name.spelling ∈ known) ∧
        DeclaresFirst (known ++ line.declared?.toList) rest

def StringBinding.declared? (binding : StringBinding) : Option String :=
  match binding.name with
  | .variable name => some name.spelling
  | _ => none

def Function.parameterNames (function : Function) : List String :=
  (function.parameters.getD []).map (·.name.spelling)

namespace Program

def fileNames (program : Program) : List String :=
  program.strings.filterMap StringBinding.declared? ++ program.globals.map (·.2.spelling)

/-- Every variable that is mentioned is declared: at file scope, as a parameter of
the function, or by an earlier line of the same body. -/
structure DeclaresAll (program : Program) : Prop where
  main : DeclaresFirst program.fileNames program.main
  functions : ∀ function ∈ program.functions,
    DeclaresFirst (program.fileNames ++ function.parameterNames) function.body

/-- No variable is declared by two lines at file scope, by two parameters or lines of
one function, or by a parameter and a line of one function. -/
structure DeclaresOnce (program : Program) : Prop where
  file : program.fileNames.Nodup
  functions : ∀ function ∈ program.functions,
    (function.parameterNames ++ declaredNames function.body).Nodup
  main : (declaredNames program.main).Nodup

end Program

instance decidableDeclaresFirst : (known : List String) → (lines : List Line) →
    Decidable (DeclaresFirst known lines)
  | _, [] => inferInstanceAs (Decidable True)
  | known, line :: rest =>
      have := decidableDeclaresFirst (known ++ line.declared?.toList) rest
      inferInstanceAs (Decidable (_ ∧ _))

instance (program : Program) : Decidable program.DeclaresAll :=
  decidable_of_iff (_ ∧ _) ⟨fun ⟨main, functions⟩ => ⟨main, functions⟩,
    fun all => ⟨all.main, all.functions⟩⟩

instance (program : Program) : Decidable program.DeclaresOnce :=
  decidable_of_iff (_ ∧ _ ∧ _) ⟨fun ⟨file, functions, main⟩ => ⟨file, functions, main⟩,
    fun once => ⟨once.file, once.functions, once.main⟩⟩

/-! ## Lines one after the other -/

section

variable {lines more : List Line}

@[simp] theorem declaredNames_nil : declaredNames [] = [] := rfl

@[simp] theorem declaredNames_append :
    declaredNames (lines ++ more) = declaredNames lines ++ declaredNames more :=
  List.filterMap_append ..

theorem declaresFirst_append (known : List String) :
    DeclaresFirst known (lines ++ more) ↔
      DeclaresFirst known lines ∧ DeclaresFirst (known ++ declaredNames lines) more := by
  induction lines generalizing known with
  | nil => simp [DeclaresFirst]
  | cons line rest induction =>
      have names : declaredNames (line :: rest) = line.declared?.toList ++ declaredNames rest := by
        cases declared : line.declared? <;> simp [declaredNames, declared]
      simp [DeclaresFirst, induction, names, and_assoc]

theorem declaresFirst_iff (none : declaredNames lines = []) (known : List String) :
    DeclaresFirst known lines ↔
      ∀ name ∈ lines.flatMap Line.mentioned, name.spelling ∈ known := by
  induction lines with
  | nil => simp [DeclaresFirst]
  | cons line rest induction =>
      cases declared : line.declared? with
      | some name => simp [declaredNames, declared] at none
      | none =>
          have noneRest : declaredNames rest = [] := by simpa [declaredNames, declared] using none
          simp only [DeclaresFirst, declared, Option.toList_none, List.append_nil,
            induction noneRest, List.flatMap_cons, List.forall_mem_append]

end

end OcLang.Oil
