import OcLang.Proofs.Analysis.Reports

namespace OcLang

/-! # The types of the language

Flags and struct names can say more than the language means. A proper type is
`null`, a base, or an array of a base. -/

inductive BaseType where
  | void
  | int
  | string
  | struct (name : String)
deriving DecidableEq, Repr

inductive OcType where
  | null
  | plain (base : BaseType)
  | array (base : BaseType)
deriving DecidableEq, Repr

namespace BaseType

def flags : BaseType → TypeFlags
  | .void => { void := true }
  | .int => { int := true }
  | .string => { string := true }
  | .struct _ => { struct := true }

def structName? : BaseType → Option String
  | .struct name => some name
  | _ => none

end BaseType

namespace OcType

def valueType : OcType → ValueType
  | .null => { flags := { null := true } }
  | .plain base => { flags := base.flags, structName := base.structName? }
  | .array base => { flags := { base.flags with array := true }, structName := base.structName? }

def isReference : OcType → Bool
  | .null | .plain .string | .plain (.struct _) | .array _ => true
  | _ => false

/-- When a value may go where another one is expected: the bases are the same, or
both are arrays and not of different structs, or null takes the place of a reference. -/
def meets : OcType → OcType → Bool
  | .null, other | other, .null => other.isReference
  | .array (.struct first), .array (.struct second) => first == second
  | .array _, .array _ => true
  | .plain first, .plain second | .plain first, .array second | .array first, .plain second =>
      first == second

example : meets (.array .int) (.plain .int) = true ∧ meets (.array .int) (.array .string) = true ∧
    meets .null (.plain .int) = false := by
  decide

end OcType

namespace ValueType

def IsProper (type : ValueType) : Prop :=
  ∃ proper : OcType, type = proper.valueType

def Meets (first second : ValueType) : Prop :=
  ∃ one other : OcType, first = one.valueType ∧ second = other.valueType ∧ one.meets other = true

theorem IsProper.of_eq {type other : ValueType} (proper : other.IsProper) (same : type = other) :
    type.IsProper := by
  rw [same]
  exact proper

theorem IsProper.isTyped {type : ValueType} (proper : type.IsProper) : type.isTyped = true := by
  rcases proper with ⟨proper, rfl⟩
  rcases proper with _ | base | base
  · rfl
  · cases base <;> rfl
  · cases base <;> rfl

theorem compatible_valueType (first second : OcType) :
    first.valueType.compatible second.valueType = first.meets second := by
  have names (one other : String) : (some one == some other) = (one == other) := by
    rw [Bool.eq_iff_iff]
    simp
  have structs (one other : String) :
      (BaseType.struct one == BaseType.struct other) = (one == other) := by
    rw [Bool.eq_iff_iff]
    simp
  rcases first with _ | base | base <;> rcases second with _ | other | other <;>
    try rcases base with _ | _ | _ | name
  all_goals try rcases other with _ | _ | _ | otherName
  all_goals first
    | rfl
    | exact names _ _
    | exact (names _ _).trans (structs _ _).symm

theorem Meets.of_compatible {first second : ValueType} (proper : first.IsProper)
    (properSecond : second.IsProper) (compatible : first.compatible second = true) :
    first.Meets second := by
  rcases proper with ⟨one, rfl⟩
  rcases properSecond with ⟨other, rfl⟩
  rw [compatible_valueType] at compatible
  exact ⟨one, other, rfl, rfl, compatible⟩

theorem IsProper.element {type : ValueType} (proper : type.IsProper)
    (array : type.flags.array = true) :
    ({ type with flags := { type.flags with array := false } } : ValueType).IsProper := by
  rcases proper with ⟨proper, rfl⟩
  rcases proper with _ | base | base
  · contradiction
  · cases base <;> contradiction
  · exact ⟨.plain base, by cases base <;> rfl⟩

theorem IsProper.array {type : ValueType} (proper : type.IsProper)
    (notNull : type.flags.null = false) :
    ({ type with flags := { type.flags with array := true } } : ValueType).IsProper := by
  rcases proper with ⟨proper, rfl⟩
  rcases proper with _ | base | base
  · contradiction
  · exact ⟨.array base, rfl⟩
  · exact ⟨.array base, rfl⟩

end ValueType

/-! ## What is noted -/

namespace Note

variable {note : Note}

structure IsUntyped (note : Note) : Prop where
  type : note.attributes.type = {}
  structName : note.structName = none

theorem IsUntyped.add (untyped : note.IsUntyped) (roles : Roles) :
    (note.add { roles }).IsUntyped where
  type := by
    rw [Note.add]
    show note.attributes.type ∪ {} = {}
    rw [untyped.type]
    rfl
  structName := untyped.structName

theorem type_add (untyped : note.IsUntyped) (attributes : Attributes) :
    (note.add attributes).type = { flags := attributes.type } := by
  rw [Note.add, Note.type]
  show ({ flags := note.attributes.type ∪ attributes.type, structName := note.structName } :
    ValueType) = _
  rw [untyped.type, untyped.structName]
  rfl

theorem type_addType (untyped : note.attributes.type = {}) (type : ValueType) (roles : Roles) :
    (note.addType type roles).type = type := by
  rw [Note.addType, Note.type]
  show ({ flags := note.attributes.type ∪ type.flags, structName := type.structName } :
    ValueType) = _
  rw [untyped]
  rfl

end Note

namespace Check

def NoError (problems : List Problem) : Prop :=
  problems.any (·.severity == .error) = false

@[simp] theorem noError_append (problems more : List Problem) :
    NoError (problems ++ more) ↔ NoError problems ∧ NoError more := by
  simp [NoError, -List.any_eq_false]

theorem requireCompatible_meets (context : String) (expected : ValueType) (value : Tree)
    (state : AnalysisState) :
    Reports (requireCompatible context expected value) state fun _ problems =>
      NoError problems → expected.IsProper → value.note.type.IsProper →
        expected.Meets value.note.type := by
  unfold requireCompatible
  split
  · apply Reports.report
    intro accepted
    contradiction
  · rename_i fine
    apply Reports.pure
    intro _ proper properValue
    apply ValueType.Meets.of_compatible proper properValue
    have typed : value.note.isTyped = true := properValue.isTyped
    simpa [proper.isTyped, typed] using fine

/-- A type node describes a proper type, which is not that of null. -/
theorem declaredType_proper (enclosing : Option String) (declarator : Tree)
    (state : AnalysisState) :
    Reports (declaredType enclosing declarator) state fun declared problems =>
      NoError problems → declared.IsProper ∧ declared.flags.null = false := by
  have marked (base : BaseType) (state : AnalysisState) :
      Reports (if declarator.hasArrayMark = true then pure (OcType.array base).valueType
        else pure (OcType.plain base).valueType) state
        fun declared _ => declared.IsProper ∧ declared.flags.null = false := by
    have notNull : base.flags.null = false := by cases base <;> rfl
    split
    · exact .pure ⟨⟨.array base, rfl⟩, notNull⟩
    · exact .pure ⟨⟨.plain base, rfl⟩, notNull⟩
  have described (base : BaseType) (state : AnalysisState) :
      Reports (if declarator.hasArrayMark = true then pure (OcType.array base).valueType
        else pure (OcType.plain base).valueType) state
        fun declared problems => NoError problems →
          declared.IsProper ∧ declared.flags.null = false :=
    (marked base state).imp fun _ _ proper _ => proper
  have refused (kind : Kind) (state : AnalysisState) : Reports (do
      let base ← (do malformed kind declarator.location; pure ({} : ValueType))
      if declarator.hasArrayMark then
        return { base with flags := { base.flags with array := true } }
      else return base) state fun declared problems => NoError problems →
        declared.IsProper ∧ declared.flags.null = false := by
    apply Reports.bind
    apply Reports.bind
    apply Reports.report
    apply Reports.pure
    split
    all_goals
      apply Reports.pure
      intro accepted
      contradiction
  unfold declaredType
  cases kind : declarator.kind
  case type name =>
    cases name with
    | void => exact .bind (.pure (described .void _))
    | int | char | bool => exact .bind (.pure (described .int _))
    | string => exact .bind (.pure (described .string _))
    | named =>
        apply Reports.bind
        apply Reports.get
        dsimp only
        split
        · exact .bind (.pure (described (.struct declarator.text) _))
        · apply Reports.bind
          apply Reports.report
          apply Reports.bind
          apply Reports.pure
          apply (marked (.struct declarator.text) _).imp
          intro _ _ proper _
          exact proper
  all_goals exact refused _ state

end Check

end OcLang
