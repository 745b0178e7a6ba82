import OcLang.Proofs.Oil.Spelling

namespace OcLang.Oil

/-! # Name spaces of generated code

What a generated name stands for shows in its first two characters, and what it is
made from in the rest. A source name cannot make one kind of name look like another. -/

inductive NameSpace where
  | variables
  | functions
  | temporaries
  | structs
  | fields
  | strings
deriving DecidableEq, Repr

inductive GivenName where
  | declared (block : Nat) (text : String)
  | function (text : String)
  | temporary (held : Temporary)
  | structTag (name : String)
  | field (owner text : String)
  | boundString (place : Location)

namespace GivenName

def spelling : GivenName → String
  | .declared block text => (VariableName.declared block text).spelling
  | .function text => functionName text
  | .temporary held => held.spelling
  | .structTag name => Oil.structTag name
  | .field owner text => fieldName owner text
  | .boundString place => (stringLabel place).spelling

def space : GivenName → NameSpace
  | .declared _ _ => .variables
  | .function _ => .functions
  | .temporary _ => .temporaries
  | .structTag _ => .structs
  | .field _ _ => .fields
  | .boundString _ => .strings

end GivenName

def NameSpace.ofSpelling : List Char → NameSpace
  | '_' :: '_' :: _ => .functions
  | '_' :: _ => .variables
  | 'f' :: _ => .fields
  | 's' :: '_' :: _ => .structs
  | 's' :: 't' :: _ => .strings
  | _ => .temporaries

/-- A number is spelled with a character that starts no other part of a name. -/
theorem exists_repr_cons (number : Nat) :
    ∃ digit digits, number.repr.toList = digit :: digits ∧ digit ≠ '_' ∧ digit ≠ 't' := by
  have absent {mark : Char} (noDigit : mark.isDigit = false) : mark ∉ number.repr.toList :=
    not_mem_repr noDigit number
  cases spelled : number.repr.toList with
  | nil => simp at spelled
  | cons digit digits =>
      rw [spelled] at absent
      exact ⟨digit, digits, rfl, (List.ne_of_not_mem_cons (absent rfl)).symm,
        (List.ne_of_not_mem_cons (absent rfl)).symm⟩

theorem NameSpace.ofSpelling_spelling (name : GivenName) :
    ofSpelling name.spelling.toList = name.space := by
  cases name with
  | declared block text =>
      obtain ⟨digit, digits, spelled, noUnderscore, -⟩ := exists_repr_cons block
      simp only [GivenName.spelling, VariableName.spelling, String.toList_append, spelled]
      simp [ofSpelling, GivenName.space, noUnderscore]
  | function text => simp [GivenName.spelling, functionName, ofSpelling, GivenName.space]
  | temporary held =>
      obtain ⟨kind, number⟩ := held
      obtain ⟨digit, digits, spelled, noUnderscore, noLetter⟩ := exists_repr_cons number
      simp only [GivenName.spelling, Temporary.spelling, String.toList_append, spelled]
      cases kind <;>
        simp [TemporaryKind.letter, ofSpelling, GivenName.space, noUnderscore, noLetter]
  | structTag name => simp [GivenName.spelling, Oil.structTag, ofSpelling, GivenName.space]
  | field owner text => simp [GivenName.spelling, fieldName, ofSpelling, GivenName.space]
  | boundString place =>
      simp [GivenName.spelling, stringLabel, Label.spelling, ofSpelling, GivenName.space]

/-- Labels, variables, functions and temporaries are told apart by their spellings, and names of
different name spaces are never spelled alike. -/
theorem spelling_tellsApart :
    Function.Injective Label.spelling ∧
      (∀ block other text name, (VariableName.declared block text).spelling =
        (VariableName.declared other name).spelling → block = other ∧ text = name) ∧
      Function.Injective functionName ∧
      Function.Injective Temporary.spelling ∧
      ∀ first second : GivenName, first.spelling = second.spelling →
        first.space = second.space := by
  refine ⟨fun _ _ => Label.spelling_injective, fun _ _ _ _ => VariableName.spelling_injective,
    functionName_injective, fun _ _ => Temporary.spelling_injective, ?_⟩
  intro first second equal
  rw [← NameSpace.ofSpelling_spelling, equal, NameSpace.ofSpelling_spelling]

/-- Where the name of a struct ends and the name of a field begins does not show, so fields have
no part in this. -/
example : (GivenName.field "a_b" "c").spelling = (GivenName.field "a" "b_c").spelling := by
  decide

end OcLang.Oil
