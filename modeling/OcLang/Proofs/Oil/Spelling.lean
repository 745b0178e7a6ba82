import OcLang.Oil.Name
import OcLang.Proofs.Locations

namespace OcLang

/-! # Spelled names are told apart

Names are made of texts with numbers before or behind them. A number ends at an
underscore, whatever the text is. -/

namespace Oil

theorem functionName_injective : Function.Injective functionName := by
  intro name other same
  exact (String.append_right_inj "__").mp same

theorem VariableName.spelling_injective {block other : Nat} {text name : String}
    (equal : (declared block text).spelling = (declared other name).spelling) :
    block = other ∧ text = name := by
  have spelled := congrArg String.toList equal
  simp only [spelling, String.toList_append, List.append_assoc] at spelled
  have parts := eq_of_append_mark (not_mem_repr (by decide) _) (not_mem_repr (by decide) _)
    (List.append_cancel_left spelled)
  exact ⟨repr_injective (String.toList_injective parts.1), String.toList_injective parts.2⟩

theorem Temporary.spelling_injective {first second : Temporary}
    (equal : first.spelling = second.spelling) : first = second := by
  obtain ⟨kind, number⟩ := first
  obtain ⟨otherKind, otherNumber⟩ := second
  have spelled := congrArg String.toList equal
  cases kind <;> cases otherKind <;>
    simp [spelling, TemporaryKind.letter] at spelled
  all_goals rw [toDigits_injective spelled]

theorem VariableName.head?_spelling (name : VariableName) :
    name.spelling.toList.head? = some '_' := by
  cases name with
  | declared block text => simp [spelling]
  | unresolved block text => by_cases file : block = 0 <;> simp [spelling, file]

theorem Temporary.head?_spelling (temporary : Temporary) :
    temporary.spelling.toList.head? ≠ some '_' := by
  obtain ⟨kind, number⟩ := temporary
  cases kind <;> simp [spelling, TemporaryKind.letter]

theorem VariableName.spelling_ne_temporary (name : VariableName) (temporary : Temporary) :
    name.spelling ≠ temporary.spelling := by
  intro equal
  exact temporary.head?_spelling (equal ▸ name.head?_spelling)

/-- The place is read off the end of a label, so the stem may have any characters. -/
theorem Label.spelling_injective {first second : Label}
    (equal : first.spelling = second.spelling) : first = second := by
  have spelled : first.stem.toList ++ '_' :: first.location.numbers '_' =
      second.stem.toList ++ '_' :: second.location.numbers '_' := by
    simpa [spelling] using congrArg String.toList equal
  have parts := Location.eq_of_append_numbers (by decide) spelled
  obtain ⟨stem, location⟩ := first
  obtain ⟨otherStem, otherLocation⟩ := second
  have sameStem : stem = otherStem := String.toList_injective parts.1
  have sameLocation : location = otherLocation := parts.2
  rw [sameStem, sameLocation]

end Oil

end OcLang
