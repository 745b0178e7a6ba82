import OcLang.Location

namespace OcLang

/-! # Places are told apart by their spellings

A text that is put together with a mark between its parts can be taken apart again
on the side where the mark occurs no further. Digits are no marks, so the numbers of
a place can be read off its spelling. -/

section

variable {mark : Char} {first second rest more : List Char}

/-- Texts that go on behind their first mark are equal in both parts. -/
theorem eq_of_append_mark (plain : mark ∉ first) (plainSecond : mark ∉ second)
    (equal : first ++ mark :: rest = second ++ mark :: more) : first = second ∧ rest = more := by
  induction first generalizing second with
  | nil =>
      cases second with
      | nil => simpa using equal
      | cons c second =>
          simp only [List.nil_append, List.cons_append, List.cons.injEq] at equal
          simp [← equal.1] at plainSecond
  | cons c first induction =>
      cases second with
      | nil =>
          simp only [List.nil_append, List.cons_append, List.cons.injEq] at equal
          simp [equal.1] at plain
      | cons d second =>
          simp only [List.cons_append, List.cons.injEq] at equal
          have both := induction (fun member => plain (List.mem_cons_of_mem _ member))
            (fun member => plainSecond (List.mem_cons_of_mem _ member)) equal.2
          exact ⟨by rw [equal.1, both.1], both.2⟩

theorem eq_of_append_lastMark (plain : mark ∉ rest) (plainMore : mark ∉ more)
    (equal : first ++ mark :: rest = second ++ mark :: more) : first = second ∧ rest = more := by
  have reversed := congrArg List.reverse equal
  simp only [List.reverse_append, List.reverse_cons, List.append_assoc, List.singleton_append]
    at reversed
  have parts := eq_of_append_mark (by simpa using plain) (by simpa using plainMore) reversed
  exact ⟨List.reverse_inj.mp parts.2, List.reverse_inj.mp parts.1⟩

end

theorem not_mem_repr {mark : Char} (noDigit : mark.isDigit = false) (number : Nat) :
    mark ∉ number.repr.toList := by
  intro member
  rw [Nat.toList_repr] at member
  simp [Nat.isDigit_of_mem_toDigits (by omega) (by omega) member] at noDigit

theorem toDigits_injective {first second : Nat}
    (equal : Nat.toDigits 10 first = Nat.toDigits 10 second) : first = second := by
  rw [← Nat.ofDigitChars_ten_toDigits (n := first), equal, Nat.ofDigitChars_ten_toDigits]

theorem repr_injective {first second : Nat} (equal : first.repr = second.repr) :
    first = second := by
  apply toDigits_injective
  rw [← Nat.toList_repr, ← Nat.toList_repr, equal]

namespace Location

def numbers (mark : Char) (location : Location) : List Char :=
  location.file.toNat.repr.toList ++ mark :: (location.line.toNat.repr.toList ++
    mark :: location.column.toNat.repr.toList)

@[simp] theorem toList_key (location : Location) : location.key.toList = location.numbers '_' := by
  simp [key_eq, numbers]

@[simp] theorem toList_display (location : Location) :
    location.display.toList = location.numbers '.' := by
  simp [display_eq, numbers]

theorem not_mem_numbers {c mark : Char} (noDigit : c.isDigit = false) (other : c ≠ mark)
    (location : Location) : c ∉ location.numbers mark := by
  have absent (number : Nat) : c ∉ number.repr.toList := not_mem_repr noDigit number
  simp only [numbers, List.mem_append, List.mem_cons, other, absent, or_self, not_false_eq_true]

/-- Read from its end, a text that ends in the numbers of a place tells them, and what stands
before them. -/
theorem eq_of_append_numbers {mark : Char} (noDigit : mark.isDigit = false)
    {before beforeOther : List Char} {location other : Location}
    (equal : before ++ mark :: location.numbers mark = beforeOther ++ mark :: other.numbers mark) :
    before = beforeOther ∧ location = other := by
  have apart (number : Nat) : mark ∉ number.repr.toList := not_mem_repr noDigit number
  have atColumn : (before ++ mark :: (location.file.toNat.repr.toList ++
        mark :: location.line.toNat.repr.toList)) ++ mark :: location.column.toNat.repr.toList =
      (beforeOther ++ mark :: (other.file.toNat.repr.toList ++
        mark :: other.line.toNat.repr.toList)) ++ mark :: other.column.toNat.repr.toList := by
    simpa [numbers] using equal
  have column := eq_of_append_lastMark (apart _) (apart _) atColumn
  have atLine : (before ++ mark :: location.file.toNat.repr.toList) ++
        mark :: location.line.toNat.repr.toList =
      (beforeOther ++ mark :: other.file.toNat.repr.toList) ++
        mark :: other.line.toNat.repr.toList := by
    simpa using column.1
  have line := eq_of_append_lastMark (apart _) (apart _) atLine
  have file := eq_of_append_lastMark (apart _) (apart _) line.1
  obtain ⟨locationFile, locationLine, locationColumn⟩ := location
  obtain ⟨otherFile, otherLine, otherColumn⟩ := other
  have sameFile := repr_injective (String.toList_injective file.2)
  have sameLine := repr_injective (String.toList_injective line.2)
  have sameColumn := repr_injective (String.toList_injective column.2)
  simp only [UInt32.toNat_inj] at sameFile sameLine sameColumn
  exact ⟨file.1, by rw [sameFile, sameLine, sameColumn]⟩

theorem numbers_injective {mark : Char} (noDigit : mark.isDigit = false)
    {location other : Location} (equal : location.numbers mark = other.numbers mark) :
    location = other := by
  have marked : [] ++ mark :: location.numbers mark = [] ++ mark :: other.numbers mark := by
    rw [equal]
  exact (eq_of_append_numbers noDigit marked).2

end Location

end OcLang
