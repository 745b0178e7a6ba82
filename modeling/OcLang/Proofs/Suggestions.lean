import Mathlib.Data.List.Perm.Basic
import OcLang.Spelling

namespace OcLang.Spelling

/-! # Suggestions and the order of candidates

The close candidates are put in an order that depends on their spelling alone,
each once. In which order they were listed, and how often, makes no difference. -/

section

variable {first second third : Nat × String}

theorem le_iff : le first second = true ↔
    first.1 < second.1 ∨ first.1 = second.1 ∧ first.2 ≤ second.2 := by
  simp [le]

theorem le_trans (left : le first second = true) (right : le second third = true) :
    le first third = true := by
  rw [le_iff] at *
  rcases left with less | ⟨same, ordered⟩ <;> rcases right with more | ⟨equal, above⟩
  · exact .inl (by omega)
  · exact .inl (by omega)
  · exact .inl (by omega)
  · exact .inr ⟨same.trans equal, String.le_trans ordered above⟩

theorem le_antisymm (left : le first second = true) (right : le second first = true) :
    first = second := by
  rw [le_iff] at *
  rcases left with less | ⟨same, ordered⟩ <;> rcases right with more | ⟨equal, above⟩
  · omega
  · omega
  · omega
  · exact Prod.ext same (String.le_antisymm ordered above)

theorem le_of_not_le (other : le first second = false) : le second first = true := by
  rw [← Bool.not_eq_true, le_iff] at other
  rw [le_iff]
  rcases Nat.lt_trichotomy first.1 second.1 with less | same | more
  · exact absurd (.inl less) other
  · exact .inr ⟨same.symm,
      (String.le_total second.2 first.2).resolve_right fun given => other (.inr ⟨same, given⟩)⟩
  · exact .inl more

end

def IsOrdered (entries : List (Nat × String)) : Prop :=
  entries.Pairwise fun first second => le first second = true ∧ first ≠ second

@[simp] theorem mem_place (entry other : Nat × String) (entries : List (Nat × String)) :
    other ∈ place entry entries ↔ other = entry ∨ other ∈ entries := by
  induction entries with
  | nil => simp [place]
  | cons first rest induction =>
      rw [place]
      split
      · simp_all
      · split <;> simp_all [or_left_comm]

theorem IsOrdered.place {entries : List (Nat × String)} (ordered : IsOrdered entries)
    (entry : Nat × String) : IsOrdered (place entry entries) := by
  induction entries with
  | nil => simp [Spelling.place, IsOrdered]
  | cons first rest induction =>
      obtain ⟨above, below⟩ := List.pairwise_cons.mp ordered
      rw [Spelling.place]
      split
      · exact ordered
      · rename_i different
        split
        · rename_i smaller
          refine List.pairwise_cons.mpr ⟨?_, ordered⟩
          intro other member
          rcases List.mem_cons.mp member with rfl | member
          · exact ⟨smaller, different⟩
          · obtain ⟨larger, distinct⟩ := above other member
            refine ⟨le_trans smaller larger, ?_⟩
            rintro rfl
            exact distinct (le_antisymm larger smaller)
        · rename_i larger
          refine List.pairwise_cons.mpr ⟨?_, induction below⟩
          intro other member
          rcases (mem_place _ _ _).mp member with rfl | member
          · exact ⟨le_of_not_le (by simpa using larger), fun same => different same.symm⟩
          · exact above other member

theorem isOrdered_closest (name : String) (candidates : List String) :
    IsOrdered (closest name candidates) := by
  have ordered : ∀ entries : List (Nat × String), IsOrdered (entries.foldr place []) := by
    intro entries
    induction entries with
    | nil => exact .nil
    | cons entry rest induction => exact induction.place entry
  exact ordered _

theorem mem_closest (name : String) (candidates : List String) (entry : Nat × String) :
    entry ∈ closest name candidates ↔
      entry.2 ∈ candidates ∧ entry.2 ≠ name ∧ entry.1 = distance name entry.2 ∧
        isClose name entry.1 = true := by
  have collected : ∀ entries : List (Nat × String),
      entry ∈ entries.foldr place [] ↔ entry ∈ entries := by
    intro entries
    induction entries with
    | nil => simp
    | cons head rest induction => simp [induction]
  rw [closest, collected, List.mem_filter, List.mem_map]
  constructor
  · rintro ⟨⟨candidate, member, rfl⟩, close⟩
    simp only [List.mem_filter, bne_iff_ne] at member
    exact ⟨member.1, member.2, rfl, close⟩
  · rintro ⟨member, other, same, close⟩
    exact ⟨⟨entry.2, by simp [member, other], Prod.ext same.symm rfl⟩, close⟩

theorem IsOrdered.eq_of_members {first second : List (Nat × String)} (ordered : IsOrdered first)
    (orderedSecond : IsOrdered second) (same : ∀ entry, entry ∈ first ↔ entry ∈ second) :
    first = second := by
  have distinct : ∀ {entries}, IsOrdered entries → entries.Nodup :=
    fun ordered => ordered.imp fun both => both.2
  have perm : first.Perm second :=
    (List.perm_ext_iff_of_nodup (distinct ordered) (distinct orderedSecond)).mpr same
  exact perm.eq_of_pairwise (fun _ _ _ _ left right => le_antisymm left.1 right.1)
    ordered orderedSecond

/-- Which names are visible decides what is suggested, not their order. -/
theorem suggestions_congr (name : String) {first second : List String}
    (same : ∀ candidate, candidate ∈ first ↔ candidate ∈ second) :
    suggestions name first = suggestions name second := by
  have equal : closest name first = closest name second := by
    refine (isOrdered_closest name first).eq_of_members (isOrdered_closest name second) fun entry => ?_
    rw [mem_closest, mem_closest, same]
  rw [suggestions, suggestions, equal]

end OcLang.Spelling
