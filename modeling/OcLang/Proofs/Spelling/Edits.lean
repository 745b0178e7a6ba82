import Mathlib.Order.Bounds.Basic

namespace OcLang.Spelling

/-! # Edits of texts

How far two texts are apart can be said in two ways: by the number of characters
that have to be changed, and by a recursion over the characters of both. -/

inductive Edit : List Char → List Char → Prop where
  | insertion (before after : List Char) (c : Char) : Edit (before ++ after) (before ++ c :: after)
  | deletion (before after : List Char) (c : Char) : Edit (before ++ c :: after) (before ++ after)
  | substitution (before after : List Char) (c d : Char) :
      Edit (before ++ c :: after) (before ++ d :: after)

inductive Edits : Nat → List Char → List Char → Prop where
  | done (text : List Char) : Edits 0 text text
  | edit {number : Nat} {source between target : List Char} (first : Edit source between)
      (rest : Edits number between target) : Edits (number + 1) source target

/-- The distance by recursion. Two texts that both have a first character are
compared without these characters, or one of the two is left out of its text. -/
def levenshtein : List Char → List Char → Nat
  | [], target => target.length
  | c :: source, [] => source.length + 1
  | c :: source, d :: target =>
      min (min (levenshtein source target + if c = d then 0 else 1)
        (levenshtein (c :: source) target + 1)) (levenshtein source (d :: target) + 1)
termination_by source target => source.length + target.length

@[simp] theorem levenshtein_nil_left (target : List Char) :
    levenshtein [] target = target.length := by
  rw [levenshtein]

@[simp] theorem levenshtein_nil_right (source : List Char) :
    levenshtein source [] = source.length := by
  cases source <;> simp [levenshtein]

theorem levenshtein_cons_cons (c d : Char) (source target : List Char) :
    levenshtein (c :: source) (d :: target) =
      min (min (levenshtein source target + if c = d then 0 else 1)
        (levenshtein (c :: source) target + 1)) (levenshtein source (d :: target) + 1) := by
  rw [levenshtein]

/-! ## The distance is reached -/

theorem Edit.behind (c : Char) {source target : List Char} (edit : Edit source target) :
    Edit (c :: source) (c :: target) := by
  cases edit with
  | insertion before after inserted => exact .insertion (c :: before) after inserted
  | deletion before after deleted => exact .deletion (c :: before) after deleted
  | substitution before after old new => exact .substitution (c :: before) after old new

theorem Edits.behind (c : Char) {number : Nat} {source target : List Char}
    (edits : Edits number source target) : Edits number (c :: source) (c :: target) := by
  induction edits with
  | done text => exact .done (c :: text)
  | edit first rest induction => exact .edit (first.behind c) induction

theorem edits_inserting (target : List Char) : Edits target.length [] target := by
  induction target with
  | nil => exact .done []
  | cons d target induction => exact .edit (.insertion [] [] d) (induction.behind d)

theorem edits_deleting (source : List Char) : Edits source.length source [] := by
  induction source with
  | nil => exact .done []
  | cons c source induction => exact .edit (.deletion [] source c) induction

theorem Edits.fewer {number other : Nat} {source target : List Char}
    (edits : Edits number source target) (others : Edits other source target) :
    Edits (min number other) source target := by
  rw [Nat.min_def]
  split
  · exact edits
  · exact others

/-- As many edits as the recursion counts are enough. -/
theorem edits_levenshtein (source target : List Char) :
    Edits (levenshtein source target) source target := by
  induction source, target using levenshtein.induct with
  | case1 target =>
      rw [levenshtein_nil_left]
      exact edits_inserting target
  | case2 c source =>
      rw [levenshtein_nil_right]
      exact edits_deleting (c :: source)
  | case3 c source d target both left right =>
      have together : Edits (levenshtein source target + if c = d then 0 else 1)
          (c :: source) (d :: target) := by
        by_cases same : c = d
        · subst same
          simpa using both.behind c
        · simpa [same] using .edit (.substitution [] source c d) (both.behind d)
      have inserted : Edits (levenshtein (c :: source) target + 1) (c :: source) (d :: target) :=
        .edit (.insertion [] (c :: source) d) (left.behind d)
      have deleted : Edits (levenshtein source (d :: target) + 1) (c :: source) (d :: target) :=
        .edit (.deletion [] source c) right
      rw [levenshtein_cons_cons]
      exact (together.fewer inserted).fewer deleted

/-! ## Fewer edits do not lead there

An edit of the source changes the distance by one at most, wherever it is made. -/

@[simp] theorem levenshtein_self (text : List Char) : levenshtein text text = 0 := by
  induction text with
  | nil => simp
  | cons c text induction => simp [levenshtein_cons_cons, induction]

theorem levenshtein_cons_left_le (c : Char) (source target : List Char) :
    levenshtein (c :: source) target ≤ levenshtein source target + 1 := by
  cases target with
  | nil => simp
  | cons d target =>
      rw [levenshtein_cons_cons]
      omega

theorem levenshtein_cons_right_le (d : Char) (source target : List Char) :
    levenshtein source (d :: target) ≤ levenshtein source target + 1 := by
  cases source with
  | nil => simp
  | cons c source =>
      rw [levenshtein_cons_cons]
      omega

theorem levenshtein_le_cons_left (c : Char) (source target : List Char) :
    levenshtein source target ≤ levenshtein (c :: source) target + 1 := by
  induction target with
  | nil =>
      rw [levenshtein_nil_right, levenshtein_nil_right, List.length_cons]
      omega
  | cons d target induction =>
      have longer := levenshtein_cons_right_le d source target
      rw [levenshtein_cons_cons]
      omega

theorem levenshtein_substitution_le (c e : Char) (source target : List Char) :
    levenshtein (c :: source) target ≤ levenshtein (e :: source) target + 1 := by
  induction target with
  | nil => simp
  | cons d target induction =>
      rw [levenshtein_cons_cons c, levenshtein_cons_cons e]
      split <;> split <;> omega

theorem levenshtein_append_le {first second : List Char}
    (near : ∀ target, levenshtein first target ≤ levenshtein second target + 1)
    (before target : List Char) :
    levenshtein (before ++ first) target ≤ levenshtein (before ++ second) target + 1 := by
  induction before generalizing target with
  | nil => exact near target
  | cons c before induction =>
      -- The recursion also leaves a character of the target out and keeps the beginning, so the
      -- target gets shorter in an induction of its own.
      induction target with
      | nil => simpa using induction []
      | cons d target shorter =>
          have both := induction target
          have left := induction (d :: target)
          simp only [List.cons_append] at shorter ⊢
          rw [levenshtein_cons_cons, levenshtein_cons_cons]
          omega

theorem Edit.levenshtein_le {source between : List Char} (edit : Edit source between)
    (target : List Char) : levenshtein source target ≤ levenshtein between target + 1 := by
  cases edit with
  | insertion before after c =>
      exact levenshtein_append_le (levenshtein_le_cons_left c after) before target
  | deletion before after c =>
      exact levenshtein_append_le (levenshtein_cons_left_le c after) before target
  | substitution before after c d =>
      exact levenshtein_append_le (levenshtein_substitution_le c d after) before target

theorem Edits.levenshtein_le {number : Nat} {source target : List Char}
    (edits : Edits number source target) : levenshtein source target ≤ number := by
  induction edits with
  | done text => simp
  | edit first rest induction => exact (first.levenshtein_le _).trans (Nat.succ_le_succ induction)

theorem isLeast_levenshtein (source target : List Char) :
    IsLeast {number | Edits number source target} (levenshtein source target) :=
  ⟨edits_levenshtein source target, fun _ edits => edits.levenshtein_le⟩

/-! ## Reading texts from their ends -/

theorem Edit.reverse {source target : List Char} (edit : Edit source target) :
    Edit source.reverse target.reverse := by
  cases edit with
  | insertion before after c => simpa using Edit.insertion after.reverse before.reverse c
  | deletion before after c => simpa using Edit.deletion after.reverse before.reverse c
  | substitution before after c d => simpa using Edit.substitution after.reverse before.reverse c d

theorem Edits.reverse {number : Nat} {source target : List Char}
    (edits : Edits number source target) : Edits number source.reverse target.reverse := by
  induction edits with
  | done text => exact .done text.reverse
  | edit first rest induction => exact .edit first.reverse induction

@[simp] theorem levenshtein_reverse (source target : List Char) :
    levenshtein source.reverse target.reverse = levenshtein source target := by
  apply Nat.le_antisymm
  · exact (edits_levenshtein source target).reverse.levenshtein_le
  · simpa using (edits_levenshtein source.reverse target.reverse).reverse.levenshtein_le

/-- The recursion can as well go from the last characters to the first. -/
theorem levenshtein_concat_concat (c d : Char) (source target : List Char) :
    levenshtein (source ++ [c]) (target ++ [d]) =
      min (min (levenshtein source target + if c = d then 0 else 1)
        (levenshtein (source ++ [c]) target + 1)) (levenshtein source (target ++ [d]) + 1) := by
  have reversed := levenshtein_cons_cons c d source.reverse target.reverse
  rw [← List.reverse_concat, ← List.reverse_concat] at reversed
  simpa only [levenshtein_reverse] using reversed

end OcLang.Spelling
