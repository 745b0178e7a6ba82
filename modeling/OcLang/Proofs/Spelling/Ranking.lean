import OcLang.Proofs.Spelling.Distance
import OcLang.Proofs.Suggestions

namespace OcLang.Spelling

/-! # What is suggested for a name

Suggestions are the beginning of a list in which all near candidates stand in a fixed order. -/

def Precedes (name first second : String) : Prop :=
  levenshtein name.toList first.toList < levenshtein name.toList second.toList ∨
    levenshtein name.toList first.toList = levenshtein name.toList second.toList ∧ first ≤ second

/-- The list has the candidates that are near to a name, but not the name itself: at most two
edits away, and fewer than the name has characters. -/
structure IsRanking (name : String) (candidates ranked : List String) : Prop where
  members : ∀ text, text ∈ ranked ↔ text ∈ candidates ∧ text ≠ name ∧
    levenshtein name.toList text.toList ≤ 2 ∧ levenshtein name.toList text.toList < name.length
  distinct : ranked.Nodup
  ordered : ranked.Pairwise (Precedes name)

def scored (name text : String) : Nat × String :=
  (levenshtein name.toList text.toList, text)

theorem mem_closest_iff (name : String) (candidates : List String) (entry : Nat × String) :
    entry ∈ closest name candidates ↔ entry = scored name entry.2 ∧ entry.2 ∈ candidates ∧
      entry.2 ≠ name ∧ levenshtein name.toList entry.2.toList ≤ 2 ∧
      levenshtein name.toList entry.2.toList < name.length := by
  rw [mem_closest, distance_eq_levenshtein]
  constructor
  · rintro ⟨member, other, far, close⟩
    refine ⟨Prod.ext far rfl, member, other, ?_⟩
    simpa [isClose, far] using close
  · rintro ⟨score, member, other, near⟩
    have far : entry.1 = levenshtein name.toList entry.2.toList := congrArg Prod.fst score
    exact ⟨member, other, far, by simpa [isClose, far] using near⟩

theorem scored_inj {name first second : String} :
    scored name first = scored name second ↔ first = second :=
  ⟨congrArg Prod.snd, congrArg (scored name)⟩

theorem isOrdered_scored (name : String) (ranked : List String) :
    IsOrdered (ranked.map (scored name)) ↔ ranked.Pairwise (Precedes name) ∧ ranked.Nodup := by
  rw [IsOrdered, List.pairwise_map, List.Nodup, ← List.pairwise_and_iff]
  simp only [ne_eq, scored_inj, le_iff]
  rfl

theorem map_scored_closest (name : String) (candidates : List String) :
    ((closest name candidates).map (·.2)).map (scored name) = closest name candidates := by
  have same : ∀ entry ∈ closest name candidates, scored name entry.2 = entry :=
    fun entry member => ((mem_closest_iff name candidates entry).mp member).1.symm
  rw [List.map_map]
  exact (List.map_congr_left same).trans (List.map_id _)

/-- The close candidates without their distances are a ranking. -/
theorem isRanking_closest (name : String) (candidates : List String) :
    IsRanking name candidates ((closest name candidates).map (·.2)) := by
  have sorted := isOrdered_closest name candidates
  rw [← map_scored_closest, isOrdered_scored] at sorted
  refine ⟨fun text => ?_, sorted.2, sorted.1⟩
  rw [List.mem_map]
  constructor
  · rintro ⟨entry, member, rfl⟩
    exact ((mem_closest_iff name candidates entry).mp member).2
  · intro near
    exact ⟨scored name text, (mem_closest_iff name candidates _).mpr ⟨rfl, near⟩, rfl⟩

theorem IsRanking.eq_closest {name : String} {candidates ranked : List String}
    (ranking : IsRanking name candidates ranked) :
    ranked = (closest name candidates).map (·.2) := by
  have sorted : IsOrdered (ranked.map (scored name)) :=
    (isOrdered_scored name ranked).mpr ⟨ranking.ordered, ranking.distinct⟩
  have equal : ranked.map (scored name) = closest name candidates := by
    refine sorted.eq_of_members (isOrdered_closest name candidates) fun entry => ?_
    rw [mem_closest_iff, ← ranking.members, List.mem_map]
    constructor
    · rintro ⟨text, member, rfl⟩
      exact ⟨rfl, member⟩
    · rintro ⟨score, member⟩
      exact ⟨entry.2, member, score.symm⟩
  rw [← equal, List.map_map]
  exact (List.map_id ranked).symm

/-- The first three of the near candidates in their order are suggested, and of a longer or a
reordered list of the same candidates the same ones. -/
theorem suggestions_nearest (name : String) (candidates : List String) :
    (∃ ranked, IsRanking name candidates ranked ∧
      (∀ other, IsRanking name candidates other → other = ranked) ∧
      suggestions name candidates = ranked.take 3) ∧
    ∀ others, (∀ text, text ∈ others ↔ text ∈ candidates) →
      suggestions name others = suggestions name candidates := by
  constructor
  · refine ⟨_, isRanking_closest name candidates, fun other => IsRanking.eq_closest, ?_⟩
    rw [suggestions, List.map_take]
  · intro others same
    exact suggestions_congr name same

end OcLang.Spelling
