import Mathlib.Data.List.Flatten
import OcLang.Proofs.Oil.LineRules
import OcLang.Proofs.Oil.Spelling
import OcLang.Proofs.Tree.Skeleton

namespace OcLang

/-! # Labels of generated code

A loop or branch anchors labels of its own, which carry its place, and jumps to
no others. As long as places differ, labels do. -/

def Tree.controls (tree : Tree) : List Location :=
  (tree.preorder.filter (·.kind.isControl)).map (·.location)

theorem Tree.controls_mk (kind : Kind) (location : Location) (text : String) (note : Note)
    (children : List Tree) :
    controls ⟨kind, location, text, note, children⟩ =
      (if kind.isControl then [location] else []) ++ children.flatMap controls := by
  have each : children.flatMap controls = children.flatMap fun child =>
      (child.preorder.filter (·.kind.isControl)).map (·.location) := rfl
  cases control : kind.isControl <;>
    simp [controls, each, preorder, preorderAll_eq_flatMap, control, List.filter_flatMap,
      List.map_flatMap]

theorem Tree.controls_children (tree : Tree) :
    (tree.children.flatMap controls).Sublist tree.controls := by
  obtain ⟨kind, location, text, note, children⟩ := tree
  simp [controls_mk]

theorem Tree.controls_filter (selected : Tree → Bool) (tree : Tree) :
    ((tree.children.filter selected).flatMap controls).Sublist tree.controls :=
  (List.filter_sublist.flatMap controls).trans tree.controls_children

theorem Tree.controls_congr {tree other : Tree} (same : other.bare = tree.bare) :
    other.controls = tree.controls := by
  have bare : ∀ tree : Tree, tree.bare.controls = tree.controls := by
    intro tree
    simp [controls, preorder_bare, List.filter_map, Function.comp_def]
  rw [← bare other, same, bare]

namespace Oil

def labelStems : List String := ["while", "break", "else", "fi"]

def Line.anchor? : Line → Option Label
  | .anchor label => some label
  | _ => none

def anchors (lines : List Line) : List Label :=
  lines.filterMap Line.anchor?

@[simp] theorem anchors_append (lines more : List Line) :
    anchors (lines ++ more) = anchors lines ++ anchors more :=
  List.filterMap_append ..

@[simp] theorem anchors_nil : anchors [] = [] := rfl

@[simp] theorem anchors_cons (line : Line) (lines : List Line) :
    anchors (line :: lines) = line.anchor?.toList ++ anchors lines := by
  cases line <;> rfl

def Line.target? : Line → Option Label
  | .jumpUnless _ label | .jump label => some label
  | _ => none

def targets (lines : List Line) : List Label :=
  lines.filterMap Line.target?

@[simp] theorem targets_append (lines more : List Line) :
    targets (lines ++ more) = targets lines ++ targets more :=
  List.filterMap_append ..

@[simp] theorem targets_nil : targets [] = [] := rfl

@[simp] theorem targets_cons (line : Line) (lines : List Line) :
    targets (line :: lines) = line.target?.toList ++ targets lines := by
  cases line <;> rfl

structure IsUnlabelled (lines : List Line) : Prop where
  anchors_eq_nil : anchors lines = []
  targets_eq_nil : targets lines = []

namespace IsUnlabelled

variable {lines more : List Line}

theorem nil : IsUnlabelled [] := ⟨rfl, rfl⟩

theorem append (first : IsUnlabelled lines) (second : IsUnlabelled more) :
    IsUnlabelled (lines ++ more) := by
  constructor
  · rw [anchors_append, first.anchors_eq_nil, second.anchors_eq_nil, List.append_nil]
  · rw [targets_append, first.targets_eq_nil, second.targets_eq_nil, List.append_nil]

end IsUnlabelled

/-! ## Lines of expressions -/

def Line.isStraight : Line → Bool
  | .compute _ _ _ | .store _ _ | .gap _ => true
  | _ => false

def IsStraight (lines : List Line) : Prop :=
  ∀ line ∈ lines, line.isStraight = true

namespace IsStraight

variable {lines more : List Line}

theorem nil : IsStraight [] := by simp [IsStraight]

theorem single {line : Line} (straight : line.isStraight = true) : IsStraight [line] := by
  simpa [IsStraight] using straight

theorem append (first : IsStraight lines) (second : IsStraight more) :
    IsStraight (lines ++ more) := by
  intro line member
  exact (List.mem_append.mp member).elim (first line) (second line)

theorem unlabelled (straight : IsStraight lines) : IsUnlabelled lines := by
  constructor <;>
    · refine List.filterMap_eq_nil_iff.mpr fun line member => ?_
      have plain := straight line member
      cases line <;> simp_all [Line.isStraight, Line.anchor?, Line.target?]

end IsStraight

def straightness : Rules where
  line line := line.isStraight = true
  operand _ := True
  type _ := True

section

variable (analysis : Analysis)

theorem straightness_kept : straightness.KeptByExpressions analysis fun _ => True where
  inner _ _ := trivial
  common _ := trivial
  int := trivial
  char := trivial
  pointer _ := trivial
  value _ := trivial
  struct _ := trivial
  element _ := trivial
  call _ _ := trivial
  select _ _ := trivial
  computes _ _ _ := rfl
  stores _ := rfl
  assigns _ _ _ _ := rfl
  leaf _ _ _ := by
    refine ⟨?_, fun _ _ => trivial⟩
    unfold lowerLeaf noValue
    split <;> simp [straightness, Line.isStraight]
  crowded _ := ⟨by simp [noValue, straightness, Line.isStraight], fun _ _ => trivial⟩

theorem lower_straight (tree : Tree) (number : Nat) :
    Ends (lower analysis tree) number fun lowered _ => IsStraight lowered.lines :=
  ((straightness_kept analysis).expression trivial number).imp
    fun _ _ keeps => keeps.lines

theorem lowerValue_straight (value : Tree) (number : Nat) :
    Ends (lowerValue analysis value) number fun lowered _ => IsStraight lowered.lines :=
  ((straightness_kept analysis).wanted trivial number).imp
    fun _ _ keeps => keeps.lines

theorem lowerCondition_straight (condition : Tree) (number : Nat) :
    Ends (lowerCondition analysis condition) number fun lowered _ => IsStraight lowered.lines :=
  ((straightness_kept analysis).condition trivial number).imp
    fun _ _ keeps => keeps.lines

end

/-! ## Labels of statements -/

/-- The labels are those of loops and branches at the given places, and differ
when the places do. Every jump goes to one of them. -/
structure Anchored (places : List Location) (lines : List Line) : Prop where
  known : ∀ label ∈ anchors lines, label.stem ∈ labelStems ∧ label.location ∈ places
  distinct : places.Nodup → (anchors lines).Nodup
  matched : ∀ label ∈ targets lines, label ∈ anchors lines

namespace Anchored

variable {places others : List Location} {lines more : List Line}

theorem of_unlabelled (unlabelled : IsUnlabelled lines) : Anchored places lines := by
  constructor <;> simp [unlabelled.anchors_eq_nil, unlabelled.targets_eq_nil]

theorem append (first : Anchored places lines) (second : Anchored others more) :
    Anchored (places ++ others) (lines ++ more) where
  known label member := by
    rw [anchors_append, List.mem_append] at member
    rcases member with here | there
    · exact ⟨(first.known label here).1, by simp [(first.known label here).2]⟩
    · exact ⟨(second.known label there).1, by simp [(second.known label there).2]⟩
  distinct nodup := by
    rw [List.nodup_append] at nodup
    rw [anchors_append, List.nodup_append]
    refine ⟨first.distinct nodup.1, second.distinct nodup.2.1, fun label here other there same => ?_⟩
    exact nodup.2.2 _ (first.known label here).2 _ (second.known other there).2 (by rw [same])
  matched label member := by
    rw [targets_append, List.mem_append] at member
    rw [anchors_append, List.mem_append]
    exact member.imp (first.matched label) (second.matched label)

theorem mono (anchored : Anchored places lines) (sub : places.Sublist others) :
    Anchored others lines where
  known label member :=
    ⟨(anchored.known label member).1, sub.subset (anchored.known label member).2⟩
  distinct nodup := anchored.distinct (nodup.sublist sub)
  matched := anchored.matched

theorem spellings_nodup (anchored : Anchored places lines) (apart : places.Nodup) :
    ((anchors lines).map (·.spelling)).Nodup := by
  exact List.pairwise_map.mpr ((anchored.distinct apart).imp fun different equal =>
    different (Label.spelling_injective equal))

theorem control (inner : Anchored places lines) (own : List Label) {place : Location}
    (perm : (anchors more).Perm (own ++ anchors lines)) (distinct : own.Nodup)
    (here : ∀ label ∈ own, label.stem ∈ labelStems ∧ label.location = place)
    (jumps : ∀ label ∈ targets more, label ∈ own ∨ label ∈ targets lines) :
    Anchored (place :: places) more where
  known label member := by
    rcases List.mem_append.mp (perm.mem_iff.mp member) with mine | within
    · exact ⟨(here label mine).1, by simp [(here label mine).2]⟩
    · exact ⟨(inner.known label within).1, by simp [(inner.known label within).2]⟩
  distinct nodup := by
    rw [perm.nodup_iff, List.nodup_append]
    rw [List.nodup_cons] at nodup
    refine ⟨distinct, inner.distinct nodup.2, fun label mine other within same => nodup.1 ?_⟩
    rw [← (here label mine).2, same]
    exact (inner.known other within).2
  matched label member := by
    rw [perm.mem_iff, List.mem_append]
    exact (jumps label member).imp_right (inner.matched label)

end Anchored

section

variable (analysis : Analysis)

theorem lowerDeclaration_unlabelled (placement : Placement) (node : Tree) (number : Nat) :
    Ends (lowerDeclaration analysis placement node) number fun lines _ => IsUnlabelled lines := by
  unfold lowerDeclaration
  split
  · exact .pure ⟨rfl, rfl⟩
  · split
    · exact .pure ⟨rfl, rfl⟩
    · dsimp only
      split
      · refine .pure ?_
        split <;> exact ⟨rfl, rfl⟩
      · split
        · refine .pure ?_
          split <;> exact ⟨rfl, rfl⟩
        · refine .bind ((lowerValue_straight analysis _ number).imp fun value _ straight => ?_)
          refine .pure (straight.unlabelled.append ?_)
          split <;> exact ⟨rfl, rfl⟩

theorem lowerSimple_unlabelled (placement : Placement) (node : Tree) (number : Nat) :
    Ends (lowerSimple analysis placement node) number fun lines _ => IsUnlabelled lines := by
  unfold lowerSimple
  split
  case h_1 => exact lowerDeclaration_unlabelled analysis placement node number
  case h_3 =>
    exact .bind ((lowerValue_straight analysis _ number).imp fun value _ straight =>
      .pure (straight.unlabelled.append ⟨rfl, rfl⟩))
  case h_5 =>
    exact .bind ((lower_straight analysis node number).imp fun call _ straight =>
      .pure (straight.unlabelled.append ⟨rfl, rfl⟩))
  all_goals first
    | exact .pure ⟨rfl, rfl⟩
    | exact .bind ((lower_straight analysis node number).imp fun _ _ straight =>
        .pure straight.unlabelled)

theorem lowerStatements_anchored {trees : List Tree}
    (each : ∀ tree ∈ trees, ∀ placement number,
      Ends (lowerStatement analysis placement tree) number fun lines _ =>
        Anchored tree.controls lines) (number : Nat) :
    Ends (lowerStatements analysis trees) number fun lines _ =>
      Anchored (trees.flatMap Tree.controls) lines := by
  induction trees generalizing number with
  | nil => exact .pure (.of_unlabelled .nil)
  | cons tree rest induction =>
      refine .bind ((each tree (by simp) .nested number).imp fun first middle anchored => ?_)
      refine .bind ((induction (fun tree member => each tree (by simp [member])) middle).imp
        fun others _ anchoredRest => ?_)
      exact .pure (anchored.append anchoredRest)

theorem branchLines_anchored (kind : Kind) {location : Location} {condition : Lowered}
    {places : List Location} {branches : List (List Line)} (straight : IsStraight condition.lines)
    (inner : Anchored places branches.flatten) :
    Anchored (location :: places) (branchLines kind location condition branches) := by
  unfold branchLines
  split
  · rename_i consequence
    refine inner.control [endLabel location] ?_ (by simp) (by simp [endLabel, labelStems]) ?_
    · simp [straight.unlabelled.anchors_eq_nil, Line.anchor?]
    · simp [straight.unlabelled.targets_eq_nil, Line.target?]
  · rename_i consequence alternative
    refine inner.control [endLabel location, alternativeLabel location] ?_
      (by simp [endLabel, alternativeLabel])
      (by simp [endLabel, alternativeLabel, labelStems])
      (by simp [straight.unlabelled.targets_eq_nil, Line.target?]; grind)
    have listed : anchors (condition.lines ++
        [.jumpUnless condition.operand (alternativeLabel location)] ++ consequence ++
        [.jump (endLabel location), .anchor (alternativeLabel location)] ++ alternative ++
        [.anchor (endLabel location)]) =
        anchors consequence ++ alternativeLabel location ::
          (anchors alternative ++ [endLabel location]) := by
      simp [straight.unlabelled.anchors_eq_nil, Line.anchor?]
    have last : (anchors consequence ++ (anchors alternative ++ [endLabel location])).Perm
        (endLabel location :: anchors [consequence, alternative].flatten) := by
      have moved : (anchors consequence ++ anchors alternative ++ [endLabel location]).Perm
          ([endLabel location] ++ (anchors consequence ++ anchors alternative)) :=
        List.perm_append_comm
      simpa only [List.append_assoc, List.flatten_cons, List.flatten_nil, List.append_nil,
        anchors_append, List.cons_append, List.nil_append] using moved
    rw [listed]
    exact List.perm_middle.trans ((last.cons _).trans (.swap _ _ _))
  · exact .of_unlabelled (straight.unlabelled.append ⟨rfl, rfl⟩)

theorem lowerBranches_anchored {bodies : List Tree}
    (each : ∀ body ∈ bodies, ∀ placement number,
      Ends (lowerStatement analysis placement body) number fun lines _ =>
        Anchored body.controls lines) (number : Nat) :
    Ends (lowerBranches analysis bodies) number fun branches _ =>
      Anchored (bodies.flatMap Tree.controls) branches.flatten := by
  have nothing : Anchored (bodies.flatMap Tree.controls) [] := .of_unlabelled .nil
  rcases bodies with _ | ⟨first, _ | ⟨second, _ | ⟨third, rest⟩⟩⟩
  · exact .pure nothing
  · refine .bind ((each first (by simp) .nested number).imp fun lines _ anchored => ?_)
    exact .pure (by simpa using anchored)
  · refine .bind ((each first (by simp) .nested number).imp fun lines middle anchored => ?_)
    refine .bind ((each second (by simp) .nested middle).imp fun more _ anchoredMore => ?_)
    exact .pure (by simpa using anchored.append anchoredMore)
  · exact .pure nothing

/-- Labels that a statement anchors carry the places of its loops and branches,
and no two are the same when no two places are. -/
theorem lowerStatement_anchored (tree : Tree) (placement : Placement) (number : Nat) :
    Ends (lowerStatement analysis placement tree) number fun lines _ =>
      Anchored tree.controls lines := by
  induction tree using Tree.statementInduction generalizing placement number with
  | block location text note children induction =>
      simp only [lowerStatement, Tree.controls_mk]
      simpa [Kind.isControl] using lowerStatements_anchored analysis induction number
  | control kind location text note test bodies control induction =>
      have outer : ∀ {lines : List Line},
          Anchored (location :: bodies.flatMap Tree.controls) lines →
          Anchored (Tree.controls ⟨kind, location, text, note, test :: bodies⟩) lines := by
        intro lines anchored
        refine anchored.mono ?_
        simp [Tree.controls_mk, control]
      have gap : ∀ number, Ends (lowerSimple analysis placement
          ⟨kind, location, text, note, test :: bodies⟩) number fun lines _ =>
            Anchored (Tree.controls ⟨kind, location, text, note, test :: bodies⟩) lines :=
        fun number => (lowerSimple_unlabelled analysis placement _ number).imp
          fun _ _ unlabelled => .of_unlabelled unlabelled
      have branching : ∀ (branch : Kind) number, Ends (do
          let condition ← lowerCondition analysis test
          let branches ← lowerBranches analysis bodies
          return branchLines branch location condition branches) number fun lines _ =>
            Anchored (Tree.controls ⟨kind, location, text, note, test :: bodies⟩) lines := by
        intro branch number
        refine .bind ((lowerCondition_straight analysis test number).imp
          fun condition middle straight => ?_)
        refine .bind ((lowerBranches_anchored analysis induction middle).imp
          fun branches _ anchored => ?_)
        exact .pure (outer (branchLines_anchored branch straight anchored))
      cases kind <;> simp [Kind.isControl] at control
      · rcases bodies with _ | ⟨body, _ | ⟨second, rest⟩⟩
        · simpa only [lowerStatement] using gap number
        · simp only [lowerStatement]
          refine .bind ((lowerCondition_straight analysis test number).imp
            fun condition middle straight => ?_)
          refine .bind ((induction body (by simp) .nested middle).imp fun lines _ anchored => ?_)
          refine .pure (outer (.control (by simpa using anchored)
            [loopLabel location, exitLabel location] ?_ (by simp [loopLabel, exitLabel])
            (by simp [loopLabel, exitLabel, labelStems]) ?_))
          · simp [straight.unlabelled.anchors_eq_nil, Line.anchor?]
          · simp [straight.unlabelled.targets_eq_nil, Line.target?]
            grind
        · simpa only [lowerStatement] using gap number
      · simpa only [lowerStatement] using branching .ifThen number
      · simpa only [lowerStatement] using branching .ifElse number
  | simple tree simple =>
      rw [lowerStatement_simple simple]
      exact (lowerSimple_unlabelled analysis placement tree number).imp fun _ _ unlabelled =>
        .of_unlabelled unlabelled
  | _ =>
      simp only [lowerStatement]
      exact (lowerSimple_unlabelled analysis placement _ number).imp fun _ _ unlabelled =>
        .of_unlabelled unlabelled

theorem lowerItems_anchored (items : List Tree) (number : Nat) :
    Ends (lowerItems analysis items) number fun lines _ =>
      Anchored ((items.filter (!isDefinition ·.kind)).flatMap Tree.controls) lines := by
  induction items generalizing number with
  | nil => exact .pure (.of_unlabelled .nil)
  | cons item rest induction =>
      unfold lowerItems
      dsimp only
      split
      · rename_i definition
        refine .bind (.pure (.bind ((induction number).imp fun more _ anchoredRest => .pure ?_)))
        simpa [definition] using anchoredRest
      · rename_i statement
        refine .bind ((lowerStatement_anchored analysis item .file number).imp
          fun lines middle anchored => ?_)
        refine .bind ((induction middle).imp fun more _ anchoredRest => .pure ?_)
        simpa [statement] using anchored.append anchoredRest

end

end Oil

end OcLang
