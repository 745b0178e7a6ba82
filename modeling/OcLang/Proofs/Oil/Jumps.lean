import Mathlib.Data.List.Nodup
import OcLang.Proofs.Oil.Labels
import OcLang.Tree.Build

namespace OcLang.Oil

/-! # Jumps and anchors match

The lines of a body jump only to labels that the body anchors itself. The bodies
are lowered from disjoint parts of the tree, so that no label is anchored twice
as long as no two loops or branches share a place. -/

def Program.bodies (program : Program) : List (List Line) :=
  program.functions.map (·.body) ++ [program.main]

def anchorNames (lines : List Line) : List String :=
  (anchors lines).map (·.spelling)

/-- Every jump has its anchor, and no other anchor has that name. -/
structure Program.JumpsMatch (program : Program) : Prop where
  anchoredOnce : ∀ body ∈ program.bodies, (anchorNames body).Nodup
  matched : ∀ body ∈ program.bodies, ∀ label ∈ targets body,
    (anchorNames body).count label.spelling = 1
  apart : program.bodies.Pairwise fun body other =>
    (anchorNames body).Disjoint (anchorNames other)

def JumpsWithin (lines : List Line) : Prop :=
  ∀ label ∈ targets lines, label ∈ anchors lines

theorem Program.jumpsMatch_of_anchored {program : Program} {places : List Location}
    (anchored : Anchored places program.bodies.flatten) (apart : places.Nodup)
    (within : ∀ body ∈ program.bodies, JumpsWithin body) : program.JumpsMatch := by
  have names : ((program.bodies.map anchorNames).flatten).Nodup := by
    have listed : (program.bodies.map anchorNames).flatten =
        (anchors program.bodies.flatten).map (·.spelling) := by
      induction program.bodies with
      | nil => rfl
      | cons body rest induction => simp [anchorNames, induction]
    rw [listed]
    exact anchored.spellings_nodup apart
  rw [List.nodup_flatten, List.pairwise_map] at names
  have once : ∀ body ∈ program.bodies, (anchorNames body).Nodup :=
    fun body member => names.1 _ (List.mem_map_of_mem member)
  exact {
    anchoredOnce := once
    matched := fun body member label jumped =>
      List.count_eq_one_of_mem (once body member)
        (List.mem_map_of_mem (within body member label jumped))
    apart := names.2 }

section

variable (analysis : Analysis)

theorem lowerFunction_anchored (function : Tree) (later : List Tree) (number : Nat) :
    Ends (lowerFunction analysis function later) number fun lowered _ =>
      ∀ emitted ∈ lowered, Anchored function.controls emitted.body := by
  unfold lowerFunction
  split
  · rename_i declarator parameters body form
    split
    · exact .pure (by simp)
    · split
      · exact .pure (by simp)
      · refine .bind ((lowerStatements_anchored analysis
          (fun tree _ => lowerStatement_anchored analysis tree) number).imp
          fun lines _ anchored => .pure ?_)
        have inside : body.controls.Sublist (function.children.flatMap Tree.controls) := by
          simp [form]
        rintro emitted ⟨⟩
        exact anchored.mono (body.controls_children.trans (inside.trans function.controls_children))
  · exact .pure (by simp)

theorem lowerFunctions_anchored (functions : List Tree) (number : Nat) :
    Ends (lowerFunctions analysis functions) number fun lowered _ =>
      Anchored (functions.flatMap Tree.controls) (lowered.map (·.body)).flatten ∧
        ∀ emitted ∈ lowered, JumpsWithin emitted.body := by
  induction functions generalizing number with
  | nil => exact .pure ⟨.of_unlabelled .nil, by simp⟩
  | cons function later induction =>
      refine .bind ((lowerFunction_anchored analysis function later number).imp
        fun lowered middle anchored => ?_)
      refine .bind ((induction middle).imp fun rest _ anchoredRest => .pure ?_)
      cases lowered with
      | none =>
          refine ⟨?_, anchoredRest.2⟩
          exact anchoredRest.1.mono (by simp)
      | some emitted =>
          have first := anchored emitted rfl
          constructor
          · simpa using first.append anchoredRest.1
          · simpa using ⟨first.matched, anchoredRest.2⟩

theorem controls_items_nodup {root : Tree} (apart : root.controls.Nodup) :
    ((root.children.filter (·.kind == .function)).flatMap Tree.controls ++
      (root.children.filter (!isDefinition ·.kind)).flatMap Tree.controls).Nodup := by
  have statements : (root.children.filter (!isDefinition ·.kind)).Sublist
      (root.children.filter (!·.kind == .function)) := by
    apply List.monotone_filter_right
    intro item statement
    cases form : item.kind <;> simp_all [isDefinition]
  have items := ((List.filter_append_perm (·.kind == .function) root.children).flatMap_right
    Tree.controls)
  rw [List.flatMap_append] at items
  have all := items.nodup_iff.mpr (apart.sublist root.controls_children)
  exact all.sublist (statements.flatMap _ |>.append_left _)

/-- In the generated program every jump has exactly one anchor, in the body that
jumps, if no two loops or branches of the tree have the same place. -/
theorem generate_jumpsMatch (root : Tree) (apart : root.controls.Nodup) :
    (generate analysis root).JumpsMatch := by
  have lowered : Ends (generateNumbered analysis root) firstTemporary fun program _ =>
      program.JumpsMatch := by
    refine .bind ((lowerFunctions_anchored analysis _ firstTemporary).imp
      fun functions middle anchored => ?_)
    refine .bind ((lowerItems_anchored analysis root.children middle).imp
      fun main _ anchoredMain => .pure ?_)
    refine Program.jumpsMatch_of_anchored ?_ (controls_items_nodup apart) ?_
    · simpa [Program.bodies] using anchored.1.append anchoredMain
    · intro body member
      simp only [Program.bodies, List.mem_append, List.mem_map, List.mem_singleton] at member
      rcases member with ⟨function, emitted, rfl⟩ | rfl
      · exact anchored.2 function emitted
      · exact anchoredMain.matched
  exact lowered

end

/-- Two functions and the file have loops and branches; one branch has no body. -/
def looping : Tree :=
  let b : TreeBuilder := {}
  let one := b.int ⟨0, 0⟩ 1
  let heading := b.declarator .declaredName false "int" ⟨0, 0⟩ ⟨0, 0⟩
  b.root "looping" [
    b.function ⟨1, 0⟩ (heading "f") [] (b.block ⟨1, 8⟩ [
      b.whileLoop ⟨2, 2⟩ one (b.block ⟨2, 8⟩ [
        b.ifElse ⟨3, 4⟩ one (b.whileLoop ⟨3, 8⟩ one (b.block ⟨3, 12⟩ []))
          (b.returning ⟨4, 8⟩ (some one))])]),
    b.function ⟨5, 0⟩ (heading "g") [] (b.block ⟨5, 8⟩ [
      b.ifThen ⟨6, 2⟩ one (b.returning ⟨6, 8⟩ (some one)),
      b.node .ifThen ⟨7, 2⟩ "if" [one]]),
    b.whileLoop ⟨8, 0⟩ one (b.call ⟨8, 8⟩ ⟨8, 7⟩ "f" [])]

theorem looping_jumpsMatch : (analyze looping).1.controls.Nodup ∧
    (generate (analyze looping).2 (analyze looping).1).bodies.map (targets · |>.length) =
      [6, 1, 2] ∧
    (generate (analyze looping).2 (analyze looping).1).JumpsMatch := by
  have apart : (analyze looping).1.controls.Nodup := by decide +kernel
  refine ⟨apart, by decide +kernel, ?_⟩
  exact generate_jumpsMatch (analyze looping).2 (analyze looping).1 apart

end OcLang.Oil
