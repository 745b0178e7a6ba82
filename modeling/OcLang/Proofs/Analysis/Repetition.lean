import OcLang.Proofs.Sessions
import OcLang.Proofs.Analysis.Numbering
import OcLang.Proofs.Analysis.Repetition.Statements

namespace OcLang

/-! # Analysing a tree twice

The second analysis numbers the same scopes, finds nothing to add to any note
and comes to know the same. -/

namespace Numbering

/-! ## Numbering a tree twice -/

theorem stamp_stamp (block : Nat) (tree : Tree) :
    (tree.stamp block).stamp block = tree.stamp block := by
  induction tree using Tree.induction with
  | node tree induction =>
      cases tree
      simp_all [stamp_mk]

theorem place_place (scope : Option Nat) (tree : Tree) :
    place scope (place scope tree) = place scope tree := by
  cases scope with
  | none => rfl
  | some block => exact stamp_stamp block tree

theorem map_place_place (scope : Option Nat) (trees : List Tree) :
    (trees.map (place scope)).map (place scope) = trees.map (place scope) := by
  simp [place_place]

theorem placeNote_placeNote (scope : Option Nat) (note : Note) :
    placeNote scope (placeNote scope note) = placeNote scope note := by
  cases scope <;> rfl

theorem declaredName?_place (scope : Option Nat) (tree : Tree) :
    (place scope tree).declaredName?.isNone = tree.declaredName?.isNone := by
  have same : (place scope tree).bare = tree.bare := mapNotes_place (fun _ _ => rfl) scope tree
  simpa using congrArg (·.declaredName?.isNone) same

theorem heading_twice (scope : Option Nat) (kind : Kind) (location : Location) (text : String)
    (note : Note) (declarator parameters : Tree) (rest : List Tree) (opened : Nat) :
    Ends (heading scope ⟨kind, location, text, note, []⟩ declarator parameters rest) opened
      fun numbered after => ∃ newNote newDeclarator newParameters,
        numbered = ⟨kind, location, text, newNote,
          newDeclarator :: newParameters :: rest.map (place scope)⟩ ∧
        (heading scope ⟨kind, location, text, newNote, []⟩ newDeclarator newParameters
          (rest.map (place scope))).run opened = (numbered, after) := by
  unfold heading
  cases unnamed : declarator.declaredName?.isNone with
  | true =>
      refine .pure ⟨_, _, _, place_mk .., ?_⟩
      simp only [declaredName?_place, unnamed, if_true, place_mk, List.map_cons,
        placeNote_placeNote, place_place, map_place_place, run_pure]
  | false =>
      refine .bind (.run (.pure ⟨_, _, _, rfl, ?_⟩))
      simp only [declaredName?_place, unnamed, Bool.false_eq_true, if_false, run_bind, run_pure,
        placeNote_placeNote, place_place, map_place_place, stamp_stamp]

theorem statements_twice (scope : Option Nat) {trees : List Tree}
    (each : ∀ tree ∈ trees, ∀ scope opened, Ends (statement scope tree) opened
      fun numbered after => (statement scope numbered).run opened = (numbered, after))
    (opened : Nat) :
    Ends (statements scope trees) opened fun numbered after =>
      (statements scope numbered).run opened = (numbered, after) := by
  induction trees generalizing opened with
  | nil => rfl
  | cons tree rest induction =>
      simp only [List.forall_mem_cons] at each
      refine .bind ((each.1 scope opened).imp ?_)
      intro first middle again
      refine .bind ((induction each.2 middle).imp ?_)
      intro others after againOthers
      refine .pure ?_
      rw [statements, run_bind, again, run_bind, againOthers, run_pure]

/-- Numbering again gives the same numbers. -/
theorem statement_twice (tree : Tree) (scope : Option Nat) (opened : Nat) :
    Ends (statement scope tree) opened fun numbered after =>
      (statement scope numbered).run opened = (numbered, after) := by
  induction tree using Tree.statementInduction generalizing scope opened with
  | root location text note children induction =>
      rw [statement]
      refine .bind ((statements_twice scope induction opened).imp ?_)
      intro numbered after again
      refine .pure ?_
      rw [statement, run_bind, again, run_pure, placeNote_placeNote]
  | block location text note children induction =>
      rw [statement]
      refine .bind (.run (.bind ((statements_twice _ induction _).imp ?_)))
      intro numbered after again
      refine .pure ?_
      rw [statement, run_bind, run_bind, again]
      rfl
  | function location text note declarator parameters rest induction =>
      rcases rest with _ | ⟨⟨bodyKind, bodyLocation, bodyText, bodyNote, children⟩, rest⟩
      · rw [statement]
        refine (heading_twice scope .function location text note declarator parameters []
          opened).imp ?_
        rintro _ after ⟨newNote, newDeclarator, newParameters, rfl, again⟩
        rw [List.map_nil, statement]
        exact again
      · rw [statement]
        cases unnamed : declarator.declaredName?.isNone with
        | true =>
            let function : Tree := ⟨.function, location, text, note, declarator :: parameters ::
              ⟨bodyKind, bodyLocation, bodyText, bodyNote, children⟩ :: rest⟩
            have placed : statement scope (place scope function) =
                pure (place scope (place scope function)) := by
              simp only [function, place_mk, List.map_cons]
              rw [statement, declaredName?_place, unnamed]
              simp only [if_true, place_mk, List.map_cons]
            refine .pure ?_
            rw [placed, place_place, run_pure]
        | false =>
            refine .bind (.run (.bind (.bind
              ((statements_twice _ (induction _ List.mem_cons_self) _).imp ?_))))
            intro numbered after again
            refine .pure (.pure ?_)
            rw [statement, declaredName?_place, unnamed]
            simp only [functionBody, Bool.false_eq_true, if_false, run_bind, run_pure, again,
              placeNote_placeNote, place_place, map_place_place, stamp_stamp]
  | prototype location text note declarator parameters rest =>
      rw [statement]
      refine (heading_twice scope .prototype location text note declarator parameters rest
        opened).imp ?_
      rintro _ after ⟨newNote, newDeclarator, newParameters, rfl, again⟩
      rw [statement]
      exact again
  | control kind location text note test bodies control induction =>
      rw [statement_control control]
      refine .bind ((statements_twice scope induction opened).imp ?_)
      intro numbered after again
      refine .pure ?_
      rw [statement_control control, run_bind, again, run_pure, placeNote_placeNote, place_place]
  | simple tree simple =>
      rw [statement_simple simple]
      refine .pure ?_
      have same : (place scope tree).bare = tree.bare := mapNotes_place (fun _ _ => rfl) scope tree
      rw [statement_simple, run_pure, place_place]
      rw [← Tree.isCompound_bare, same, Tree.isCompound_bare]
      exact simple

theorem number_number (tree : Tree) : number (number tree) = number tree := by
  have again : (statement none (number tree)).run 0 = (number tree, _) :=
    statement_twice tree none 0
  rw [number, again]

theorem number_blocksOnly (tree : Tree) :
    number tree.blocksOnly = (number tree).blocksOnly := by
  simp only [Tree.blocksOnly, Tree.mapNotes_eq_mapNodes]
  exact number_mapNodes (fun _ _ => rfl) tree

theorem eq_of_views {first second : Tree} (blocks : first.blocksOnly = second.blocksOnly)
    (others : first.mapNotes (fun note => { note with block := 0 }) =
      second.mapNotes fun note => { note with block := 0 }) : first = second := by
  induction first using Tree.induction generalizing second with
  | node first induction =>
      obtain ⟨kind, location, text, note, children⟩ := first
      obtain ⟨otherKind, otherLocation, otherText, otherNote, otherChildren⟩ := second
      simp only [Tree.blocksOnly_mk, Tree.mapNotes_mk, Tree.mk.injEq, Note.mk.injEq]
        at blocks others
      obtain ⟨rfl, rfl, rfl, ⟨-, sameBlock, -⟩, sameBlocks⟩ := blocks
      obtain ⟨-, -, -, ⟨sameAttributes, -, sameName, samePlace, sameSymbol⟩, sameOthers⟩ := others
      have sameNote : note = otherNote := by
        cases note
        cases otherNote
        simp_all
      have sameChildren : children = otherChildren := by
        clear sameNote
        induction children generalizing otherChildren with
        | nil => simpa using sameBlocks
        | cons child rest more =>
            obtain _ | ⟨other, others⟩ := otherChildren
            · simp at sameBlocks
            · simp only [List.map_cons, List.cons.injEq] at sameBlocks sameOthers
              simp only [List.forall_mem_cons] at induction
              rw [induction.1 sameBlocks.1 sameOthers.1,
                more induction.2 others sameBlocks.2 sameOthers.2]
      rw [sameNote, sameChildren]

/-- A tree that differs from a numbered one in other notes only is numbered. -/
theorem number_of_blocksOnly {tree other : Tree}
    (same : other.blocksOnly = (number tree).blocksOnly) : number other = other := by
  refine eq_of_views ?_ (mapNotes_statement (fun _ _ => rfl) other none 0)
  calc (number other).blocksOnly
      = number other.blocksOnly := (number_blocksOnly other).symm
    _ = number (number tree).blocksOnly := by rw [same]
    _ = (number tree).blocksOnly := by rw [number_blocksOnly, number_number]
    _ = other.blocksOnly := same.symm

end Numbering

theorem analyze_twice (tree : Tree) : analyze (analyze tree).1 = analyze tree := by
  obtain ⟨same, again⟩ := Statement.check_repeats (Numbering.number tree) none {}
  show analyze ((Statement.check none (Numbering.number tree)).run {}).1 = _
  rw [analyze, Numbering.number_of_blocksOnly same, again]
  rfl

/-- Analysing an annotated tree again changes nothing in it and tells the same.
Compiling a tree twice in a session gives the same outputs, the second time from
what the first time left of the tree. -/
theorem analyze_idempotent (tree : Tree) (session : Session) :
    analyze (analyze tree).1 = analyze tree ∧
      (let first := (Session.compile tree).run session
       ((Session.compile (analyze tree).1).run first.2).1 = first.1) := by
  refine ⟨analyze_twice tree, ?_⟩
  obtain ⟨sameFirst, sameSetting⟩ := Session.compile_ends tree session
  obtain ⟨sameSecond, -⟩ := Session.compile_ends (analyze tree).1
    ((Session.compile tree).run session).2
  dsimp only
  rw [sameSecond, sameFirst, sameSetting]
  unfold compile
  rw [analyze_twice]

end OcLang
