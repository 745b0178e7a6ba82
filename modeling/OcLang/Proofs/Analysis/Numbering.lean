import OcLang.Analysis.Numbering
import OcLang.Proofs.Stepwise
import OcLang.Proofs.Analysis.Forms
import OcLang.Proofs.Tree.Nodewise

namespace OcLang.Numbering

/-! ## One node at a time -/

theorem stampAll_eq_map (block : Nat) (trees : List Tree) :
    Tree.stampAll block trees = trees.map (Tree.stamp block) := by
  induction trees with
  | nil => rfl
  | cons tree rest induction => simp [Tree.stampAll, induction]

theorem stamp_mk (block : Nat) (kind : Kind) (location : Location) (text : String) (note : Note)
    (children : List Tree) :
    Tree.stamp block ⟨kind, location, text, note, children⟩ =
      ⟨kind, location, text, { note with block }, children.map (Tree.stamp block)⟩ := by
  simp [Tree.stamp, stampAll_eq_map]

theorem place_mk (scope : Option Nat) (kind : Kind) (location : Location) (text : String)
    (note : Note) (children : List Tree) :
    place scope ⟨kind, location, text, note, children⟩ =
      ⟨kind, location, text, placeNote scope note, children.map (place scope)⟩ := by
  cases scope with
  | none =>
      have nothing : place none = id := rfl
      rw [nothing, List.map_id]
      rfl
  | some block => exact stamp_mk ..

/-! ## Numbering changes block numbers only

A view of the notes that does not look at block numbers is the same before and
after. -/

section

variable {view : Note → Note} (blind : ∀ note block, view { note with block } = view note)

include blind

theorem mapNotes_stamp (block : Nat) (tree : Tree) :
    (tree.stamp block).mapNotes view = tree.mapNotes view := by
  induction tree using Tree.induction with
  | node tree induction =>
      cases tree
      simp_all [stamp_mk, Tree.mapNotes_mk]

theorem mapNotes_place (scope : Option Nat) (tree : Tree) :
    (place scope tree).mapNotes view = tree.mapNotes view := by
  cases scope with
  | none => rfl
  | some block => exact mapNotes_stamp blind block tree

theorem view_placeNote (scope : Option Nat) (note : Note) :
    view (placeNote scope note) = view note := by
  cases scope with
  | none => rfl
  | some block => exact blind note block

theorem mapNotes_heading (scope : Option Nat) (kind : Kind) (location : Location) (text : String)
    (note : Note) (declarator parameters : Tree) (rest : List Tree) (opened : Nat) :
    ((heading scope ⟨kind, location, text, note, []⟩ declarator parameters rest).run opened).1.mapNotes
        view =
      Tree.mapNotes view ⟨kind, location, text, note, declarator :: parameters :: rest⟩ := by
  unfold heading
  split
  · exact mapNotes_place blind scope _
  · simp only [run_bind, run_pure]
    simp [Tree.mapNotes_mk, mapNotes_place blind, mapNotes_stamp blind, view_placeNote blind]

omit blind in
private theorem mapNotes_statements (scope : Option Nat) {trees : List Tree}
    (each : ∀ tree ∈ trees, ∀ scope opened,
      ((statement scope tree).run opened).1.mapNotes view = tree.mapNotes view) (opened : Nat) :
    ((statements scope trees).run opened).1.map (Tree.mapNotes view) =
      trees.map (Tree.mapNotes view) := by
  induction trees generalizing opened with
  | nil => rfl
  | cons tree rest induction =>
      simp only [statements, run_bind, run_pure]
      simp_all

theorem mapNotes_statement (tree : Tree) (scope : Option Nat) (opened : Nat) :
    ((statement scope tree).run opened).1.mapNotes view = tree.mapNotes view := by
  induction tree using Tree.statementInduction generalizing scope opened with
  | root location text note children induction =>
      simp only [statement, run_bind, run_pure]
      simp [Tree.mapNotes_mk, view_placeNote blind, mapNotes_statements _ induction]
  | block location text note children induction =>
      simp only [statement, run_bind, run_pure]
      simp [Tree.mapNotes_mk, blind, mapNotes_statements _ induction]
  | function location text note declarator parameters rest induction =>
      rcases rest with _ | ⟨body, rest⟩
      · exact mapNotes_heading blind scope _ _ _ _ _ _ _ _
      · simp only [statement]
        split
        · exact mapNotes_place blind scope _
        · have sameBody := fun scope => mapNotes_statements scope
            (induction body (by simp))
          cases body
          simp only [functionBody, run_bind, run_pure]
          simp_all [Tree.mapNotes_mk, mapNotes_place blind, mapNotes_stamp blind,
            view_placeNote blind]
  | prototype location text note declarator parameters rest =>
      exact mapNotes_heading blind scope _ _ _ _ _ _ _ _
  | control kind location text note test bodies control induction =>
      simp only [statement_control control, run_bind, run_pure]
      simp [Tree.mapNotes_mk, view_placeNote blind, mapNotes_place blind,
        mapNotes_statements _ induction]
  | simple tree simple =>
      rw [statement_simple simple]
      exact mapNotes_place blind scope tree

end

/-- Nothing is noted on any node but a block number. -/
def IsPlain (tree : Tree) : Prop :=
  tree.mapNotes (fun note => { note with block := 0 }) = tree.bare

theorem isPlain_mk (kind : Kind) (location : Location) (text : String) (note : Note)
    (children : List Tree) :
    IsPlain ⟨kind, location, text, note, children⟩ ↔
      { note with block := 0 } = ({} : Note) ∧ ∀ child ∈ children, IsPlain child := by
  simp [IsPlain, Tree.mapNotes_mk, Tree.bare_mk]

theorem IsPlain.untouched {tree : Tree} (plain : IsPlain tree) :
    tree.note.symbol = none ∧ tree.note.attributes = {} ∧ tree.note.structName = none := by
  obtain ⟨kind, location, text, note, children⟩ := tree
  have empty := ((isPlain_mk ..).mp plain).1
  grind

theorem IsPlain.child {tree child : Tree} (plain : IsPlain tree)
    (member : child ∈ tree.children) : IsPlain child := by
  obtain ⟨kind, location, text, note, children⟩ := tree
  exact ((isPlain_mk ..).mp plain).2 child member

theorem isPlain_of_isFresh {tree : Tree} (fresh : tree.IsFresh) : IsPlain tree := by
  rw [IsPlain]
  conv => lhs; rw [← fresh]
  exact Tree.mapNotes_mapNotes _ _ tree

theorem bare_number (tree : Tree) : (number tree).bare = tree.bare :=
  mapNotes_statement (fun _ _ => rfl) tree none 0

theorem isPlain_number {tree : Tree} (fresh : tree.IsFresh) : IsPlain (number tree) := by
  rw [IsPlain, bare_number]
  refine (mapNotes_statement (fun _ _ => rfl) tree none 0).trans ?_
  conv => lhs; rw [← fresh]
  exact Tree.mapNotes_mapNotes _ _ tree

/-! ## Numbering and everything else

A change of texts and notes that goes well with block numbers may be made before
or after the numbering. -/

theorem declaredName?_isNone_mapNodes (spell : String → String) (change : Note → Note)
    (tree : Tree) :
    (tree.mapNodes spell change).declaredName?.isNone = tree.declaredName?.isNone := by
  simp

section

variable {spell : String → String} {change : Note → Note}
  (keeps : ∀ note block, change { note with block } = { change note with block })

include keeps

theorem stamp_mapNodes (block : Nat) (tree : Tree) :
    (tree.mapNodes spell change).stamp block = (tree.stamp block).mapNodes spell change := by
  induction tree using Tree.induction with
  | node tree induction =>
      obtain ⟨kind, location, text, note, children⟩ := tree
      have below : (children.map (Tree.mapNodes spell change)).map (Tree.stamp block) =
          (children.map (Tree.stamp block)).map (Tree.mapNodes spell change) := by
        simpa using induction
      rw [stamp_mk, Tree.mapNodes_mk, stamp_mk, Tree.mapNodes_mk, below, ← keeps note block]

theorem place_mapNodes (scope : Option Nat) (tree : Tree) :
    place scope (tree.mapNodes spell change) = (place scope tree).mapNodes spell change := by
  cases scope with
  | none => rfl
  | some block => exact stamp_mapNodes keeps block tree

theorem map_place_mapNodes (scope : Option Nat) (trees : List Tree) :
    (trees.map (Tree.mapNodes spell change)).map (place scope) =
      (trees.map (place scope)).map (Tree.mapNodes spell change) := by
  simp [place_mapNodes keeps]

theorem placeNote_change (scope : Option Nat) (note : Note) :
    placeNote scope (change note) = change (placeNote scope note) := by
  cases scope with
  | none => rfl
  | some block => exact (keeps note block).symm

theorem heading_mapNodes (scope : Option Nat) (kind : Kind) (location : Location) (text : String)
    (note : Note) (declarator parameters : Tree) (rest : List Tree) (opened : Nat) :
    Ends (heading scope ⟨kind, location, text, note, []⟩ declarator parameters rest) opened
      fun numbered after =>
        (heading scope ⟨kind, location, spell text, change note, []⟩
          (declarator.mapNodes spell change) (parameters.mapNodes spell change)
          (rest.map (Tree.mapNodes spell change))).run opened =
            (numbered.mapNodes spell change, after) := by
  have sameName := declaredName?_isNone_mapNodes spell change declarator
  unfold heading
  cases unnamed : declarator.declaredName?.isNone with
  | true =>
      refine .pure ?_
      simp only [sameName.trans unnamed, if_true, place_mk, List.map_cons, Tree.mapNodes_mk,
        placeNote_change keeps, place_mapNodes keeps, map_place_mapNodes keeps, run_pure]
  | false =>
      refine .bind (.run (.pure ?_))
      simp only [sameName.trans unnamed, Bool.false_eq_true, if_false, List.map_cons,
        Tree.mapNodes_mk, run_bind, placeNote_change keeps, place_mapNodes keeps,
        map_place_mapNodes keeps, stamp_mapNodes keeps, run_pure]

omit keeps in
theorem statements_mapNodes {trees : List Tree}
    (each : ∀ tree ∈ trees, ∀ scope opened, Ends (statement scope tree) opened
      fun numbered after =>
        (statement scope (tree.mapNodes spell change)).run opened =
          (numbered.mapNodes spell change, after))
    (scope : Option Nat) (opened : Nat) :
    Ends (statements scope trees) opened fun numbered after =>
      (statements scope (trees.map (Tree.mapNodes spell change))).run opened =
        (numbered.map (Tree.mapNodes spell change), after) := by
  induction trees generalizing opened with
  | nil => rfl
  | cons tree rest induction =>
      simp only [List.forall_mem_cons] at each
      refine .bind ((each.1 scope opened).imp ?_)
      intro first middle same
      refine .bind ((induction each.2 middle).imp ?_)
      intro others after sameOthers
      refine .pure ?_
      rw [List.map_cons, statements, run_bind, same, run_bind, sameOthers, run_pure, List.map_cons]

theorem statement_mapNodes (tree : Tree) (scope : Option Nat) (opened : Nat) :
    Ends (statement scope tree) opened fun numbered after =>
      (statement scope (tree.mapNodes spell change)).run opened =
        (numbered.mapNodes spell change, after) := by
  induction tree using Tree.statementInduction generalizing scope opened with
  | root location text note children induction =>
      rw [statement]
      refine .bind ((statements_mapNodes induction scope opened).imp ?_)
      intro numbered after same
      refine .pure ?_
      rw [Tree.mapNodes_mk, statement, run_bind, same, run_pure, Tree.mapNodes_mk,
        placeNote_change keeps]
  | block location text note children induction =>
      rw [statement]
      refine .bind (.run (.bind ((statements_mapNodes induction _ _).imp ?_)))
      intro numbered after same
      refine .pure ?_
      rw [Tree.mapNodes_mk, statement, run_bind, run_bind, same, run_pure, Tree.mapNodes_mk,
        keeps note (openScope.run opened).1]
  | function location text note declarator parameters rest induction =>
      rcases rest with _ | ⟨⟨bodyKind, bodyLocation, bodyText, bodyNote, children⟩, rest⟩
      · rw [statement, Tree.mapNodes_mk, List.map_cons, List.map_cons, List.map_nil]
        simp only [statement]
        exact heading_mapNodes keeps scope .function location text note declarator parameters []
          opened
      · have sameName := declaredName?_isNone_mapNodes spell change declarator
        rw [statement]
        cases unnamed : declarator.declaredName?.isNone with
        | true =>
            let function : Tree := ⟨.function, location, text, note, declarator :: parameters ::
              ⟨bodyKind, bodyLocation, bodyText, bodyNote, children⟩ :: rest⟩
            have placed : statement scope (function.mapNodes spell change) =
                pure (place scope (function.mapNodes spell change)) := by
              simp only [function, Tree.mapNodes_mk, List.map_cons]
              rw [statement, sameName.trans unnamed]
              simp only [if_true]
            refine .pure ?_
            rw [placed, place_mapNodes keeps, run_pure]
        | false =>
            refine .bind (.run (.bind (.bind
              ((statements_mapNodes (induction _ List.mem_cons_self) _ _).imp ?_))))
            intro numbered after same
            refine .pure (.pure ?_)
            simp only [Tree.mapNodes_mk, List.map_cons]
            rw [statement, sameName.trans unnamed]
            simp only [functionBody, Bool.false_eq_true, if_false, run_bind, run_pure, same,
              placeNote_change keeps, place_mapNodes keeps, map_place_mapNodes keeps,
              stamp_mapNodes keeps, keeps bodyNote (openScope.run opened).1]
  | prototype location text note declarator parameters rest =>
      rw [statement, Tree.mapNodes_mk, List.map_cons, List.map_cons]
      simp only [statement]
      exact heading_mapNodes keeps scope .prototype location text note declarator parameters rest
        opened
  | control kind location text note test bodies control induction =>
      rw [statement_control control]
      refine .bind ((statements_mapNodes induction scope opened).imp ?_)
      intro numbered after same
      refine .pure ?_
      rw [Tree.mapNodes_mk, List.map_cons, statement_control control, run_bind, same, run_pure,
        Tree.mapNodes_mk, placeNote_change keeps, List.map_cons, place_mapNodes keeps]
  | simple tree simple =>
      rw [statement_simple simple]
      refine .pure ?_
      rw [statement_simple ((Tree.isCompound_mapNodes ..).trans simple), run_pure,
        place_mapNodes keeps]

theorem number_mapNodes (tree : Tree) :
    number (tree.mapNodes spell change) = (number tree).mapNodes spell change := by
  have same : (statement none (tree.mapNodes spell change)).run 0 =
      ((number tree).mapNodes spell change, _) := statement_mapNodes keeps tree none 0
  rw [number, same]

end

end OcLang.Numbering
