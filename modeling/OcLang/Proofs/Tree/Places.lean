import Mathlib.Data.List.Basic
import OcLang.Proofs.Tree.Forms
import OcLang.Proofs.Tree.Parts

namespace OcLang

/-! # Places in a tree

A node is found by the children that lead to it from the root. The order of the places in a
walk from left to right, a node before what lies below it, is the order of words in a
dictionary. -/

abbrev Path := List Nat

def Kind.opensScope : Kind → Bool
  | .block | .function | .prototype => true
  | _ => false

structure Site where
  path : Path
  kind : Kind
deriving DecidableEq, Repr

namespace Site

def under (index : Nat) (place : Site) : Site :=
  { place with path := index :: place.path }

/-- A block is a scope for itself and all that lies below it. The scope of a function contains
what follows its declarator. -/
def Contains (place : Site) (path : Path) : Prop :=
  match place.kind with
  | .block => place.path <+: path
  | _ => ∃ index rest, 1 ≤ index ∧ path = place.path ++ index :: rest

def entry (place : Site) : Path :=
  match place.kind with
  | .block => place.path
  | _ => place.path ++ [1]

theorem contains_entry (place : Site) : place.Contains place.entry := by
  rcases place with ⟨path, kind⟩
  cases kind with
  | block => exact List.prefix_rfl
  | _ => exact ⟨1, [], Nat.le_refl 1, rfl⟩

theorem prefix_of_contains {place : Site} {path : Path} (contains : place.Contains path) :
    place.path <+: path := by
  unfold Contains at contains
  split at contains
  · exact contains
  · obtain ⟨index, rest, _, rfl⟩ := contains
    exact List.prefix_append ..

@[simp] theorem contains_under {index : Nat} {place : Site} {path : Path} :
    (place.under index).Contains (index :: path) ↔ place.Contains path := by
  rcases place with ⟨position, kind⟩
  simp only [Contains, under]
  split <;> simp

theorem not_contains_nil {index : Nat} {place : Site} : ¬(place.under index).Contains [] := by
  intro contains
  have short := (prefix_of_contains contains).length_le
  simp [under] at short

theorem not_contains_of_ne {index other : Nat} (different : index ≠ other) {place : Site}
    {path : Path} : ¬(place.under index).Contains (other :: path) := by
  intro contains
  have first := prefix_of_contains contains
  simp only [under, List.cons_prefix_cons] at first
  exact different first.1

end Site

namespace Tree

def at? (tree : Tree) : Path → Option Tree
  | [] => some tree
  | index :: rest => tree.children[index]?.bind (·.at? rest)

theorem at?_append (tree : Tree) (path rest : Path) :
    tree.at? (path ++ rest) = (tree.at? path).bind (·.at? rest) := by
  induction path generalizing tree with
  | nil => rfl
  | cons index path induction =>
      cases below : tree.children[index]? <;> simp [at?, below, induction]

theorem IsShaped.at? {tree node : Tree} (shaped : tree.IsShaped) {path : Path}
    (found : tree.at? path = some node) : node.IsShaped := by
  induction path generalizing tree with
  | nil => exact Option.some_inj.mp found ▸ shaped
  | cons index rest induction =>
      obtain ⟨child, isChild, below⟩ := Option.bind_eq_some_iff.mp found
      exact induction (shaped.child (List.mem_of_getElem? isChild)) below

/-! ## Nodes and their places -/

mutual
def places : Tree → List (Path × Tree)
  | ⟨kind, location, text, note, children⟩ =>
      ([], ⟨kind, location, text, note, children⟩) :: placesFrom 0 children

def placesFrom (position : Nat) : List Tree → List (Path × Tree)
  | [] => []
  | tree :: rest =>
      tree.places.map (Prod.map (position :: ·) id) ++ placesFrom (position + 1) rest
end

theorem places_eq (tree : Tree) : tree.places = ([], tree) :: placesFrom 0 tree.children := by
  cases tree
  rfl

theorem mem_placesFrom {position : Nat} {trees : List Tree} {path : Path} {node : Tree} :
    (path, node) ∈ placesFrom position trees ↔ ∃ (index : Nat) (child : Tree) (rest : Path),
      trees[index]? = some child ∧ (rest, node) ∈ child.places ∧
        path = (position + index) :: rest := by
  induction trees generalizing position with
  | nil => simp [placesFrom]
  | cons tree trees induction =>
      rw [placesFrom, List.mem_append, induction]
      constructor
      · rintro (here | ⟨index, child, rest, found, inside, rfl⟩)
        · obtain ⟨⟨rest, _⟩, inside, same⟩ := List.mem_map.mp here
          cases same
          exact ⟨0, tree, rest, rfl, inside, rfl⟩
        · exact ⟨index + 1, child, rest, found, inside, by rw [Nat.add_assoc, Nat.add_comm 1]⟩
      · rintro ⟨_ | index, child, rest, found, inside, rfl⟩
        · cases found
          exact .inl (List.mem_map.mpr ⟨(rest, node), inside, rfl⟩)
        · exact .inr ⟨index, child, rest, found, inside, by rw [Nat.add_assoc, Nat.add_comm 1]⟩

theorem mem_places_iff {tree node : Tree} {path : Path} :
    (path, node) ∈ tree.places ↔ tree.at? path = some node := by
  induction path generalizing tree with
  | nil =>
      have notBelow : ([], node) ∉ placesFrom 0 tree.children := by simp [mem_placesFrom]
      simp only [places_eq, List.mem_cons, Prod.mk.injEq, true_and, notBelow, or_false]
      rw [at?, Option.some_inj, eq_comm]
  | cons index rest induction =>
      rw [places_eq, List.mem_cons, mem_placesFrom, at?, Option.bind_eq_some_iff]
      simp [induction]

/-! ### The order of places

What a walk lists at a node is the node itself, then the places below the first child, and so
on. Such a list is in order when the lists of the children are. -/

theorem ordered_under {paths : List Path} (ordered : paths.Pairwise (· < ·)) (index : Nat) :
    (paths.map (index :: ·)).Pairwise (· < ·) := by
  refine List.Pairwise.map _ ?_ ordered
  intro first second before
  exact List.cons_lt_cons_iff.mpr (.inr ⟨rfl, before⟩)

/-- Places below a child come before those below later children. -/
theorem ordered_children {position : Nat} {here later : List Path}
    (orderedHere : here.Pairwise (· < ·)) (orderedLater : later.Pairwise (· < ·))
    (behind : ∀ path ∈ later, ∃ index rest, position < index ∧ path = index :: rest) :
    (here.map (position :: ·) ++ later).Pairwise (· < ·) := by
  refine List.pairwise_append.mpr ⟨ordered_under orderedHere position, orderedLater, ?_⟩
  intro first inFirst second inSecond
  obtain ⟨path, _, rfl⟩ := List.mem_map.mp inFirst
  obtain ⟨index, rest, larger, rfl⟩ := behind second inSecond
  exact List.cons_lt_cons_iff.mpr (.inl larger)

theorem ordered_root {paths : List Path} (ordered : paths.Pairwise (· < ·))
    (below : [] ∉ paths) : ([] :: paths).Pairwise (· < ·) := by
  refine List.pairwise_cons.mpr ⟨fun path member => ?_, ordered⟩
  cases path with
  | nil => exact absurd member below
  | cons index rest => exact List.nil_lt_cons index rest

theorem placesFrom_ordered {position : Nat} {trees : List Tree}
    (each : ∀ tree ∈ trees, (tree.places.map Prod.fst).Pairwise (· < ·)) :
    ((placesFrom position trees).map Prod.fst).Pairwise (· < ·) := by
  induction trees generalizing position with
  | nil => simp [placesFrom]
  | cons tree trees induction =>
      obtain ⟨here, others⟩ := List.forall_mem_cons.mp each
      have under : (tree.places.map (Prod.map (position :: ·) id)).map Prod.fst =
          (tree.places.map Prod.fst).map (position :: ·) := by simp
      rw [placesFrom, List.map_append, under]
      refine ordered_children here (induction others) fun path member => ?_
      obtain ⟨⟨_, _⟩, later, rfl⟩ := List.mem_map.mp member
      obtain ⟨index, _, rest, _, _, rfl⟩ := mem_placesFrom.mp later
      exact ⟨_, rest, by omega, rfl⟩

/-- The places are in the order of words in a dictionary, so none is listed twice. -/
theorem places_ordered (tree : Tree) : (tree.places.map Prod.fst).Pairwise (· < ·) := by
  induction tree using Tree.induction with
  | node tree induction =>
      rw [places_eq, List.map_cons]
      refine ordered_root (placesFrom_ordered induction) fun member => ?_
      obtain ⟨⟨_, _⟩, below, rfl⟩ := List.mem_map.mp member
      simp [mem_placesFrom] at below

/-! ### Listed nodes -/

theorem map_snd_placesFrom {position : Nat} {trees : List Tree}
    (each : ∀ tree ∈ trees, tree.places.map Prod.snd = tree.preorder) :
    (placesFrom position trees).map Prod.snd = trees.flatMap preorder := by
  induction trees generalizing position with
  | nil => rfl
  | cons tree trees induction =>
      obtain ⟨here, others⟩ := List.forall_mem_cons.mp each
      rw [placesFrom, List.map_append, List.map_map, List.flatMap_cons, induction others, ← here]
      rfl

theorem map_snd_places (tree : Tree) : tree.places.map Prod.snd = tree.preorder := by
  induction tree using Tree.induction with
  | node tree induction =>
      rw [places_eq, preorder_eq_cons, List.map_cons, map_snd_placesFrom induction]

theorem mem_preorder_iff {tree node : Tree} :
    node ∈ tree.preorder ↔ ∃ path, tree.at? path = some node := by
  simp [← map_snd_places, mem_places_iff]

/-! ## Statements and scopes -/

mutual
/-- The statements that a walk over a statement comes to, itself included, in order. A function
body is not a statement itself. -/
def statements : Tree → List Site
  | ⟨.root, _, _, _, children⟩ => ⟨[], .root⟩ :: statementsFrom 0 children
  | ⟨.block, _, _, _, children⟩ => ⟨[], .block⟩ :: statementsFrom 0 children
  | ⟨.function, _, _, _, _ :: _ :: rest⟩ =>
      ⟨[], .function⟩ :: (bodyStatements rest).map (Site.under 2)
  | ⟨.whileLoop, _, _, _, _ :: bodies⟩ => ⟨[], .whileLoop⟩ :: statementsFrom 1 bodies
  | ⟨.ifThen, _, _, _, _ :: bodies⟩ => ⟨[], .ifThen⟩ :: statementsFrom 1 bodies
  | ⟨.ifElse, _, _, _, _ :: bodies⟩ => ⟨[], .ifElse⟩ :: statementsFrom 1 bodies
  | tree => [⟨[], tree.kind⟩]

def bodyStatements : List Tree → List Site
  | [] => []
  | ⟨_, _, _, _, children⟩ :: _ => statementsFrom 0 children

def statementsFrom (position : Nat) : List Tree → List Site
  | [] => []
  | tree :: rest => tree.statements.map (Site.under position) ++ statementsFrom (position + 1) rest
end

def openings (tree : Tree) : List Site :=
  tree.statements.filter (·.kind.opensScope)

def openingsFrom (position : Nat) (trees : List Tree) : List Site :=
  (statementsFrom position trees).filter (·.kind.opensScope)

theorem filter_under (index : Nat) (places : List Site) :
    (places.map (Site.under index)).filter (·.kind.opensScope) =
      (places.filter (·.kind.opensScope)).map (Site.under index) := by
  rw [List.filter_map]
  rfl

@[simp] theorem openingsFrom_nil (position : Nat) : openingsFrom position [] = [] := by
  simp [openingsFrom, statementsFrom]

@[simp] theorem openingsFrom_cons (position : Nat) (tree : Tree) (rest : List Tree) :
    openingsFrom position (tree :: rest) =
      tree.openings.map (Site.under position) ++ openingsFrom (position + 1) rest := by
  rw [openingsFrom, statementsFrom, List.filter_append, filter_under]
  rfl

section

variable (kind : Kind) (location : Location) (text : String) (note : Note)

theorem statements_control {kind : Kind} (control : kind.isControl = true) (test : Tree)
    (bodies : List Tree) :
    statements ⟨kind, location, text, note, test :: bodies⟩ =
      ⟨[], kind⟩ :: statementsFrom 1 bodies := by
  cases kind <;> simp [Kind.isControl] at control <;> simp [statements]

theorem statements_simple {tree : Tree} (simple : tree.isCompound = false) :
    tree.statements = [⟨[], tree.kind⟩] := by
  unfold isCompound at simple
  split at simple <;> simp_all [statements]

theorem openings_root (children : List Tree) :
    openings ⟨.root, location, text, note, children⟩ = openingsFrom 0 children := by
  simp [openings, openingsFrom, statements, Kind.opensScope]

theorem openings_block (children : List Tree) :
    openings ⟨.block, location, text, note, children⟩ =
      ⟨[], .block⟩ :: openingsFrom 0 children := by
  simp [openings, openingsFrom, statements, Kind.opensScope]

theorem openings_function (declarator parameters body : Tree) (rest : List Tree) :
    openings ⟨.function, location, text, note, declarator :: parameters :: body :: rest⟩ =
      ⟨[], .function⟩ :: (openingsFrom 0 body.children).map (Site.under 2) := by
  cases body
  rw [openings, statements, List.filter_cons, if_pos (by rfl), filter_under]
  rfl

theorem openings_prototype (children : List Tree) :
    openings ⟨.prototype, location, text, note, children⟩ = [⟨[], .prototype⟩] := by
  simp [openings, statements, Kind.opensScope]

theorem openings_control {kind : Kind} (control : kind.isControl = true) (test : Tree)
    (bodies : List Tree) :
    openings ⟨kind, location, text, note, test :: bodies⟩ = openingsFrom 1 bodies := by
  rw [openings, statements_control _ _ _ control, List.filter_cons,
    if_neg (by cases kind <;> simp_all [Kind.isControl, Kind.opensScope])]
  rfl

theorem IsShaped.openings_simple {tree : Tree} (shaped : tree.IsShaped)
    (simple : tree.isCompound = false) : tree.openings = [] := by
  rcases tree with ⟨kind, location, text, note, children⟩
  rw [openings, statements_simple simple]
  cases kind with
  | block => simp [isCompound] at simple
  | function =>
      obtain ⟨_, _, _, _, _, _, _, rfl, _⟩ := shaped.function
      simp [isCompound] at simple
  | prototype =>
      obtain ⟨_, _, _, rfl, _⟩ := shaped.prototype
      simp [isCompound] at simple
  | _ => rfl

end

/-! ## The order of the walk -/

def InPreorder (places : List Site) : Prop :=
  (places.map (·.path)).Pairwise (· < ·)

theorem map_path_under (index : Nat) (places : List Site) :
    (places.map (Site.under index)).map (·.path) = (places.map (·.path)).map (index :: ·) := by
  simp [Site.under]

theorem InPreorder.under {places : List Site} (ordered : InPreorder places) (index : Nat) :
    InPreorder (places.map (Site.under index)) := by
  rw [InPreorder, map_path_under]
  exact ordered_under ordered index

theorem InPreorder.cons_root {places : List Site} (ordered : InPreorder places) (kind : Kind)
    (below : ∀ place ∈ places, place.path ≠ []) : InPreorder (⟨[], kind⟩ :: places) := by
  refine ordered_root ordered fun member => ?_
  obtain ⟨place, inside, root⟩ := List.mem_map.mp member
  exact below place inside root

theorem exists_of_mem_statementsFrom {position : Nat} {trees : List Tree} {place : Site}
    (member : place ∈ statementsFrom position trees) :
    ∃ (index : Nat) (child : Tree) (inner : Site), trees[index]? = some child ∧
      inner ∈ child.statements ∧ place = inner.under (position + index) := by
  induction trees generalizing position with
  | nil => simp [statementsFrom] at member
  | cons tree rest induction =>
      rw [statementsFrom] at member
      rcases List.mem_append.mp member with here | later
      · obtain ⟨inner, inside, rfl⟩ := List.mem_map.mp here
        exact ⟨0, tree, inner, rfl, inside, rfl⟩
      · obtain ⟨index, child, inner, found, inside, rfl⟩ := induction later
        exact ⟨index + 1, child, inner, found, inside, by rw [Nat.add_assoc, Nat.add_comm 1]⟩

theorem inPreorder_statementsFrom {position : Nat} {trees : List Tree}
    (each : ∀ tree ∈ trees, InPreorder tree.statements) :
    InPreorder (statementsFrom position trees) := by
  induction trees generalizing position with
  | nil => simp [statementsFrom, InPreorder]
  | cons tree rest induction =>
      obtain ⟨here, others⟩ := List.forall_mem_cons.mp each
      rw [statementsFrom, InPreorder, List.map_append, map_path_under]
      refine ordered_children here (induction others) fun path member => ?_
      obtain ⟨place, behind, rfl⟩ := List.mem_map.mp member
      obtain ⟨index, _, inner, _, _, rfl⟩ := exists_of_mem_statementsFrom behind
      exact ⟨position + 1 + index, inner.path, by omega, rfl⟩

theorem inPreorder_statements (tree : Tree) : InPreorder tree.statements := by
  have single (kind : Kind) : InPreorder [⟨[], kind⟩] := by simp [InPreorder]
  have among (kind : Kind) {position : Nat} {trees : List Tree}
      (each : ∀ tree ∈ trees, InPreorder tree.statements) :
      InPreorder (⟨[], kind⟩ :: statementsFrom position trees) := by
    refine (inPreorder_statementsFrom each).cons_root kind fun place member => ?_
    obtain ⟨_, _, _, _, _, rfl⟩ := exists_of_mem_statementsFrom member
    simp [Site.under]
  induction tree using Tree.statementInduction with
  | root location text note children induction => exact among .root induction
  | block location text note children induction => exact among .block induction
  | function location text note declarator parameters rest induction =>
      rw [statements]
      refine InPreorder.cons_root (InPreorder.under ?_ 2) .function (by simp [Site.under])
      rcases rest with _ | ⟨⟨kind, place, word, bodyNote, children⟩, rest⟩
      · simp [bodyStatements, InPreorder]
      · exact inPreorder_statementsFrom (induction _ List.mem_cons_self)
  | prototype location text note declarator parameters rest => exact single .prototype
  | control kind location text note test bodies control induction =>
      rw [statements_control _ _ _ control]
      exact among kind induction
  | simple tree simple =>
      rw [statements_simple simple]
      exact single tree.kind

theorem inPreorder_openings (tree : Tree) : InPreorder tree.openings := by
  have ordered := tree.inPreorder_statements
  exact List.Pairwise.sublist (List.filter_sublist.map _) ordered

/-! ## Statements are nodes -/

def HasAt (tree : Tree) (place : Site) : Prop :=
  ∃ node, tree.at? place.path = some node ∧ node.kind = place.kind

theorem HasAt.parent {tree child : Tree} {index : Nat} (found : tree.children[index]? = some child)
    {place : Site} (has : child.HasAt place) : tree.HasAt (place.under index) := by
  obtain ⟨node, here, kind⟩ := has
  exact ⟨node, by simp [Site.under, at?, found, here], kind⟩

theorem hasAt_of_mem_statements {tree : Tree} {place : Site}
    (member : place ∈ tree.statements) : tree.HasAt place := by
  have root (tree : Tree) : tree.HasAt ⟨[], tree.kind⟩ := ⟨tree, rfl, rfl⟩
  induction tree using Tree.statementInduction generalizing place with
  | root location text note children induction | block location text note children induction =>
      rcases List.mem_cons.mp member with rfl | below
      · exact root _
      · obtain ⟨index, child, inner, found, inside, rfl⟩ := exists_of_mem_statementsFrom below
        rw [Nat.zero_add]
        exact .parent found (induction child (List.mem_of_getElem? found) inside)
  | function location text note declarator parameters rest induction =>
      rw [statements] at member
      rcases List.mem_cons.mp member with rfl | below
      · exact root _
      · obtain ⟨inBody, inside, rfl⟩ := List.mem_map.mp below
        rcases rest with _ | ⟨⟨kind, place, word, bodyNote, children⟩, rest⟩
        · simp [bodyStatements] at inside
        · obtain ⟨index, child, inner, found, reached, rfl⟩ := exists_of_mem_statementsFrom inside
          rw [Nat.zero_add]
          exact .parent rfl (.parent found
            (induction _ List.mem_cons_self child (List.mem_of_getElem? found) reached))
  | prototype location text note declarator parameters rest =>
      rw [List.mem_singleton.mp member]
      exact root _
  | control kind location text note test bodies control induction =>
      rw [statements_control _ _ _ control] at member
      rcases List.mem_cons.mp member with rfl | below
      · exact root _
      · obtain ⟨index, child, inner, found, inside, rfl⟩ := exists_of_mem_statementsFrom below
        refine .parent ?_ (induction child (List.mem_of_getElem? found) inside)
        rw [Nat.add_comm]
        exact found
  | simple tree simple =>
      rw [statements_simple simple] at member
      rw [List.mem_singleton.mp member]
      exact root tree

/-! ## Notes do not matter -/

private theorem statementsFrom_bare {position : Nat} {trees : List Tree}
    (each : ∀ tree ∈ trees, tree.bare.statements = tree.statements) :
    statementsFrom position (trees.map bare) = statementsFrom position trees := by
  induction trees generalizing position with
  | nil => rfl
  | cons tree rest induction => simp_all [statementsFrom]

theorem statements_bare (tree : Tree) : tree.bare.statements = tree.statements := by
  induction tree using Tree.statementInduction with
  | root location text note children induction =>
      simp [bare_mk, statements, statementsFrom_bare induction]
  | block location text note children induction =>
      simp [bare_mk, statements, statementsFrom_bare induction]
  | function location text note declarator parameters rest induction =>
      rcases rest with _ | ⟨body, rest⟩
      · simp [bare_mk, statements, bodyStatements]
      · have sameBody := fun position =>
          @statementsFrom_bare position _ (induction body List.mem_cons_self)
        cases body
        simp_all [bare_mk, statements, bodyStatements]
  | prototype location text note declarator parameters rest => simp [bare_mk, statements]
  | control kind location text note test bodies control induction =>
      simp [bare_mk, statements_control _ _ _ control, statementsFrom_bare induction]
  | simple tree simple =>
      rw [statements_simple simple, statements_simple (by simpa using simple), bare_kind]

theorem openings_congr {tree other : Tree} (same : other.bare = tree.bare) :
    other.openings = tree.openings := by
  rw [openings, openings, ← statements_bare, same, statements_bare]

end Tree

end OcLang
