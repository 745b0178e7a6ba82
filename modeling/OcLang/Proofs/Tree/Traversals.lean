import OcLang.Proofs.Tree.Places

namespace OcLang.Tree

/-! # Ways through a tree

A tour with a stack, the list of a recursive walk and the check of shapes come to the nodes
of a tree in one order, which is the order of the places where the nodes stand. -/

/-! ## Tours -/

namespace Tour

inductive Yields : Tour → List Tree → Prop
  | ended {tour : Tour} (done : tour.next? = none) : Yields tour []
  | visit {tour later : Tour} {node : Tree} {nodes : List Tree}
      (step : tour.next? = some (node, later)) (more : Yields later nodes) :
      Yields tour (node :: nodes)

def remaining (tour : Tour) : List Tree :=
  tour.pending.toList.reverse.flatMap preorder

theorem remaining_eq_nil {tour : Tour} (done : tour.next? = none) : tour.remaining = [] := by
  simp [remaining, next?_eq_none_iff.mp done]

/-- A step takes the first of the remaining nodes. The children of the visited node were put on
the stack from right to left, so from the top down they are in order again. -/
theorem remaining_eq_cons {tour later : Tour} {node : Tree}
    (step : tour.next? = some (node, later)) : tour.remaining = node :: later.remaining := by
  obtain ⟨below, before, behind⟩ := next?_eq_some_iff.mp step
  simp [remaining, before, behind, preorder_eq_cons node]

theorem Yields.eq_remaining {tour : Tour} {nodes : List Tree} (yields : tour.Yields nodes) :
    nodes = tour.remaining := by
  induction yields with
  | ended done => exact (remaining_eq_nil done).symm
  | visit step more induction => rw [remaining_eq_cons step, induction]

theorem yields_nodes (tour : Tour) : tour.Yields tour.nodes := by
  induction tour using Tour.nodes.induct with
  | case1 tour done =>
      rw [nodes, done]
      exact .ended done
  | case2 tour node later step induction =>
      rw [nodes, step]
      exact .visit step induction

theorem nodes_eq_remaining (tour : Tour) : tour.nodes = tour.remaining :=
  tour.yields_nodes.eq_remaining

theorem yields_iff {tour : Tour} {nodes : List Tree} :
    tour.Yields nodes ↔ nodes = tour.remaining := by
  constructor
  · exact Yields.eq_remaining
  · rintro rfl
    rw [← nodes_eq_remaining]
    exact tour.yields_nodes

end Tour

theorem remaining_tour (tree : Tree) : tree.tour.remaining = tree.preorder := by
  simp [tour, Tour.remaining]

theorem descendants_eq_preorder (tree : Tree) : tree.descendants = tree.preorder := by
  rw [descendants, Tour.nodes_eq_remaining, remaining_tour]

example : (descendants ⟨.root, {}, "f", {}, [⟨.block, {}, "b", {}, [⟨.block, {}, "a", {}, []⟩]⟩,
    ⟨.block, {}, "d", {}, [⟨.block, {}, "c", {}, []⟩, ⟨.block, {}, "e", {}, []⟩]⟩]⟩).map (·.text) =
    ["f", "b", "a", "d", "c", "e"] := by
  cbv

/-! ## The ways agree -/

/-- A tour comes to an end, and what it yields until then is what a recursive walk lists: the
nodes at all places of the tree, each of them once and in the order of the places. The check of
shapes fails at the first of these nodes that is out of shape, if there is one. -/
theorem traversals_agree (tree : Tree) :
    (∀ nodes, tree.tour.Yields nodes ↔ nodes = tree.preorder) ∧
      tree.descendants = tree.preorder ∧
      (tree.places.map Prod.snd = tree.descendants ∧
        (tree.places.map Prod.fst).Pairwise (· < ·) ∧
        ∀ path node, (path, node) ∈ tree.places ↔ tree.at? path = some node) ∧
      (tree.shapeError? = none ↔ ∀ node ∈ tree.descendants, node.shapeFault? = none) ∧
      ∀ error, tree.shapeError? = some error ↔
        ∃ before node after fault, tree.descendants = before ++ node :: after ∧
          (∀ earlier ∈ before, earlier.shapeFault? = none) ∧ node.shapeFault? = some fault ∧
          error = ⟨node.kind, node.location, fault⟩ := by
  have same := tree.descendants_eq_preorder
  refine ⟨fun nodes => ?_, same, ⟨?_, tree.places_ordered, fun path node => mem_places_iff⟩,
    ?_, fun error => ?_⟩
  · rw [Tour.yields_iff, remaining_tour]
  · rw [same, map_snd_places]
  · rw [same]
    exact isShaped_iff
  · rw [same]
    exact shapeError?_eq_some_iff

end OcLang.Tree
