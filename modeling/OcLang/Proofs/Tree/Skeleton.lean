import OcLang.Tree

namespace OcLang.Tree

/-! ## Trees without notes

The analysis changes notes and nothing else. What depends on the kinds, places,
texts and children of a tree alone can therefore be read off before or after
it. -/

mutual
def mapNotes (change : Note → Note) : Tree → Tree
  | ⟨kind, location, text, note, children⟩ =>
      ⟨kind, location, text, change note, mapNotesAll change children⟩

def mapNotesAll (change : Note → Note) : List Tree → List Tree
  | [] => []
  | tree :: rest => tree.mapNotes change :: mapNotesAll change rest
end

def bare (tree : Tree) : Tree :=
  tree.mapNotes fun _ => {}

def IsFresh (tree : Tree) : Prop :=
  tree.bare = tree

theorem mapNotesAll_eq_map (change : Note → Note) (trees : List Tree) :
    mapNotesAll change trees = trees.map (mapNotes change) := by
  induction trees with
  | nil => rfl
  | cons tree rest induction => simp [mapNotesAll, induction]

theorem mapNotes_mk (change : Note → Note) (kind : Kind) (location : Location) (text : String)
    (note : Note) (children : List Tree) :
    mapNotes change ⟨kind, location, text, note, children⟩ =
      ⟨kind, location, text, change note, children.map (mapNotes change)⟩ := by
  simp [mapNotes, mapNotesAll_eq_map]

theorem bare_mk (kind : Kind) (location : Location) (text : String) (note : Note)
    (children : List Tree) :
    bare ⟨kind, location, text, note, children⟩ =
      ⟨kind, location, text, {}, children.map bare⟩ :=
  mapNotes_mk _ kind location text note children

@[simp] theorem bare_kind (tree : Tree) : tree.bare.kind = tree.kind := by
  cases tree
  rfl

@[simp] theorem bare_location (tree : Tree) : tree.bare.location = tree.location := by
  cases tree
  rfl

@[simp] theorem bare_text (tree : Tree) : tree.bare.text = tree.text := by
  cases tree
  rfl

@[simp] theorem bare_children (tree : Tree) : tree.bare.children = tree.children.map bare := by
  cases tree
  simp [bare_mk]

@[simp] theorem bare_mapNote (change : Note → Note) (tree : Tree) :
    (tree.mapNote change).bare = tree.bare := by
  cases tree
  simp [mapNote, bare_mk]

/-- Trees that differ in notes alone agree in everything else. -/
theorem bare_eq_iff (first second : Tree) :
    first.bare = second.bare ↔
      first.kind = second.kind ∧ first.location = second.location ∧ first.text = second.text ∧
        first.children.map bare = second.children.map bare := by
  cases first
  cases second
  simp [bare_mk]

theorem exists_of_bare_eq {tree : Tree} {kind : Kind} {location : Location} {text : String}
    {note : Note} {children : List Tree}
    (same : tree.bare = bare ⟨kind, location, text, note, children⟩) :
    ∃ otherNote others, tree = ⟨kind, location, text, otherNote, others⟩ ∧
      others.map bare = children.map bare := by
  obtain ⟨treeKind, treeLocation, treeText, treeNote, treeChildren⟩ := tree
  simp only [bare_mk, mk.injEq] at same
  obtain ⟨rfl, rfl, rfl, _, sameChildren⟩ := same
  exact ⟨treeNote, treeChildren, rfl, sameChildren⟩

@[simp] theorem declaredName?_bare (tree : Tree) :
    tree.bare.declaredName? = tree.declaredName?.map bare := by
  simp only [declaredName?, bare_children, List.getLast?_map]
  cases tree.children.getLast? with
  | none => rfl
  | some last => cases naming : last.kind.isNaming <;> simp [Option.filter, naming]

/-! ## Induction over trees -/

theorem induction {motive : Tree → Prop}
    (node : ∀ tree, (∀ child ∈ tree.children, motive child) → motive tree) (tree : Tree) :
    motive tree :=
  node tree fun child _ => induction node child
termination_by sizeOf tree
decreasing_by
  rename_i member
  cases tree
  have smaller := List.sizeOf_lt_of_mem member
  simp at smaller ⊢
  omega

/-! ## The nodes of a tree -/

theorem preorderAll_eq_flatMap (trees : List Tree) : preorderAll trees = trees.flatMap preorder := by
  induction trees with
  | nil => rfl
  | cons tree rest induction => simp [preorderAll, induction]

section

variable {kind : Kind} {location : Location} {text : String} {note : Note} {children : List Tree}

theorem preorder_mk :
    preorder ⟨kind, location, text, note, children⟩ =
      ⟨kind, location, text, note, children⟩ :: children.flatMap preorder := by
  rw [preorder, preorderAll_eq_flatMap]

theorem forall_mem_preorder {holds : Tree → Prop} :
    (∀ node ∈ preorder ⟨kind, location, text, note, children⟩, holds node) ↔
      holds ⟨kind, location, text, note, children⟩ ∧
        ∀ child ∈ children, ∀ node ∈ child.preorder, holds node := by
  simp only [preorder_mk, List.forall_mem_cons, List.mem_flatMap]
  constructor
  · intro all
    exact ⟨all.1, fun child member node inside => all.2 node ⟨child, member, inside⟩⟩
  · intro all
    refine ⟨all.1, fun node inside => ?_⟩
    rcases inside with ⟨child, member, below⟩
    exact all.2 child member node below

end

theorem preorder_eq_cons (tree : Tree) :
    tree.preorder = tree :: tree.children.flatMap preorder := by
  cases tree
  exact preorder_mk

theorem mem_preorder_self (tree : Tree) : tree ∈ tree.preorder := by
  rw [preorder_eq_cons]
  exact List.mem_cons_self

theorem mem_preorder_of_child {tree child node : Tree} (member : child ∈ tree.children)
    (inside : node ∈ child.preorder) : node ∈ tree.preorder := by
  rw [preorder_eq_cons]
  exact List.mem_cons_of_mem _ (List.mem_flatMap.mpr ⟨child, member, inside⟩)

/-- A change of every node can be made before or after the nodes are listed. -/
theorem preorder_of_children {change : Tree → Tree}
    (below : ∀ tree, (change tree).children = tree.children.map change) (tree : Tree) :
    (change tree).preorder = tree.preorder.map change := by
  induction tree using Tree.induction with
  | node tree induction =>
      have each : tree.children.map (fun child => (change child).preorder) =
          tree.children.map fun child => child.preorder.map change :=
        List.map_congr_left induction
      rw [preorder_eq_cons, preorder_eq_cons tree, below, List.flatMap_map, List.map_cons,
        List.map_flatMap, List.flatMap_def, each, List.flatMap_def]

theorem preorder_bare (tree : Tree) : tree.bare.preorder = tree.preorder.map bare :=
  preorder_of_children bare_children tree

theorem mapNotes_mapNotes (first second : Note → Note) (tree : Tree) :
    (tree.mapNotes first).mapNotes second = tree.mapNotes fun note => second (first note) := by
  induction tree using Tree.induction with
  | node tree induction =>
      cases tree
      simp_all [mapNotes_mk]

def blocksOnly (tree : Tree) : Tree :=
  tree.mapNotes fun note => { block := note.block }

theorem blocksOnly_mk (kind : Kind) (location : Location) (text : String) (note : Note)
    (children : List Tree) :
    blocksOnly ⟨kind, location, text, note, children⟩ =
      ⟨kind, location, text, { block := note.block }, children.map blocksOnly⟩ :=
  mapNotes_mk _ kind location text note children

@[simp] theorem bare_blocksOnly (tree : Tree) : tree.blocksOnly.bare = tree.bare :=
  mapNotes_mapNotes _ _ tree

/-- Block numbers do not matter to what a tree looks like. -/
theorem bare_eq_of_blocksOnly_eq {first second : Tree}
    (same : first.blocksOnly = second.blocksOnly) : first.bare = second.bare := by
  rw [← bare_blocksOnly first, same, bare_blocksOnly second]

end OcLang.Tree
