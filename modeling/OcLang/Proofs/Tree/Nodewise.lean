import OcLang.Proofs.Tree.Forms

namespace OcLang.Tree

/-! ## Trees changed node by node

Other texts and other notes leave the shape of a tree as it is: every node keeps
its kind, its place and the number of its children. -/

mutual
def mapNodes (spell : String → String) (change : Note → Note) : Tree → Tree
  | ⟨kind, location, text, note, children⟩ =>
      ⟨kind, location, spell text, change note, mapNodesAll spell change children⟩

def mapNodesAll (spell : String → String) (change : Note → Note) : List Tree → List Tree
  | [] => []
  | tree :: rest => tree.mapNodes spell change :: mapNodesAll spell change rest
end

section

variable (spell : String → String) (change : Note → Note)

theorem mapNodesAll_eq_map (trees : List Tree) :
    mapNodesAll spell change trees = trees.map (mapNodes spell change) := by
  induction trees with
  | nil => rfl
  | cons tree rest induction => simp [mapNodesAll, induction]

theorem mapNodes_mk (kind : Kind) (location : Location) (text : String) (note : Note)
    (children : List Tree) :
    mapNodes spell change ⟨kind, location, text, note, children⟩ =
      ⟨kind, location, spell text, change note, children.map (mapNodes spell change)⟩ := by
  simp [mapNodes, mapNodesAll_eq_map]

theorem mapNotes_eq_mapNodes (tree : Tree) : tree.mapNotes change = tree.mapNodes id change := by
  induction tree using Tree.induction with
  | node tree induction =>
      obtain ⟨kind, location, text, note, children⟩ := tree
      rw [mapNotes_mk, mapNodes_mk, List.map_congr_left induction]
      rfl

variable (tree : Tree)

@[simp] theorem mapNodes_kind : (tree.mapNodes spell change).kind = tree.kind := by
  cases tree
  rfl

@[simp] theorem mapNodes_location : (tree.mapNodes spell change).location = tree.location := by
  cases tree
  rfl

@[simp] theorem mapNodes_text : (tree.mapNodes spell change).text = spell tree.text := by
  cases tree
  rfl

@[simp] theorem mapNodes_note : (tree.mapNodes spell change).note = change tree.note := by
  cases tree
  rfl

@[simp] theorem mapNodes_children :
    (tree.mapNodes spell change).children = tree.children.map (mapNodes spell change) := by
  cases tree
  simp [mapNodes_mk]

@[simp] theorem declaredName?_mapNodes :
    (tree.mapNodes spell change).declaredName? =
      tree.declaredName?.map (mapNodes spell change) := by
  simp only [declaredName?, mapNodes_children, List.getLast?_map]
  cases tree.children.getLast? with
  | none => rfl
  | some last => cases naming : last.kind.isNaming <;> simp [Option.filter, naming]

@[simp] theorem hasArrayMark_mapNodes :
    (tree.mapNodes spell change).hasArrayMark = tree.hasArrayMark := by
  simp [hasArrayMark, Function.comp_def]

@[simp] theorem hasOperands_mapNodes :
    (tree.mapNodes spell change).hasOperands = tree.hasOperands := by
  obtain ⟨kind, location, text, note, children⟩ := tree
  rcases children with _ | ⟨first, _ | ⟨second, _ | ⟨third, rest⟩⟩⟩ <;> cases kind with
  | allocate what => cases what <;> rfl
  | _ => rfl

@[simp] theorem isCompound_mapNodes :
    (tree.mapNodes spell change).isCompound = tree.isCompound := by
  obtain ⟨kind, location, text, note, children⟩ := tree
  rcases children with _ | ⟨first, _ | ⟨second, rest⟩⟩ <;> cases kind <;> rfl

end

end OcLang.Tree
