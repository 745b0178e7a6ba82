import OcLang.Location
import OcLang.Kind
import OcLang.Attributes

namespace OcLang

/-! ## Attributed trees

A node carries what was read from the source (kind, place, text, children) and
a note of what the analysis found out about it. A tree that was just read has
empty notes. Any kind may have any children: shape is a separate question. -/

structure Note where
  attributes : Attributes := {}
  block : Nat := 0
  structName : Option String := none
  declaredAt : Option Location := none
  symbol : Option Nat := none
deriving DecidableEq, Repr, Inhabited

structure Tree where
  kind : Kind
  location : Location
  text : String
  note : Note := {}
  children : List Tree := []

instance : Inhabited Tree := ⟨{ kind := .root, location := {}, text := "" }⟩

namespace Note

def add (note : Note) (attributes : Attributes) : Note :=
  { note with attributes := note.attributes ∪ attributes }

def addType (note : Note) (type : ValueType) (roles : Roles := {}) : Note :=
  { note.add { type := type.flags, roles := roles } with structName := type.structName }

def type (note : Note) : ValueType :=
  { flags := note.attributes.type, structName := note.structName }

def isTyped (note : Note) : Bool :=
  note.attributes.type.isTyped

end Note

namespace Tree

def mapNote (change : Note → Note) (tree : Tree) : Tree :=
  { tree with note := change tree.note }

/-! ## Declarators

A declarator is a type node whose last child is the declared name, after an
optional array mark. -/

def declaredName? (tree : Tree) : Option Tree :=
  tree.children.getLast?.filter (·.kind.isNaming)

private def mapLast (change : Tree → Tree) : List Tree → List Tree
  | [] => []
  | [last] => [change last]
  | first :: rest => first :: mapLast change rest

def mapDeclaredName (change : Tree → Tree) (tree : Tree) : Tree :=
  { tree with
    children := mapLast (fun last => if last.kind.isNaming then change last else last)
      tree.children }

def hasArrayMark (tree : Tree) : Bool :=
  tree.children.any (·.kind == .arrayMark)

@[simp] theorem declaredName?_mapNote (change : Note → Note) (tree : Tree) :
    (tree.mapNote change).declaredName? = tree.declaredName? := rfl

private theorem getLast?_mapLast (change : Tree → Tree) (trees : List Tree) :
    (mapLast change trees).getLast? = trees.getLast?.map change := by
  induction trees using mapLast.induct with
  | case1 => rfl
  | case2 last => rfl
  | case3 first rest more induction =>
      cases rest with
      | nil => exact absurd rfl more
      | cons second rest =>
          cases form : mapLast change (second :: rest) with
          | nil => cases rest <;> simp [mapLast] at form
          | cons head tail => simp_all [mapLast]

private theorem map_mapLast {β : Type} (view : Tree → β) (change : Tree → Tree)
    (same : ∀ tree, view (change tree) = view tree) (trees : List Tree) :
    (mapLast change trees).map view = trees.map view := by
  induction trees using mapLast.induct with
  | case1 => rfl
  | case2 last => simp [mapLast, same]
  | case3 first rest more induction => simp_all [mapLast]

private theorem mapLast_map (change first second : Tree → Tree)
    (same : ∀ tree, change (first tree) = second (change tree)) (trees : List Tree) :
    (mapLast first trees).map change = mapLast second (trees.map change) := by
  induction trees using mapLast.induct with
  | case1 => rfl
  | case2 last => simp [mapLast, same]
  | case3 head rest more induction =>
      cases rest with
      | nil => exact absurd rfl more
      | cons next rest => simpa [mapLast] using induction

/-- A change of all children can be made before or after the declared name is
changed. -/
theorem map_mapDeclaredName (change first second : Tree → Tree)
    (same : ∀ tree, change (first tree) = second (change tree))
    (sameKind : ∀ tree, (change tree).kind = tree.kind) (kind : Kind) (location : Location)
    (text : String) (note : Note) (tree : Tree) :
    (⟨kind, location, text, note, (tree.mapDeclaredName first).children.map change⟩ : Tree) =
      mapDeclaredName second ⟨kind, location, text, note, tree.children.map change⟩ := by
  simp only [mapDeclaredName]
  rw [mapLast_map]
  intro child
  cases naming : child.kind.isNaming <;> simp [naming, same, sameKind]

private theorem mapLast_mapLast (first second : Tree → Tree) (trees : List Tree) :
    mapLast second (mapLast first trees) = mapLast (fun tree => second (first tree)) trees := by
  induction trees using mapLast.induct with
  | case1 => rfl
  | case2 last => rfl
  | case3 head rest more induction =>
      cases rest with
      | nil => exact absurd rfl more
      | cons next rest =>
          cases form : mapLast first (next :: rest) with
          | nil => cases rest <;> simp [mapLast] at form
          | cons changed others => simp_all [mapLast]

theorem mapDeclaredName_mapDeclaredName (first second : Tree → Tree)
    (sameKind : ∀ name, (first name).kind = name.kind) (tree : Tree) :
    (tree.mapDeclaredName first).mapDeclaredName second =
      tree.mapDeclaredName fun name => second (first name) := by
  simp only [mapDeclaredName, mapLast_mapLast]
  congr 2
  funext name
  cases naming : name.kind.isNaming <;> simp [naming, sameKind]

/-- The declared name is what has been changed, as long as it stays a name. -/
theorem declaredName?_mapDeclaredName (change : Tree → Tree)
    (sameKind : ∀ name, (change name).kind = name.kind) (tree : Tree) :
    (tree.mapDeclaredName change).declaredName? = tree.declaredName?.map change := by
  simp only [declaredName?, mapDeclaredName, getLast?_mapLast]
  cases tree.children.getLast? with
  | none => rfl
  | some last => cases naming : last.kind.isNaming <;> simp [Option.filter, naming, sameKind]

/-- A view of the children that the change does not touch. -/
theorem map_children_mapDeclaredName {β : Type} (view : Tree → β) (change : Tree → Tree)
    (same : ∀ name, view (change name) = view name) (tree : Tree) :
    (tree.mapDeclaredName change).children.map view = tree.children.map view := by
  apply map_mapLast
  intro child
  cases child.kind.isNaming <;> simp [same]

/-- The change touches no child but the declared name. -/
theorem mem_children_mapDeclaredName {change : Tree → Tree} {tree child : Tree}
    (member : child ∈ (tree.mapDeclaredName change).children) :
    child ∈ tree.children ∨ ∃ name, tree.declaredName? = some name ∧ child = change name := by
  rcases tree with ⟨kind, location, text, note, children⟩
  simp only [mapDeclaredName, declaredName?] at member ⊢
  induction children using mapLast.induct with
  | case1 => contradiction
  | case2 last =>
      cases naming : last.kind.isNaming <;> simp_all [mapLast, Option.filter]
  | case3 first rest more induction =>
      cases rest with
      | nil => exact absurd rfl more
      | cons second rest =>
          rw [mapLast, List.mem_cons] at member
          · rcases member with rfl | below
            · exact .inl List.mem_cons_self
            · rw [List.getLast?_cons_cons]
              exact (induction below).imp_left (List.mem_cons_of_mem _)
          · exact more

/-! ## Walks over a whole tree -/

mutual
def size : Tree → Nat
  | ⟨_, _, _, _, children⟩ => sizeAll children + 1

def sizeAll : List Tree → Nat
  | [] => 0
  | tree :: rest => tree.size + sizeAll rest
end

mutual
def preorder : Tree → List Tree
  | ⟨kind, location, text, note, children⟩ =>
      ⟨kind, location, text, note, children⟩ :: preorderAll children

def preorderAll : List Tree → List Tree
  | [] => []
  | tree :: rest => tree.preorder ++ preorderAll rest
end

/-! ### Tours

A tour comes to every node of a tree without recursion. Its stack grows by the children of
each tree that is taken off it, so it is the nodes in the trees on the stack that get fewer. -/

structure Tour where
  pending : Array Tree

theorem sizeAll_append (first second : List Tree) :
    sizeAll (first ++ second) = sizeAll first + sizeAll second := by
  induction first with
  | nil => simp [sizeAll]
  | cons tree first induction => simp [sizeAll, induction, Nat.add_assoc]

theorem sizeAll_reverse (trees : List Tree) : sizeAll trees.reverse = sizeAll trees := by
  induction trees with
  | nil => rfl
  | cons tree trees induction => simp [sizeAll, sizeAll_append, induction, Nat.add_comm]

namespace Tour

/-- Visit the tree at the end of the stack. Its children take its place, the last of them
first, so that the first one is visited next. -/
def next? (tour : Tour) : Option (Tree × Tour) :=
  tour.pending.back?.map fun tree => (tree, ⟨tour.pending.pop ++ tree.children.reverse⟩)

def size (tour : Tour) : Nat :=
  sizeAll tour.pending.toList

theorem next?_eq_none_iff {tour : Tour} : tour.next? = none ↔ tour.pending = #[] := by
  simp [next?]

/-- A visit leaves what is below on the stack as it is. -/
theorem next?_eq_some_iff {tour later : Tour} {tree : Tree} :
    tour.next? = some (tree, later) ↔ ∃ below : Array Tree,
      tour.pending = below.push tree ∧ later.pending = below ++ tree.children.reverse := by
  rcases later with ⟨pending⟩
  simp only [next?, Option.map_eq_some_iff, Array.back?_eq_some_iff, Prod.mk.injEq, mk.injEq]
  constructor
  · rintro ⟨_, ⟨below, stack⟩, rfl, rfl⟩
    exact ⟨below, stack, by rw [stack, Array.pop_push]⟩
  · rintro ⟨below, stack, rfl⟩
    exact ⟨tree, ⟨below, stack⟩, rfl, by rw [stack, Array.pop_push]⟩

theorem size_lt_of_next? {tour later : Tour} {tree : Tree}
    (visit : tour.next? = some (tree, later)) : later.size < tour.size := by
  obtain ⟨below, before, behind⟩ := next?_eq_some_iff.mp visit
  cases tree
  simp [size, before, behind, sizeAll_append, sizeAll_reverse, sizeAll, Tree.size]

def nodes (tour : Tour) : List Tree :=
  match _visit : tour.next? with
  | none => []
  | some (tree, later) => tree :: later.nodes
termination_by tour.size
decreasing_by exact size_lt_of_next? _visit

end Tour

def tour (tree : Tree) : Tour :=
  ⟨#[tree]⟩

def descendants (tree : Tree) : List Tree :=
  tree.tour.nodes

mutual
def stamp (block : Nat) : Tree → Tree
  | ⟨kind, location, text, note, children⟩ =>
      ⟨kind, location, text, { note with block := block }, stampAll block children⟩

def stampAll (block : Nat) : List Tree → List Tree
  | [] => []
  | tree :: rest => tree.stamp block :: stampAll block rest
end

end Tree

end OcLang
