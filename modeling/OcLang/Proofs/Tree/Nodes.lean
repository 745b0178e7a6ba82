import OcLang.Proofs.Tree.Parts
import OcLang.Proofs.Tree.Walk

namespace OcLang.Tree

/-! # What a walk passes over

In a well-shaped tree a walk meets every node but a few: the parts of types, the blocks
that are bodies of functions, the names of called functions and lists of parameters. -/

def asides : Tree → List Tree
  | ⟨.call, _, _, _, callee :: _⟩ => [callee]
  | ⟨.function, _, _, _, _ :: parameters :: _⟩ => [parameters]
  | ⟨.prototype, _, _, _, _ :: parameters :: _⟩ => [parameters]
  | _ => []

theorem asides_block {tree : Tree} (block : tree.kind = .block) : tree.asides = [] := by
  unfold asides
  split <;> simp_all

def NamesStruct (node : Tree) : Prop :=
  node.kind = .struct → node.children.head?.any (·.kind = .type .named) = true

theorem mem_children_of_mem_inner {tree child : Tree} (member : child ∈ tree.inner) :
    child ∈ tree.children ∨ ∃ body ∈ tree.children, child ∈ body.children := by
  unfold inner at member
  split at member
  case h_3 => exact .inr ⟨_, by simp, member⟩
  case h_9 => exact .inl (mem_children_of_mem_operands member)
  all_goals
    left
    simp_all

theorem innerInduction {motive : Tree → Prop}
    (node : ∀ tree : Tree, (∀ child ∈ tree.inner, motive child) → motive tree) (tree : Tree) :
    motive tree := by
  suffices both : motive tree ∧ ∀ child ∈ tree.children, motive child from both.1
  induction tree using Tree.induction with
  | node tree induction =>
      refine ⟨node tree fun child member => ?_, fun child member => (induction child member).1⟩
      rcases mem_children_of_mem_inner member with here | ⟨body, below, inside⟩
      · exact (induction child here).1
      · exact (induction body below).2 child inside

theorem forall_mem_walked {holds : Tree → Prop} {tree : Tree} (here : holds tree)
    (step : ∀ node : Tree, holds node → ∀ child ∈ node.inner, holds child) :
    ∀ node ∈ tree.walked, holds node := by
  induction tree using innerInduction with
  | node tree induction =>
      rw [walked_eq, List.forall_mem_cons]
      refine ⟨here, fun node below => ?_⟩
      rcases List.mem_flatMap.mp below with ⟨child, member, inside⟩
      exact induction child member (step tree here child member) node inside

theorem walked_subset_of_mem {tree node : Tree} (member : node ∈ tree.walked) :
    node.walked ⊆ tree.walked := by
  have all : ∀ node ∈ tree.walked, node.walked ⊆ tree.walked :=
    forall_mem_walked (List.Subset.refl _) fun _ inside _ below _ walked =>
      inside (mem_walked_of_inner below walked)
  exact all node member

theorem exists_child_of_mem_preorder {tree node : Tree} (inside : node ∈ tree.preorder)
    (other : node ≠ tree) : ∃ child ∈ tree.children, node ∈ child.preorder := by
  cases tree
  rw [preorder_mk, List.mem_cons] at inside
  exact List.mem_flatMap.mp (inside.resolve_left other)

theorem walked_subset_preorder (tree : Tree) : tree.walked ⊆ tree.preorder := by
  induction tree using innerInduction with
  | node tree induction =>
      rw [walked_eq]
      refine List.cons_subset.mpr ⟨mem_preorder_self tree, fun node below => ?_⟩
      rcases List.mem_flatMap.mp below with ⟨child, member, walked⟩
      have inside := induction child member walked
      rcases mem_children_of_mem_inner member with here | ⟨body, known, grandchild⟩
      · exact mem_preorder_of_child here inside
      · exact mem_preorder_of_child known (mem_preorder_of_child grandchild inside)

namespace IsShaped

variable {tree : Tree}

theorem inner (shaped : tree.IsShaped) {child : Tree} (member : child ∈ tree.inner) :
    child.IsShaped := by
  rcases mem_children_of_mem_inner member with here | ⟨body, below, inside⟩
  · exact shaped.child here
  · exact (shaped.child below).child inside

theorem walked (shaped : tree.IsShaped) : ∀ node ∈ tree.walked, node.IsShaped :=
  forall_mem_walked shaped fun _ shaped _ member => shaped.inner member

theorem parameters (shaped : tree.IsShaped) (list : tree.kind = .parameters) :
    ∀ declarator ∈ tree.children, declarator.kind.isType = true ∧
      ∃ name, declarator.declaredName? = some name := by
  rcases tree with ⟨kind, location, text, note, children⟩
  simp only at list
  subst list
  have fine := shaped.fault
  simp only [shapeFault?, require] at fine
  split at fine
  · rename_i declare
    rw [List.all_eq_true] at declare
    exact fun declarator member => declaredName?_of_declares (declare declarator member)
  · contradiction

end IsShaped

/-! ## Children that are passed over -/

def PassesOver (tree child : Tree) : Prop :=
  ∀ node ∈ child.preorder, node ∈ tree.asides ∨ node.kind.isTypePart = true

section

variable {tree child : Tree}

theorem passesOver_of_type (shaped : child.IsShaped) (type : child.kind.isType = true) :
    tree.PassesOver child :=
  fun node inside => .inr (shaped.typeParts type node inside)

theorem passesOver_of_leaf (shaped : child.IsShaped)
    (leaf : child.kind.isNaming = true ∨ child.kind = .arrayMark ∨ child.kind = .identifier)
    (part : child ∈ tree.asides ∨ child.kind.isTypePart = true) : tree.PassesOver child := by
  intro node inside
  rw [shaped.preorder_eq leaf] at inside
  rw [List.mem_singleton.mp inside]
  exact part

theorem passesOver_of_parameters (shaped : child.IsShaped) (list : child.kind = .parameters)
    (aside : child ∈ tree.asides) : tree.PassesOver child := by
  intro node inside
  by_cases isList : node = child
  · exact .inl (isList ▸ aside)
  · rcases exists_child_of_mem_preorder inside isList with ⟨declarator, member, below⟩
    have type := (shaped.parameters list declarator member).1
    exact .inr ((shaped.child member).typeParts type node below)

theorem mem_operands_or_passesOver (shaped : tree.IsShaped)
    (expression : tree.kind.isStatementPart = false) (member : child ∈ tree.children) :
    child ∈ tree.operands ∨ tree.PassesOver child := by
  have shapedChild := shaped.child member
  rcases tree with ⟨kind, location, text, note, children⟩
  have fine := shaped.fault
  simp only at member
  cases kind with
  | call =>
      rcases children with _ | ⟨callee, arguments⟩
      · contradiction
      · have identifier : callee.kind = .identifier := by simpa [shapeFault?, require] using fine
        rcases List.mem_cons.mp member with rfl | argument
        · exact .inr (passesOver_of_leaf shapedChild (.inr (.inr identifier)) (.inl List.mem_cons_self))
        · exact .inl argument
  | select =>
      rcases children with _ | ⟨object, _ | ⟨field, _ | ⟨third, rest⟩⟩⟩ <;>
        simp [shapeFault?, require] at fine
      rcases List.mem_cons.mp member with rfl | last
      · exact .inl List.mem_cons_self
      · rw [List.mem_singleton.mp last] at shapedChild ⊢
        exact .inr (passesOver_of_leaf shapedChild (.inl (by simp [fine, Kind.isNaming]))
          (.inr (by simp [fine, Kind.isTypePart])))
  | allocate what =>
      rcases children with _ | ⟨first, _ | ⟨second, _ | ⟨third, rest⟩⟩⟩ <;> cases what <;>
        simp [shapeFault?, require] at fine
      · rw [List.mem_singleton.mp member] at shapedChild ⊢
        exact .inr (passesOver_of_type shapedChild (by simp [fine, Kind.isType]))
      · exact .inl member
      · rcases List.mem_cons.mp member with rfl | size
        · exact .inr (passesOver_of_type shapedChild fine)
        · exact .inl size
  | type name =>
      right
      intro node inside
      exact .inr (shaped.typeParts rfl node (mem_preorder_of_child member inside))
  | assign | index | binary | unary =>
      left
      rcases children with _ | ⟨first, _ | ⟨second, _ | ⟨third, rest⟩⟩⟩ <;>
        simp [shapeFault?] at fine
      exact member
  | arrayMark | field | declaredName | identifier | literal =>
      cases children <;> simp_all [shapeFault?]
  | _ => contradiction

theorem IsShaped.child_cases (shaped : tree.IsShaped) (named : tree.NamesStruct)
    (member : child ∈ tree.children) :
    child ∈ tree.inner ∨ (child.kind = .block ∧ child.inner = tree.inner) ∨
      tree.PassesOver child := by
  have shapedChild := shaped.child member
  rcases tree with ⟨kind, location, text, note, children⟩
  have fine := shaped.fault
  simp only at member
  cases kind with
  | root | block => exact .inl member
  | struct =>
      rcases children with _ | ⟨name, fields⟩
      · contradiction
      · have isNamed : name.kind = .type .named := by simpa using named rfl
        simp only [shapeFault?, isNamed, beq_self_eq_true, if_true, require] at fine
        split at fine
        · rename_i declare
          rw [List.all_eq_true] at declare
          rcases List.mem_cons.mp member with rfl | field
          · exact .inr (.inr (passesOver_of_type shapedChild (by simp [isNamed, Kind.isType])))
          · have type := (declaredName?_of_declares (declare child field)).1
            exact .inr (.inr (passesOver_of_type shapedChild type))
        · contradiction
  | function =>
      rcases shaped.function with
        ⟨declarator, parameters, place, word, bodyNote, statements, name, rfl, type, _, list⟩
      simp only [List.mem_cons, List.not_mem_nil, or_false] at member
      rcases member with rfl | rfl | rfl
      · exact .inr (.inr (passesOver_of_type shapedChild type))
      · exact .inr (.inr (passesOver_of_parameters shapedChild list List.mem_cons_self))
      · exact .inr (.inl ⟨rfl, rfl⟩)
  | prototype =>
      rcases shaped.prototype with ⟨declarator, parameters, name, rfl, type, _, list⟩
      simp only [List.mem_cons, List.not_mem_nil, or_false] at member
      rcases member with rfl | rfl
      · exact .inr (.inr (passesOver_of_type shapedChild type))
      · exact .inr (.inr (passesOver_of_parameters shapedChild list List.mem_cons_self))
  | «variable» =>
      rcases shaped.variable with ⟨declarator, values, name, rfl, type, _, single⟩
      rcases List.mem_cons.mp member with rfl | initial
      · exact .inr (.inr (passesOver_of_type shapedChild type))
      · rcases values with _ | ⟨value, rest⟩
        · contradiction
        · left
          rw [single] at initial
          simpa [Tree.inner] using initial
  | parameters =>
      exact .inr (.inr (passesOver_of_type shapedChild (shaped.parameters rfl child member).1))
  | whileLoop | ifThen | ifElse | returnValue =>
      left
      rcases children with _ | ⟨first, _ | ⟨second, _ | ⟨third, _ | ⟨fourth, rest⟩⟩⟩⟩ <;>
        simp [shapeFault?] at fine
      exact member
  | returnVoid => cases children <;> simp_all [shapeFault?]
  | _ => exact (mem_operands_or_passesOver shaped rfl member).imp_right .inr

end

/-- A node of a well-shaped tree is met by the walk, or it is a part that is not. -/
theorem mem_preorder_cases {tree : Tree} (shaped : tree.IsShaped)
    (named : ∀ node ∈ tree.walked, node.NamesStruct) :
    ∀ node ∈ tree.preorder, node ∈ tree.walked ∨ (∃ parent ∈ tree.walked, node ∈ parent.asides) ∨
      node.kind = .block ∨ node.kind.isTypePart = true := by
  induction tree using Tree.induction with
  | node tree induction =>
      intro node inside
      by_cases isRoot : node = tree
      · exact .inl (isRoot ▸ mem_walked_self tree)
      · rcases exists_child_of_mem_preorder inside isRoot with ⟨child, member, below⟩
        have walkedInner {child : Tree} (here : child ∈ tree.inner) : child.walked ⊆ tree.walked :=
          fun _ => mem_walked_of_inner here
        rcases shaped.child_cases (named tree (mem_walked_self tree)) member with
          here | ⟨block, same⟩ | parts
        · have cases := induction child member (shaped.child member)
            (fun node walked => named node (walkedInner here walked)) node below
          rcases cases with walked | ⟨parent, walked, aside⟩ | part
          · exact .inl (walkedInner here walked)
          · exact .inr (.inl ⟨parent, walkedInner here walked, aside⟩)
          · exact .inr (.inr part)
        · -- The block itself is not walked, but all that is below it is.
          have walkedBody {node : Tree} (walked : node ∈ child.walked) :
              node = child ∨ node ∈ tree.walked := by
            rw [walked_eq, List.mem_cons] at walked
            apply walked.imp_right
            intro below
            rw [walked_eq tree, ← same]
            exact List.mem_cons_of_mem _ below
          have namedBody : ∀ node ∈ child.walked, node.NamesStruct := by
            intro node walked
            rcases walkedBody walked with rfl | further
            · simp [NamesStruct, block]
            · exact named node further
          rcases induction child member (shaped.child member) namedBody node below with
            walked | ⟨parent, walked, aside⟩ | part
          · rcases walkedBody walked with rfl | further
            · exact .inr (.inr (.inl block))
            · exact .inl further
          · rcases walkedBody walked with rfl | further
            · rw [asides_block block] at aside
              contradiction
            · exact .inr (.inl ⟨parent, further, aside⟩)
          · exact .inr (.inr part)
        · exact .inr ((parts node below).imp (fun aside => ⟨tree, mem_walked_self tree, aside⟩) .inr)

end OcLang.Tree
