import OcLang.Proofs.Tree.Forms
import OcLang.Tree.Load

namespace OcLang.Tree

/-! # Well-shaped trees

A tree that has been read has the shape of its kind at every node. -/

def IsShaped (tree : Tree) : Prop :=
  tree.shapeError? = none

theorem isShaped_of_load {source : String} {tree : Tree} (loaded : load source = .ok tree) :
    tree.IsShaped := by
  unfold load ofJson at loaded
  split at loaded
  · contradiction
  · split at loaded
    · contradiction
    · split at loaded
      · contradiction
      · rename_i shaped
        cases loaded
        exact shaped

/-! ## What is read has no notes -/

theorem isFresh_mk {kind : Kind} {location : Location} {text : String} {children : List Tree}
    (fresh : ∀ child ∈ children, child.IsFresh) : IsFresh ⟨kind, location, text, {}, children⟩ := by
  have same : children.map bare = children := by
    conv => rhs; rw [← List.map_id children]
    exact List.map_congr_left fresh
  rw [IsFresh, bare_mk, same]

section

variable {room : Nat} {children? : Json → Option (List Tree)}
  (fresh : ∀ (value : Json) (read : List Tree), children? value = some read →
    ∀ child ∈ read, child.IsFresh)

include fresh

theorem isFresh_of_addMember {parts added : Json.NodeParts} {member : Option String × Json}
    (adds : parts.addMember room children? member = some added)
    (before : ∀ child ∈ parts.children.getD [], child.IsFresh) :
    ∀ child ∈ added.children.getD [], child.IsFresh := by
  rcases member with ⟨_ | key, value⟩
  · contradiction
  · simp only [Json.NodeParts.addMember] at adds
    split at adds
    · split at adds
      · contradiction
      · rcases Option.map_eq_some_iff.mp adds with ⟨kind, _, rfl⟩
        exact before
    · split at adds
      · split at adds
        · contradiction
        · rcases Option.map_eq_some_iff.mp adds with ⟨location, _, rfl⟩
          exact before
      · split at adds
        · split at adds
          · contradiction
          · rcases Option.map_eq_some_iff.mp adds with ⟨text, _, rfl⟩
            exact before
        · split at adds
          · split at adds
            · contradiction
            · rcases Option.map_eq_some_iff.mp adds with ⟨trees, read, rfl⟩
              rcases Option.bind_eq_some_iff.mp read with ⟨found, here, same⟩
              cases same
              exact fresh value found here
          · cases adds
            exact before

theorem isFresh_of_members {members : List (Option String × Json)} {parts added : Json.NodeParts}
    (adds : members.foldlM (Json.NodeParts.addMember room children?) parts = some added)
    (before : ∀ child ∈ parts.children.getD [], child.IsFresh) :
    ∀ child ∈ added.children.getD [], child.IsFresh := by
  induction members generalizing parts with
  | nil =>
      cases adds
      exact before
  | cons member rest induction =>
      rw [List.foldlM_cons] at adds
      rcases Option.bind_eq_some_iff.mp adds with ⟨middle, first, more⟩
      exact induction more (isFresh_of_addMember fresh first before)

omit fresh in
theorem isFresh_of_parts {parts : Json.NodeParts} {tree : Tree}
    (children : ∀ child ∈ parts.children.getD [], child.IsFresh)
    (whole : parts.tree? = some tree) : tree.IsFresh := by
  rcases Option.bind_eq_some_iff.mp whole with ⟨kind, _, same⟩
  cases same
  exact isFresh_mk children

end

theorem isFresh_of_mapM {room : Nat} {items : List Json} {trees : List Tree}
    (fresh : ∀ (item : Json) (tree : Tree), item.tree? room = some tree → tree.IsFresh)
    (read : items.mapM (Json.tree? room) = some trees) : ∀ tree ∈ trees, tree.IsFresh := by
  induction items generalizing trees with
  | nil =>
      cases read
      simp
  | cons item rest induction =>
      rw [List.mapM_cons] at read
      rcases Option.bind_eq_some_iff.mp read with ⟨first, here, more⟩
      rcases Option.bind_eq_some_iff.mp more with ⟨others, there, same⟩
      cases same
      rw [List.forall_mem_cons]
      exact ⟨fresh item first here, induction there⟩

theorem isFresh_of_tree? {room : Nat} {document : Json} {tree : Tree}
    (read : document.tree? room = some tree) : tree.IsFresh := by
  induction room using Nat.strongRecOn generalizing document tree with
  | ind room below =>
      cases room with
      | zero => contradiction
      | succ room =>
          have fresh : ∀ (value : Json) (read : List Tree), value.trees? room = some read →
              ∀ child ∈ read, child.IsFresh := by
            intro value trees read
            rcases room with _ | room
            · contradiction
            · simp only [Json.trees?] at read
              split at read
              · exact isFresh_of_mapM (fun item tree here => below room (by omega) here) read
              · contradiction
          simp only [Json.tree?] at read
          split at read
          · rcases Option.bind_eq_some_iff.mp read with ⟨parts, members, whole⟩
            exact isFresh_of_parts (isFresh_of_members fresh members (by simp)) whole
          · split at read
            · rcases Option.bind_eq_some_iff.mp read with ⟨parts, members, whole⟩
              exact isFresh_of_parts (isFresh_of_members fresh members (by simp)) whole
            · contradiction
          · contradiction

theorem isFresh_of_load {source : String} {tree : Tree} (loaded : load source = .ok tree) :
    tree.IsFresh := by
  unfold load ofJson at loaded
  split at loaded
  · contradiction
  · split at loaded
    · contradiction
    · rename_i read
      split at loaded
      · contradiction
      · cases loaded
        exact isFresh_of_tree? read

theorem exists_loaded {source : String} {holds : Tree → Bool}
    (found : (load source).toOption.any holds = true) :
    ∃ tree, load source = .ok tree ∧ tree.IsFresh ∧ tree.IsShaped ∧ holds tree = true := by
  cases loaded : load source with
  | error problem => simp [loaded, Except.toOption] at found
  | ok tree =>
      simp only [loaded, Except.toOption, Option.any_some] at found
      exact ⟨tree, rfl, isFresh_of_load loaded, isShaped_of_load loaded, found⟩

theorem load_ofList (characters : List Char) : load (String.ofList characters) =
    match (Json.tokens characters).bind Json.ofTokens? with
    | none => .error .notTree
    | some document => ofJson document := by
  rw [load, Json.read?, String.toList_ofList]
  rfl

/-! ## Every node in shape -/

theorem shapeError?_eq (tree : Tree) :
    tree.shapeError? = tree.preorder.findSome? fun node =>
      node.shapeFault?.map fun fault => ⟨node.kind, node.location, fault⟩ := by
  induction tree using Tree.induction with
  | node tree induction =>
      rcases tree with ⟨kind, location, text, note, children⟩
      have among : shapeErrorAmong? children = (preorderAll children).findSome? fun node =>
          node.shapeFault?.map fun fault => ⟨node.kind, node.location, fault⟩ := by
        induction children with
        | nil => rfl
        | cons first rest others =>
            have here := induction first List.mem_cons_self
            have behind := others fun child member =>
              induction child (List.mem_cons_of_mem _ member)
            rw [shapeErrorAmong?, preorderAll, List.findSome?_append, ← here, ← behind]
            cases first.shapeError? <;> rfl
      rw [shapeError?, preorder, List.findSome?_cons, ← among]
      cases shapeFault? ⟨kind, location, text, note, children⟩ <;> rfl

theorem shapeError?_eq_some_iff {tree : Tree} {error : ShapeError} :
    tree.shapeError? = some error ↔
      ∃ before node after fault, tree.preorder = before ++ node :: after ∧
        (∀ earlier ∈ before, earlier.shapeFault? = none) ∧ node.shapeFault? = some fault ∧
        error = ⟨node.kind, node.location, fault⟩ := by
  rw [shapeError?_eq, List.findSome?_eq_some_iff]
  simp only [Option.map_eq_some_iff, Option.map_eq_none_iff]
  constructor
  · rintro ⟨before, node, after, order, ⟨fault, faulty, rfl⟩, fine⟩
    exact ⟨before, node, after, fault, order, fine, faulty, rfl⟩
  · rintro ⟨before, node, after, fault, order, fine, faulty, rfl⟩
    exact ⟨before, node, after, order, ⟨fault, faulty, rfl⟩, fine⟩

theorem isShaped_iff {tree : Tree} :
    tree.IsShaped ↔ ∀ node ∈ tree.preorder, node.shapeFault? = none := by
  simp [IsShaped, shapeError?_eq]

theorem isShaped_mk {kind : Kind} {location : Location} {text : String} {note : Note}
    {children : List Tree} :
    IsShaped ⟨kind, location, text, note, children⟩ ↔
      shapeFault? ⟨kind, location, text, note, children⟩ = none ∧
        ∀ child ∈ children, child.IsShaped := by
  simp only [isShaped_iff, forall_mem_preorder]

namespace IsShaped

variable {tree : Tree}

theorem fault (shaped : tree.IsShaped) : tree.shapeFault? = none := by
  cases tree
  exact (isShaped_mk.mp shaped).1

theorem child (shaped : tree.IsShaped) {child : Tree} (member : child ∈ tree.children) :
    child.IsShaped := by
  cases tree
  exact (isShaped_mk.mp shaped).2 child member

end IsShaped

/-! ## Notes do not matter -/

@[simp] theorem declares_bare (nameKind : Kind) (tree : Tree) :
    tree.bare.declares nameKind = tree.declares nameKind := by
  cases declared : tree.declaredName? <;> simp [declares, declared]

theorem shapeFault?_bare (tree : Tree) : tree.bare.shapeFault? = tree.shapeFault? := by
  rcases tree with ⟨kind, location, text, note, children⟩
  have sameKinds : (children.map bare).map (·.kind) = children.map (·.kind) := by simp
  have sameFields : (fun child : Tree => child.bare.declares .field) = (·.declares .field) :=
    funext fun child => declares_bare _ child
  have sameNames : (fun child : Tree => child.bare.declares .declaredName) =
      (·.declares .declaredName) := funext fun child => declares_bare _ child
  rcases children with _ | ⟨first, _ | ⟨second, _ | ⟨third, _ | ⟨fourth, rest⟩⟩⟩⟩ <;>
    cases kind with
    | allocate what => cases what <;> simp [bare_mk, shapeFault?]
    | _ => simp_all [bare_mk, shapeFault?, headingFault?, Function.comp_def]

theorem IsShaped.congr {tree other : Tree} (shaped : tree.IsShaped)
    (same : other.bare = tree.bare) : other.IsShaped := by
  have bare (tree : Tree) : tree.bare.IsShaped ↔ tree.IsShaped := by
    simp only [isShaped_iff, preorder_bare, List.forall_mem_map, shapeFault?_bare]
  rw [← bare, same, bare]
  exact shaped

/-! ## What a node of some kind holds -/

section

variable {location : Location} {text : String} {note : Note}

theorem declaredName?_of_declares {nameKind : Kind} {tree : Tree}
    (declares : tree.declares nameKind = true) :
    tree.kind.isType = true ∧ ∃ name, tree.declaredName? = some name := by
  simp only [Tree.declares, Bool.and_eq_true, Option.any_eq_true] at declares
  rcases declares with ⟨type, name, declared, _⟩
  exact ⟨type, name, declared⟩

theorem IsShaped.variable {children : List Tree}
    (shaped : IsShaped ⟨.variable, location, text, note, children⟩) :
    ∃ declarator values name, children = declarator :: values ∧
      declarator.kind.isType = true ∧ declarator.declaredName? = some name ∧
      values = values.head?.toList := by
  have fine := shaped.fault
  rcases children with _ | ⟨declarator, values⟩
  · simp [shapeFault?] at fine
  · simp only [shapeFault?, require, Bool.and_eq_true, decide_eq_true_eq] at fine
    split at fine
    · rename_i parts
      rcases declaredName?_of_declares parts.1 with ⟨type, name, declared⟩
      refine ⟨declarator, values, name, rfl, type, declared, ?_⟩
      rcases values with _ | ⟨value, _ | ⟨second, rest⟩⟩ <;> simp at parts ⊢
    · contradiction

theorem headingFault?_eq_none {declarator parameters : Tree}
    (fine : headingFault? declarator parameters = none) :
    declarator.kind.isType = true ∧ (∃ name, declarator.declaredName? = some name) ∧
      parameters.kind = .parameters := by
  unfold headingFault? at fine
  split at fine
  · contradiction
  · split at fine
    · contradiction
    · rename_i declares list
      rcases declaredName?_of_declares (by simpa using declares) with ⟨type, declared⟩
      exact ⟨type, declared, by simpa using list⟩

theorem IsShaped.function {children : List Tree}
    (shaped : IsShaped ⟨.function, location, text, note, children⟩) :
    ∃ declarator parameters place word bodyNote statements name,
      children = [declarator, parameters, ⟨.block, place, word, bodyNote, statements⟩] ∧
        declarator.kind.isType = true ∧ declarator.declaredName? = some name ∧
        parameters.kind = .parameters := by
  have fine := shaped.fault
  rcases children with _ | ⟨declarator, _ | ⟨parameters, _ | ⟨body, _ | ⟨more, rest⟩⟩⟩⟩ <;>
    simp [shapeFault?] at fine
  rcases headingFault?_eq_none fine.1 with ⟨type, ⟨name, declared⟩, list⟩
  rcases body with ⟨kind, place, word, bodyNote, statements⟩
  have block : kind = .block := by simpa [require] using fine.2
  subst block
  exact ⟨declarator, parameters, place, word, bodyNote, statements, name, rfl, type, declared, list⟩

theorem IsShaped.prototype {children : List Tree}
    (shaped : IsShaped ⟨.prototype, location, text, note, children⟩) :
    ∃ declarator parameters name, children = [declarator, parameters] ∧
      declarator.kind.isType = true ∧ declarator.declaredName? = some name ∧
      parameters.kind = .parameters := by
  have fine := shaped.fault
  rcases children with _ | ⟨declarator, _ | ⟨parameters, _ | ⟨more, rest⟩⟩⟩ <;>
    simp [shapeFault?] at fine
  rcases headingFault?_eq_none fine with ⟨type, ⟨name, declared⟩, list⟩
  exact ⟨declarator, parameters, name, rfl, type, declared, list⟩

theorem IsShaped.control {kind : Kind} {test : Tree} {bodies : List Tree}
    (control : kind.isControl = true)
    (shaped : IsShaped ⟨kind, location, text, note, test :: bodies⟩) :
    match kind, bodies with
    | .whileLoop, [_] | .ifThen, [_] | .ifElse, [_, _] => True
    | _, _ => False := by
  have fine := shaped.fault
  cases kind <;> simp [Kind.isControl] at control <;>
    rcases bodies with _ | ⟨first, _ | ⟨second, _ | ⟨third, rest⟩⟩⟩ <;>
      simp [shapeFault?] at fine ⊢

end

/-! ## Subtrees without variables -/

def IsBarren (tree : Tree) : Prop :=
  ∀ node ∈ tree.preorder, node.kind ≠ .variable

section

variable {kind : Kind} {location : Location} {text : String} {note : Note} {children : List Tree}

theorem isBarren_mk :
    IsBarren ⟨kind, location, text, note, children⟩ ↔
      kind ≠ .variable ∧ ∀ child ∈ children, child.IsBarren := by
  simp only [IsBarren, preorder, preorderAll_eq_flatMap, List.mem_cons, List.mem_flatMap]
  constructor
  · intro none
    exact ⟨none _ (.inl rfl), fun child member node inside =>
      none node (.inr ⟨child, member, inside⟩)⟩
  · intro none node member
    rcases member with rfl | ⟨child, member, inside⟩
    · exact none.1
    · exact none.2 child member node inside

theorem isBarren_of_leaf {tree : Tree} (shaped : tree.IsShaped)
    (leaf : tree.kind.isNaming = true ∨ tree.kind = .arrayMark ∨ tree.kind = .identifier) :
    tree.IsBarren := by
  rcases tree with ⟨kind, location, text, note, children⟩
  have fine := shaped.fault
  have other : kind ≠ .variable := by
    rintro rfl
    simp [Kind.isNaming] at leaf
  have empty : children = [] := by
    cases children with
    | nil => rfl
    | cons first rest => cases kind <;> simp_all [shapeFault?, Kind.isNaming]
  rw [isBarren_mk]
  exact ⟨other, by simp [empty]⟩

theorem isBarren_of_type {tree : Tree} (shaped : tree.IsShaped)
    (type : tree.kind.isType = true) : tree.IsBarren := by
  rcases tree with ⟨kind, location, text, note, children⟩
  cases kind <;> simp [Kind.isType] at type
  have fine := shaped.fault
  have leaves : ∀ child ∈ children, child.kind.isNaming = true ∨ child.kind = .arrayMark := by
    simp only [shapeFault?, require] at fine
    split at fine
    · rename_i body
      rcases children with _ | ⟨first, _ | ⟨second, _ | ⟨third, rest⟩⟩⟩ <;>
        simp [isDeclaratorBody] at body ⊢
      · exact body.symm
      · exact ⟨.inr body.1, .inl body.2⟩
    · contradiction
  rw [isBarren_mk]
  refine ⟨by simp, fun child member => isBarren_of_leaf (shaped.child member) ?_⟩
  exact (leaves child member).imp id .inl

theorem isBarren_of_declarators {nameKind : Kind} {trees : List Tree}
    (shaped : ∀ tree ∈ trees, tree.IsShaped) (declare : trees.all (·.declares nameKind) = true) :
    ∀ tree ∈ trees, tree.IsBarren := by
  intro tree member
  have declares := List.all_eq_true.mp declare tree member
  exact isBarren_of_type (shaped tree member) (declaredName?_of_declares declares).1

theorem isBarren_of_parameters {tree : Tree} (shaped : tree.IsShaped)
    (list : tree.kind = .parameters) : tree.IsBarren := by
  rcases tree with ⟨kind, location, text, note, children⟩
  subst list
  have fine := shaped.fault
  simp only [shapeFault?, require] at fine
  split at fine
  · rename_i declare
    rw [isBarren_mk]
    exact ⟨by simp, isBarren_of_declarators (fun child member => shaped.child member) declare⟩
  · contradiction

end

end OcLang.Tree
