import OcLang.Proofs.Oil.Output
import OcLang.Proofs.Oil.Tags
import OcLang.Proofs.Typing.Statements
import OcLang.Proofs.Typing.StructMentions
import OcLang.Proofs.Typing.WellFormed
import OcLang.Tree.Build

namespace OcLang

/-! # Struct names that are in use

Symbols, notes and generated code name structs that stand in the table of structs in the end. A
struct may name itself in its fields, but no struct from behind it. -/

theorem Table.mem_names_of_find? {table : Table} {name : String}
    (found : (table.find? name).isSome = true) : name ∈ table.names := by
  rcases Option.isSome_iff_exists.mp found with ⟨id, found⟩
  exact List.mem_map.mpr ⟨_, mem_entries_of_find? found, rfl⟩

theorem mem_names_structs_analyze {tree : Tree} {name : String}
    (declares : DeclaresStruct (analyze tree).2.log name) :
    name ∈ (analyze tree).2.structs.names := by
  rcases declares with ⟨id, logged⟩
  have entry : (name, id) ∈ (loggedStructs (analyze tree).2.log).reverse :=
    List.mem_reverse.mpr (List.mem_filterMap.mpr ⟨_, logged, rfl⟩)
  apply Table.mem_names_of_find?
  rw [find?_structs_analyze]
  exact List.lookup_isSome_iff.mpr ⟨_, entry, beq_self_eq_true name⟩

namespace Tree

variable {tree part : Tree}

theorem IsWellTyped.child (typed : tree.IsWellTyped) (member : part ∈ tree.described) :
    part.IsWellTyped where
  here := ((isDescribed_iff tree).mp typed.below).1 part member
  below := ((isDescribed_iff tree).mp typed.below).2 part (mem_children_of_mem_described member)

/-- Nothing that is walked is the declarator of a variable. -/
theorem inner_subset_described (other : tree.kind ≠ .function) :
    tree.inner ⊆ tree.described := by
  rcases tree with ⟨kind, location, text, note, children⟩
  intro part member
  cases kind with
  | function => contradiction
  | root | block => exact member
  | «variable» =>
      rcases children with _ | ⟨declarator, _ | ⟨value, rest⟩⟩
      · contradiction
      · contradiction
      · rw [List.mem_singleton.mp member]
        exact List.mem_cons_self
  | whileLoop | ifThen | ifElse =>
      rcases children with _ | ⟨test, bodies⟩
      · contradiction
      · exact member
  | returnValue =>
      rcases children with _ | ⟨value, rest⟩
      · contradiction
      · rw [List.mem_singleton.mp member]
        exact List.mem_cons_self
  | _ => exact mem_children_of_mem_operands member

theorem IsWellTyped.inner (typed : tree.IsWellTyped) (shaped : tree.IsShaped)
    (member : part ∈ tree.inner) : part.IsWellTyped := by
  by_cases isFunction : tree.kind = .function
  · rcases tree with ⟨kind, location, text, note, children⟩
    cases isFunction
    rcases shaped.function with ⟨declarator, parameters, _, _, _, statements, _, rfl, -⟩
    have body := typed.child (List.mem_cons_of_mem _ (List.mem_cons_of_mem _ List.mem_cons_self))
    exact body.child member
  · exact typed.child (inner_subset_described isFunction member)

theorem IsShaped.isNamed_of_newStruct (shaped : tree.IsShaped)
    (isNew : tree.kind = .allocate .struct) (states : part ∈ tree.typeNodes) :
    part.kind = .type .named := by
  have fine := shaped.fault
  rcases tree with ⟨kind, location, text, note, children⟩
  cases isNew
  rcases children with _ | ⟨type, _ | ⟨second, rest⟩⟩
  · contradiction
  · rw [List.mem_singleton.mp states]
    simpa [shapeFault?, require] using fine
  · contradiction

theorem mem_walked_of_select {node object field : Tree} (member : node ∈ tree.walked)
    (isSelect : node.kind = .select) (children : node.children = [object, field]) :
    object ∈ tree.walked := by
  rcases node with ⟨kind, location, text, note, parts⟩
  cases isSelect
  cases children
  exact walked_subset_of_mem member (mem_walked_of_inner List.mem_cons_self object.mem_walked_self)

end Tree

structure NamesDeclaredStructs (root : Tree) : Prop where
  symbols : ∀ symbol ∈ (analyze root).2.symbols, ∀ name ∈ symbol.type.structName,
    name ∈ (analyze root).2.structs.names
  notes : ∀ node ∈ (analyze root).1.preorder, ∀ name ∈ node.note.structName,
    name ∈ (analyze root).2.structs.names
  tags : root.program.tags ⊆ (analyze root).2.structs.names
  fields : ∀ node ∈ (analyze root).1.walked, node.kind = .struct →
    ∃ name declarators id, node.children = name :: declarators ∧ name.note.symbol = some id ∧
      .struct name.text id ∈ (analyze root).2.log ∧
      ∀ declarator ∈ declarators, declarator.kind = .type .named →
        declarator.text = name.text ∨
          ∃ earlier < id, .struct declarator.text earlier ∈ (analyze root).2.log

theorem isWellTyped_of_walked {root : Tree} (fresh : root.IsFresh) (shaped : root.IsShaped) :
    ∀ node ∈ (analyze root).1.walked, node.IsShaped ∧ node.IsWellTyped := by
  have shapedHere : (analyze root).1.IsShaped :=
    shaped.congr (analyze_follows False root False.elim).1
  have typedHere : (analyze root).1.IsWellTyped := by
    rcases analyze_wellFormed root fresh with ⟨-, here, below⟩
    exact ⟨here, below⟩
  exact Tree.forall_mem_walked ⟨shapedHere, typedHere⟩ fun node both child member =>
    ⟨both.1.inner member, both.2.inner both.1 member⟩

section

variable {root : Tree} (fresh : root.IsFresh)
  (accepted : (analyze root).2.diagnostics.hasErrors = false)

include fresh accepted

theorem mentionsOnly_analyze (shaped : root.IsShaped) :
    (analyze root).1.MentionsOnly (analyze root).2.structs.names := by
  rcases analyze_sources fresh accepted with ⟨-, sourced⟩
  rcases analyze_learns fresh accepted with ⟨-, fits, -⟩
  have named {node : Tree} (inside : node ∈ (analyze root).1.preorder) {name : String}
      (noted : node.note.structName = some name) : name ∈ (analyze root).2.structs.names :=
    mem_names_structs_analyze (sourced.names node inside name noted)
  intro node member
  have inside := (analyze root).1.walked_subset_preorder member
  rcases isWellTyped_of_walked fresh shaped node member with ⟨shapedNode, typedNode⟩
  refine List.append_subset.mpr ⟨List.append_subset.mpr ⟨fun tag tagged => ?stated, ?value⟩, ?owner⟩
  case stated =>
    rcases List.mem_map.mp tagged with ⟨type, stated, rfl⟩
    rcases List.mem_filter.mp stated with ⟨states, written⟩
    apply mem_names_structs_analyze
    apply (sourced.grounded node member).types type states
    rcases (by simpa using written : type.kind = .type .named ∨ node.kind = .allocate .struct) with
      isNamed | isNew
    · exact isNamed
    · exact shapedNode.isNamed_of_newStruct isNew states
  case value =>
    split
    · rename_i struct
      rcases Option.isSome_iff_exists.mp (typedNode.here.name.symm.trans struct) with ⟨name, noted⟩
      have noted : node.note.structName = some name := noted
      rw [noted]
      exact List.cons_subset.mpr ⟨named inside noted, List.nil_subset _⟩
    · exact List.nil_subset _
  case owner =>
    split
    · rename_i object field isSelect children
      have fitting := fits node member
      simp only [Tree.Fits, isSelect, children] at fitting
      rcases fitting with ⟨record, -, noted, -⟩
      have below := Tree.mem_walked_of_select member isSelect children
      rw [noted]
      exact List.cons_subset.mpr
        ⟨named ((analyze root).1.walked_subset_preorder below) noted, List.nil_subset _⟩
    · exact List.nil_subset _

/-- Every struct that is in use has been declared. -/
theorem analyze_namesDeclaredStructs (isRoot : root.kind = .root) (shaped : root.IsShaped) :
    NamesDeclaredStructs root where
  symbols symbol member name named :=
    mem_names_structs_analyze ((analyze_sources fresh accepted).1.types symbol member name named)
  notes node inside name noted :=
    mem_names_structs_analyze ((analyze_sources fresh accepted).2.names node inside name noted)
  tags := Oil.generate_tags ((kind_analyze root).trans isRoot)
    (mentionsOnly_analyze fresh accepted shaped) fun _ found => Table.mem_names_of_find? found
  fields node member isStruct := by
    rcases exists_structStored_of_walked fresh accepted member isStruct with
      ⟨name, declarators, first, children, stored, looks⟩
    refine ⟨name, declarators, _, children, stored.symbol, stored.logged,
      fun declarator inside isNamed => ?_⟩
    apply (looks declarator inside isNamed).imp_right
    rintro ⟨earlier, before, logged⟩
    exact ⟨earlier, by omega, logged⟩

end

/-- `struct node { int value; node next; } struct list { node first; } node push(list rest)
{ node top = new node; top.next = rest.first; return top; } list all = new list;
all.first = push(all);` -/
def linkedNodes : Tree :=
  let b : TreeBuilder := {}
  b.root "t" [
    b.struct ⟨1, 1⟩ ⟨1, 8⟩ "node" [
      b.declarator .field false "int" ⟨1, 15⟩ ⟨1, 19⟩ "value",
      b.declarator .field false "node" ⟨1, 26⟩ ⟨1, 31⟩ "next"],
    b.struct ⟨2, 1⟩ ⟨2, 8⟩ "list" [b.declarator .field false "node" ⟨2, 15⟩ ⟨2, 20⟩ "first"],
    b.function ⟨3, 10⟩ (b.declarator .declaredName false "node" ⟨3, 1⟩ ⟨3, 6⟩ "push")
      [b.declarator .declaredName false "list" ⟨3, 11⟩ ⟨3, 16⟩ "rest"]
      (b.block ⟨3, 22⟩ [
        b.declaration ⟨4, 12⟩ (b.declarator .declaredName false "node" ⟨4, 3⟩ ⟨4, 8⟩ "top")
          (some (b.newStruct ⟨4, 14⟩ ⟨4, 18⟩ "node")),
        b.assign ⟨5, 12⟩ (b.select ⟨5, 6⟩ (b.identifier ⟨5, 3⟩ "top") ⟨5, 7⟩ "next")
          (b.select ⟨5, 18⟩ (b.identifier ⟨5, 14⟩ "rest") ⟨5, 19⟩ "first"),
        b.returning ⟨6, 3⟩ (some (b.identifier ⟨6, 10⟩ "top"))]),
    b.declaration ⟨7, 10⟩ (b.declarator .declaredName false "list" ⟨7, 1⟩ ⟨7, 6⟩ "all")
      (some (b.newStruct ⟨7, 12⟩ ⟨7, 16⟩ "list")),
    b.assign ⟨8, 11⟩ (b.select ⟨8, 4⟩ (b.identifier ⟨8, 1⟩ "all") ⟨8, 5⟩ "first")
      (b.call ⟨8, 17⟩ ⟨8, 13⟩ "push" [b.identifier ⟨8, 18⟩ "all"])]

theorem linkedNodes_namesDeclaredStructs : linkedNodes.IsFresh ∧
    (analyze linkedNodes).2.diagnostics.hasErrors = false ∧ linkedNodes.IsShaped ∧
    (analyze linkedNodes).2.structs.names = ["node", "list"] ∧
    linkedNodes.program.tags.dedup = ["node", "list"] ∧ NamesDeclaredStructs linkedNodes := by
  have fresh : linkedNodes.IsFresh := rfl
  have accepted : (analyze linkedNodes).2.diagnostics.hasErrors = false := by decide +kernel
  have shaped : linkedNodes.IsShaped := rfl
  exact ⟨fresh, accepted, shaped, by decide +kernel, by decide +kernel,
    analyze_namesDeclaredStructs fresh accepted rfl shaped⟩

end OcLang
