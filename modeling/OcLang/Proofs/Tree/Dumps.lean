import Mathlib.Data.List.Nodup
import OcLang.Proofs.Locations
import OcLang.Proofs.Tree.Skeleton
import OcLang.Tree.Dump

namespace OcLang

/-! # Reading a dump back

A text stands in its line as it is, quotes and all. Still a dump tells the tree: what
stands before the text and behind it is read from both ends of the line, and the
indentation tells which lines belong below a line. -/

namespace Kind

theorem tag_injective : Function.Injective tag := by
  have distinct : (all.map tag).Nodup := by decide
  intro first second same
  exact List.inj_on_of_nodup_map distinct (mem_all first) (mem_all second) same

theorem tag_plain (kind : Kind) :
    ∀ c ∈ kind.tag.toList, c ≠ ' ' ∧ c ≠ '|' ∧ c ≠ '\n' := by
  cases kind with
  | type name => cases name <;> simp [tag]
  | binary operator => cases operator <;> simp [tag]
  | unary operator => cases operator <;> simp [tag]
  | allocate what => cases what <;> simp [tag]
  | literal what => cases what <;> simp [tag]
  | _ => simp [tag]

end Kind

namespace Tree

/-! ## Lines -/

structure Shown where
  kind : Kind
  text : String
  location : Location
  block : Nat
deriving DecidableEq, Repr

def shown (tree : Tree) : Shown :=
  ⟨tree.kind, tree.text, tree.location, tree.note.block⟩

/-- The line shows the node alone: there is nothing behind the block number, and the text has
no end of a line in it. -/
structure IsPlainLine (node : Tree) : Prop where
  attributes : node.note.attributes = {}
  declaredAt : node.note.declaredAt = none
  text : '\n' ∉ node.text.toList

instance (node : Tree) : Decidable node.IsPlainLine :=
  decidable_of_iff (node.note.attributes = {} ∧ node.note.declaredAt = none ∧
      '\n' ∉ node.text.toList)
    ⟨fun all => ⟨all.1, all.2.1, all.2.2⟩, fun plain => ⟨plain.1, plain.2, plain.3⟩⟩

namespace Shown

def line (shown : Shown) : String :=
  shown.kind.tag ++ " \"" ++ shown.text ++ "\" (" ++ shown.location.display ++ ") \x7b" ++
    shown.block.repr ++ "\x7d"

theorem toList_line (shown : Shown) :
    shown.line.toList = shown.kind.tag.toList ++ ' ' :: '"' :: (shown.text.toList ++
      '"' :: ' ' :: '(' :: (shown.location.numbers '.' ++
      ')' :: ' ' :: '\x7b' :: (shown.block.repr.toList ++ ['\x7d']))) := by
  simp [line]

/-- The tag ends at the first blank. Behind the text the last opening brace stands before the
block number and the last parenthesis before the place. -/
theorem line_injective : Function.Injective line := by
  intro first second equal
  have spelled := congrArg String.toList equal
  rw [toList_line, toList_line] at spelled
  have blankFree (kind : Kind) : ' ' ∉ kind.tag.toList :=
    fun member => (kind.tag_plain ' ' member).1 rfl
  have tag := eq_of_append_mark (blankFree _) (blankFree _) spelled
  have braceFree (number : Nat) : '\x7b' ∉ number.repr.toList ++ ['\x7d'] := by
    simpa using not_mem_repr (by decide) number
  have atBlock : (first.text.toList ++ '"' :: ' ' :: '(' :: (first.location.numbers '.' ++
        [')', ' '])) ++ '\x7b' :: (first.block.repr.toList ++ ['\x7d']) =
      (second.text.toList ++ '"' :: ' ' :: '(' :: (second.location.numbers '.' ++
        [')', ' '])) ++ '\x7b' :: (second.block.repr.toList ++ ['\x7d']) := by
    simpa using tag.2
  have block := eq_of_append_lastMark (braceFree _) (braceFree _) atBlock
  have parenthesisFree (location : Location) : '(' ∉ location.numbers '.' ++ [')', ' '] := by
    simpa using Location.not_mem_numbers (by decide) (by decide) location
  have atPlace : (first.text.toList ++ ['"', ' ']) ++ '(' :: (first.location.numbers '.' ++
        [')', ' ']) =
      (second.text.toList ++ ['"', ' ']) ++ '(' :: (second.location.numbers '.' ++
        [')', ' ']) := by
    simpa using block.1
  have place := eq_of_append_lastMark (parenthesisFree _) (parenthesisFree _) atPlace
  obtain ⟨kind, text, location, number⟩ := first
  obtain ⟨otherKind, otherText, otherLocation, otherNumber⟩ := second
  have sameKind : kind = otherKind := Kind.tag_injective (String.toList_injective tag.1)
  have sameText : text = otherText :=
    String.toList_injective (List.append_cancel_right place.1)
  have sameLocation : location = otherLocation :=
    Location.numbers_injective (by decide) (List.append_cancel_right place.2)
  have sameNumber : number = otherNumber :=
    repr_injective (String.toList_injective (List.append_cancel_right block.2))
  rw [sameKind, sameText, sameLocation, sameNumber]

theorem newline_not_mem_line {shown : Shown} (plain : '\n' ∉ shown.text.toList) :
    '\n' ∉ shown.line.toList := by
  have tag : '\n' ∉ shown.kind.tag.toList := fun member => (shown.kind.tag_plain _ member).2.2 rfl
  have place : '\n' ∉ shown.location.numbers '.' :=
    Location.not_mem_numbers (by decide) (by decide) shown.location
  have block : '\n' ∉ shown.block.repr.toList := not_mem_repr (by decide) shown.block
  simp only [toList_line, List.mem_append, List.mem_cons, tag, plain, place, block]
  decide

end Shown

theorem IsPlainLine.line_eq {node : Tree} (plain : node.IsPlainLine) :
    node.line = node.shown.line := by
  have nothing : Attributes.render {} node.note.structName = "" := by
    rfl
  rw [line, plain.attributes, plain.declaredAt, nothing]
  simp [Shown.line, shown]

def indented (entry : Nat × Shown) : String :=
  String.join (List.replicate entry.1 "|   ") ++ entry.2.line

/-- A line begins with its tag, so every bar before it counts. -/
theorem eq_of_bars {depth other : Nat} {rest more : List Char} (tag : rest.head? ≠ some '|')
    (tagOther : more.head? ≠ some '|')
    (equal : (String.join (List.replicate depth "|   ")).toList ++ rest =
      (String.join (List.replicate other "|   ")).toList ++ more) : depth = other ∧ rest = more := by
  simp only [String.toList_join] at equal
  induction depth generalizing other with
  | zero =>
      cases other with
      | zero => simpa using equal
      | succ other => simp_all [List.replicate_succ]
  | succ depth induction =>
      cases other with
      | zero =>
          simp only [List.replicate_zero, List.flatMap_nil, List.nil_append] at equal
          simp [← equal, List.replicate_succ] at tagOther
      | succ other =>
          have inner : depth = other ∧ rest = more :=
            induction (by simpa [List.replicate_succ] using equal)
          exact ⟨congrArg Nat.succ inner.1, inner.2⟩

theorem Shown.head?_line (shown : Shown) : shown.line.toList.head? ≠ some '|' := by
  have plain := shown.kind.tag_plain '|'
  rw [toList_line]
  cases tag : shown.kind.tag.toList with
  | nil => simp
  | cons c rest =>
      intro bar
      simp only [List.cons_append, List.head?_cons, Option.some.injEq] at bar
      exact (plain (by simp [tag, bar])).2.1 rfl

theorem indented_injective : Function.Injective indented := by
  intro first second equal
  have spelled := congrArg String.toList equal
  simp only [indented, String.toList_append] at spelled
  have parts := eq_of_bars first.2.head?_line second.2.head?_line spelled
  exact Prod.ext parts.1 (Shown.line_injective (String.toList_injective parts.2))

theorem newline_not_mem_indented {entry : Nat × Shown} (plain : '\n' ∉ entry.2.text.toList) :
    '\n' ∉ (indented entry).toList := by
  have line := Shown.newline_not_mem_line plain
  simp [indented, line]

/-- Lines without ends of lines in them are told by the text that they make up. -/
theorem eq_of_joined {first second : List String} (plain : ∀ line ∈ first, '\n' ∉ line.toList)
    (plainSecond : ∀ line ∈ second, '\n' ∉ line.toList)
    (equal : String.join (first.map (· ++ "\n")) = String.join (second.map (· ++ "\n"))) :
    first = second := by
  replace equal := congrArg String.toList equal
  simp only [String.toList_join] at equal
  induction first generalizing second with
  | nil =>
      cases second with
      | nil => rfl
      | cons line second => simp at equal
  | cons line first induction =>
      cases second with
      | nil => simp at equal
      | cons other second =>
          obtain ⟨here, below⟩ := List.forall_mem_cons.mp plain
          obtain ⟨hereSecond, belowSecond⟩ := List.forall_mem_cons.mp plainSecond
          have parts := eq_of_append_mark here hereSecond (by simpa using equal)
          rw [String.toList_injective parts.1, induction below belowSecond (by simpa using parts.2)]

/-! ## Outlines -/

mutual
def outline (depth : Nat) : Tree → List (Nat × Shown)
  | ⟨kind, location, text, note, children⟩ =>
      (depth, shown ⟨kind, location, text, note, children⟩) :: outlineAll (depth + 1) children

def outlineAll (depth : Nat) : List Tree → List (Nat × Shown)
  | [] => []
  | tree :: rest => tree.outline depth ++ outlineAll depth rest
end

theorem outline_eq (depth : Nat) (tree : Tree) :
    tree.outline depth = (depth, tree.shown) :: outlineAll (depth + 1) tree.children := by
  cases tree
  rfl

theorem outlineAll_eq_flatMap (depth : Nat) (trees : List Tree) :
    outlineAll depth trees = trees.flatMap (outline depth) := by
  induction trees with
  | nil => rfl
  | cons tree rest induction => simp [outlineAll, induction]

theorem dumpLinesAll_eq_flatMap (depth : Nat) (trees : List Tree) :
    dumpLinesAll depth trees = trees.flatMap (dumpLines depth) := by
  induction trees with
  | nil => rfl
  | cons tree rest induction => simp [dumpLinesAll, induction]

theorem map_outline (depth : Nat) (tree : Tree) :
    (tree.outline depth).map (·.2) = tree.preorder.map shown := by
  induction tree using Tree.induction generalizing depth with
  | node tree induction =>
      obtain ⟨kind, location, text, note, children⟩ := tree
      rw [outline_eq, preorder_mk, outlineAll_eq_flatMap, List.map_cons, List.map_cons,
        List.map_flatMap, List.map_flatMap]
      exact congrArg _ (List.flatMap_congr fun child member => induction child member (depth + 1))

/-- Without attributes the lines of the dump are those of the outline. -/
theorem dumpLines_eq {tree : Tree} (plain : ∀ node ∈ tree.preorder, node.IsPlainLine)
    (depth : Nat) : tree.dumpLines depth = (tree.outline depth).map indented := by
  induction tree using Tree.induction generalizing depth with
  | node tree induction =>
      obtain ⟨kind, location, text, note, children⟩ := tree
      obtain ⟨here, below⟩ := forall_mem_preorder.mp plain
      have inner : dumpLinesAll (depth + 1) children =
          (outlineAll (depth + 1) children).map indented := by
        rw [dumpLinesAll_eq_flatMap, outlineAll_eq_flatMap, List.map_flatMap]
        exact List.flatMap_congr fun child member =>
          induction child member (below child member) (depth + 1)
      rw [dumpLines_mk, outline_eq, List.map_cons, inner, here.line_eq]
      rfl

/-! ## The tree behind an outline -/

def Leaves (depth : Nat) (rest : List (Nat × Shown)) : Prop :=
  ∀ entry ∈ rest.head?, entry.1 < depth

theorem leaves_outlineAll {depth : Nat} {rest : List (Nat × Shown)} (leaves : Leaves depth rest)
    (trees : List Tree) : Leaves (depth + 1) (outlineAll depth trees ++ rest) := by
  cases trees with
  | nil => exact fun entry member => Nat.lt_succ_of_lt (leaves entry member)
  | cons tree trees =>
      intro entry member
      simp only [outlineAll, outline_eq, List.cons_append, List.head?_cons, Option.mem_def,
        Option.some.injEq] at member
      rw [← member]
      exact Nat.lt_succ_self depth

def IsTold (tree : Tree) : Prop :=
  ∀ (depth : Nat) (other : Tree) (rest more : List (Nat × Shown)), Leaves (depth + 1) rest →
    Leaves (depth + 1) more → tree.outline depth ++ rest = other.outline depth ++ more →
    tree.blocksOnly = other.blocksOnly ∧ rest = more

theorem blocksOnly_eq_iff (first second : Tree) :
    first.blocksOnly = second.blocksOnly ↔ first.shown = second.shown ∧
      first.children.map blocksOnly = second.children.map blocksOnly := by
  cases first
  cases second
  simp only [blocksOnly_mk, shown, mk.injEq, Note.mk.injEq, Shown.mk.injEq]
  tauto

/-- Trees beside each other are told, because each of them ends where the next begins. -/
theorem told_all {depth : Nat} {first second : List Tree} {rest more : List (Nat × Shown)}
    (told : ∀ tree ∈ first, tree.IsTold) (leaves : Leaves depth rest)
    (leavesMore : Leaves depth more)
    (equal : outlineAll depth first ++ rest = outlineAll depth second ++ more) :
    first.map blocksOnly = second.map blocksOnly ∧ rest = more := by
  induction first generalizing second with
  | nil =>
      cases second with
      | nil => exact ⟨rfl, equal⟩
      | cons tree second =>
          -- The other list has a tree at this depth, but what follows here is less deep.
          have deeper := leaves (depth, tree.shown) (by
            simp only [outlineAll, List.nil_append] at equal
            simp [equal, outline_eq])
          exact absurd deeper (Nat.lt_irrefl depth)
  | cons tree first induction =>
      obtain ⟨here, others⟩ := List.forall_mem_cons.mp told
      cases second with
      | nil =>
          have deeper := leavesMore (depth, tree.shown) (by
            simp only [outlineAll, List.nil_append] at equal
            simp [← equal, outline_eq])
          exact absurd deeper (Nat.lt_irrefl depth)
      | cons other second =>
          simp only [outlineAll, List.append_assoc] at equal
          have same := here depth other _ _ (leaves_outlineAll leaves first)
            (leaves_outlineAll leavesMore second) equal
          have below := induction others same.2
          exact ⟨by rw [List.map_cons, List.map_cons, same.1, below.1], below.2⟩

theorem isTold (tree : Tree) : tree.IsTold := by
  induction tree using Tree.induction with
  | node tree induction =>
      intro depth other rest more leaves leavesMore equal
      simp only [outline_eq, List.cons_append, List.cons.injEq, Prod.mk.injEq, true_and] at equal
      have below := told_all induction leaves leavesMore equal.2
      exact ⟨(blocksOnly_eq_iff tree other).mpr ⟨equal.1, below.1⟩, below.2⟩

theorem outline_blocksOnly (depth : Nat) (tree : Tree) :
    tree.blocksOnly.outline depth = tree.outline depth := by
  induction tree using Tree.induction generalizing depth with
  | node tree induction =>
      obtain ⟨kind, location, text, note, children⟩ := tree
      rw [outline_eq, outline_eq, blocksOnly_mk, outlineAll_eq_flatMap, outlineAll_eq_flatMap,
        List.flatMap_map]
      exact congrArg _ (List.flatMap_congr fun child member => induction child member (depth + 1))

/-- Trees without attributes have the same dump just when they agree in kinds, places, texts,
blocks and children. -/
theorem dump_eq_iff {first second : Tree} (plain : ∀ node ∈ first.preorder, node.IsPlainLine)
    (plainSecond : ∀ node ∈ second.preorder, node.IsPlainLine) :
    first.dump = second.dump ↔ first.blocksOnly = second.blocksOnly := by
  have lineFree {tree : Tree} (plain : ∀ node ∈ tree.preorder, node.IsPlainLine) :
      ∀ line ∈ (tree.outline 0).map indented, '\n' ∉ line.toList := by
    intro line member
    obtain ⟨entry, inside, rfl⟩ := List.mem_map.mp member
    have listed : entry.2 ∈ tree.preorder.map shown := by
      rw [← map_outline 0]
      exact List.mem_map_of_mem inside
    obtain ⟨node, known, same⟩ := List.mem_map.mp listed
    exact newline_not_mem_indented (same ▸ (plain node known).text)
  rw [dump, dump, dumpLines_eq plain, dumpLines_eq plainSecond]
  constructor
  · intro equal
    have lines := eq_of_joined (lineFree plain) (lineFree plainSecond) equal
    have outlines := List.map_injective_iff.mpr indented_injective lines
    exact (isTold first 0 second [] [] (by simp [Leaves]) (by simp [Leaves])
      (by rw [outlines])).1
  · intro same
    rw [← outline_blocksOnly 0 first, same, outline_blocksOnly 0 second]

def misleadingTree : Tree :=
  ⟨.root, {}, "t", {}, [⟨.identifier, ⟨0, 1, 2⟩, "x\" (0.1.2) \x7b3\x7d", { block := 3 },
    [⟨.identifier, ⟨0, 1, 4⟩, "y", { structName := some "s" }, []⟩]⟩]⟩

def straightTree : Tree :=
  ⟨.root, {}, "t", {}, [⟨.identifier, ⟨0, 1, 2⟩, "x", { block := 3 }, []⟩,
    ⟨.identifier, ⟨0, 1, 4⟩, "y", { symbol := some 7 }, []⟩]⟩

theorem misleadingTree_told : (∀ node ∈ misleadingTree.preorder, node.IsPlainLine) ∧
    (∀ node ∈ straightTree.preorder, node.IsPlainLine) ∧
    misleadingTree.dump ≠ straightTree.dump := by
  have plain : ∀ node ∈ misleadingTree.preorder, node.IsPlainLine := by decide
  have plainOther : ∀ node ∈ straightTree.preorder, node.IsPlainLine := by decide
  refine ⟨plain, plainOther, fun equal => ?_⟩
  have agree := (dump_eq_iff plain plainOther).mp equal
  simp [misleadingTree, straightTree, blocksOnly_mk] at agree

end Tree

end OcLang
