import Mathlib.Data.List.Nodup
import OcLang.Proofs.Tree.Calls

namespace OcLang.Tree

/-! # Renamed calls

Two calls of one function look the same. To follow each call on its own, the calls
of a tree are given other names, which may be different for each of them. -/

def renameCallee (name : String) : Tree → Tree
  | ⟨.call, location, text, note, callee :: arguments⟩ =>
      ⟨.call, location, text, note, { callee with text := name } :: arguments⟩
  | node => node

mutual
/-- A tree without the names that are called. Trees with the same rest differ in
these names alone. -/
def withoutCallees : Tree → Tree
  | ⟨kind, location, text, note, children⟩ =>
      renameCallee "" ⟨kind, location, text, note, withoutCalleesAll children⟩

def withoutCalleesAll : List Tree → List Tree
  | [] => []
  | tree :: rest => tree.withoutCallees :: withoutCalleesAll rest
end

mutual
def numberCalls (start : Nat) : Tree → Tree
  | ⟨kind, location, text, note, children⟩ =>
      renameCallee start.repr ⟨kind, location, text, note, numberCallsAll (start + 1) children⟩

def numberCallsAll (start : Nat) : List Tree → List Tree
  | [] => []
  | tree :: rest => tree.numberCalls start :: numberCallsAll (start + tree.size) rest
end

section

variable (name other : String) (kind : Kind) (location : Location) (text : String) (note : Note)
  (children : List Tree)

theorem withoutCalleesAll_eq_map (trees : List Tree) :
    withoutCalleesAll trees = trees.map withoutCallees := by
  induction trees with
  | nil => rfl
  | cons tree rest induction => simp [withoutCalleesAll, induction]

theorem withoutCallees_mk :
    withoutCallees ⟨kind, location, text, note, children⟩ =
      renameCallee "" ⟨kind, location, text, note, children.map withoutCallees⟩ := by
  rw [withoutCallees, withoutCalleesAll_eq_map]

/-- Renaming changes a callee and nothing else, so that it can be told by cases. -/
theorem renameCallee_cases :
    (∃ callee arguments, kind = .call ∧ children = callee :: arguments ∧
      renameCallee name ⟨kind, location, text, note, children⟩ =
        ⟨.call, location, text, note, { callee with text := name } :: arguments⟩) ∨
    (calledHere ⟨kind, location, text, note, children⟩ = [] ∧ ∀ name,
      renameCallee name ⟨kind, location, text, note, children⟩ =
        ⟨kind, location, text, note, children⟩) := by
  by_cases call : kind = .call
  · subst call
    cases children with
    | nil => exact .inr ⟨rfl, fun _ => rfl⟩
    | cons callee arguments => exact .inl ⟨callee, arguments, rfl, rfl, rfl⟩
  · apply Or.inr
    cases kind <;> first | contradiction | exact ⟨rfl, fun _ => rfl⟩

end

/-! ## What stays the same -/

theorem withoutCallees_text (tree : Tree) (text : String) :
    withoutCallees { tree with text } = { tree.withoutCallees with text } := by
  rcases tree with ⟨kind, location, old, note, children⟩
  rw [withoutCallees_mk, withoutCallees_mk]
  cases kind with
  | call => cases children <;> rfl
  | _ => rfl

theorem withoutCallees_of_ne {kind : Kind} (noCall : kind ≠ .call) (location : Location)
    (text : String) (note : Note) (children : List Tree) :
    withoutCallees ⟨kind, location, text, note, children⟩ =
      ⟨kind, location, text, note, children.map withoutCallees⟩ := by
  rw [withoutCallees_mk]
  cases kind <;> first | contradiction | rfl

theorem text_withoutCallees (tree : Tree) : tree.withoutCallees.text = tree.text := by
  rcases tree with ⟨kind, location, text, note, children⟩
  rw [withoutCallees_mk]
  cases kind with
  | call => cases children <;> rfl
  | _ => rfl

theorem skeleton_withoutCallees (tree : Tree) : tree.withoutCallees.skeleton = tree.skeleton := by
  induction tree using Tree.induction with
  | node tree induction =>
      rcases tree with ⟨kind, location, text, note, children⟩
      rw [withoutCallees_mk]
      have below : (children.map withoutCallees).map skeleton = children.map skeleton := by
        rw [List.map_map]
        exact List.map_congr_left induction
      rcases renameCallee_cases "" kind location text note (children.map withoutCallees) with
        ⟨callee, arguments, rfl, parts, renamed⟩ | ⟨_, unchanged⟩
      · rw [renamed, skeleton_mk, skeleton_mk, ← below, parts]
        cases callee
        simp
      · rw [unchanged, skeleton_mk, skeleton_mk, below]

structure KeepsNames (change : Tree → Tree) : Prop where
  skeleton : ∀ tree, (change tree).skeleton = tree.skeleton
  text : ∀ tree, (change tree).text = tree.text
  children : ∀ tree, tree.kind ≠ .call → (change tree).children = tree.children.map change

namespace KeepsNames

theorem withoutCallees : KeepsNames Tree.withoutCallees where
  skeleton := skeleton_withoutCallees
  text := text_withoutCallees
  children tree noCall := by
    cases tree
    rw [withoutCallees_of_ne noCall]

theorem bare : KeepsNames Tree.bare where
  skeleton tree := by
    induction tree using Tree.induction with
    | node tree induction =>
        cases tree
        rw [bare_mk, skeleton_mk, skeleton_mk, List.map_map]
        exact congrArg (Tree.mk _ _ _ _) (List.map_congr_left induction)
  text := bare_text
  children tree _ := bare_children tree

variable {change : Tree → Tree} (keeps : KeepsNames change)

include keeps

theorem kind (tree : Tree) : (change tree).kind = tree.kind := by
  rw [← kind_skeleton, keeps.skeleton, kind_skeleton]

theorem declaredName? {tree : Tree} (noCall : tree.kind ≠ .call) :
    (change tree).declaredName? = tree.declaredName?.map change := by
  rw [Tree.declaredName?, Tree.declaredName?, keeps.children tree noCall, List.getLast?_map]
  cases tree.children.getLast? with
  | none => rfl
  | some last => cases naming : last.kind.isNaming <;> simp [Option.filter, naming, keeps.kind]

end KeepsNames

/-- Trees that differ in called names alone have the same kinds. -/
theorem skeleton_of_withoutCallees {tree other : Tree}
    (same : other.withoutCallees = tree.withoutCallees) : other.skeleton = tree.skeleton := by
  rw [← skeleton_withoutCallees, same, skeleton_withoutCallees]

theorem withoutCallees_numberCalls (start : Nat) (tree : Tree) :
    (tree.numberCalls start).withoutCallees = tree.withoutCallees := by
  induction tree using Tree.induction generalizing start with
  | node tree induction =>
      rcases tree with ⟨kind, location, text, note, children⟩
      have all : ∀ start, (numberCallsAll start children).map withoutCallees =
          children.map withoutCallees := by
        simp only at induction
        induction children with
        | nil => intro start; rfl
        | cons child rest below =>
            intro start
            rw [numberCallsAll, List.map_cons, List.map_cons, induction child (by simp),
              below (fun child member => induction child (by simp [member]))]
      rw [numberCalls, withoutCallees_mk, ← all (start + 1)]
      rcases renameCallee_cases start.repr kind location text note
          (numberCallsAll (start + 1) children) with
        ⟨callee, arguments, rfl, parts, renamed⟩ | ⟨_, unchanged⟩
      · rw [renamed, parts, withoutCallees_mk, List.map_cons, withoutCallees_text]
        rfl
      · rw [unchanged, withoutCallees_mk]

/-! ## Numbered calls are apart -/

theorem calledNames_text (tree : Tree) (text : String) :
    calledNames { tree with text } = tree.calledNames := by
  rcases tree with ⟨kind, location, old, note, children⟩
  rw [calledNames_mk, calledNames_mk]
  congr 1
  cases kind with
  | call => cases children <;> rfl
  | _ => rfl

theorem calledNames_renameCallee (name : String) (kind : Kind) (location : Location)
    (text : String) (note : Note) (children : List Tree) :
    (calledNames (renameCallee name ⟨kind, location, text, note, children⟩)).Sublist
      (name :: children.flatMap calledNames) := by
  rcases renameCallee_cases name kind location text note children with
    ⟨callee, arguments, rfl, rfl, renamed⟩ | ⟨none, unchanged⟩
  · rw [renamed, calledNames_mk, List.flatMap_cons, calledNames_text]
    exact List.Sublist.refl _
  · rw [unchanged, calledNames_mk, none]
    exact List.sublist_cons_self name _

theorem calledNames_numberCalls (start : Nat) (tree : Tree) :
    (tree.numberCalls start).calledNames.Sublist ((List.range' start tree.size).map Nat.repr) := by
  induction tree using Tree.induction generalizing start with
  | node tree induction =>
      rcases tree with ⟨kind, location, text, note, children⟩
      have all : ∀ start, ((numberCallsAll start children).flatMap calledNames).Sublist
          ((List.range' start (sizeAll children)).map Nat.repr) := by
        simp only at induction
        induction children with
        | nil => intro start; exact List.Sublist.refl _
        | cons child rest below =>
            intro start
            have others := below (fun child member => induction child (by simp [member]))
              (start + child.size)
            have both := (induction child (by simp) start).append others
            rw [← List.map_append] at both
            rw [numberCallsAll, List.flatMap_cons, sizeAll]
            rwa [← List.range'_append_1]
      rw [numberCalls, size, List.range'_succ, List.map_cons]
      exact (calledNames_renameCallee ..).trans ((all (start + 1)).cons_cons start.repr)

theorem calledNames_numberCalls_nodup (start : Nat) (tree : Tree) :
    (tree.numberCalls start).calledNames.Nodup := by
  apply (calledNames_numberCalls start tree).nodup
  apply List.Nodup.map _ (List.nodup_range' 1)
  intro first second equal
  exact repr_injective equal

end OcLang.Tree
