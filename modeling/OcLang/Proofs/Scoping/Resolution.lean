import OcLang.Proofs.Scoping.Statements
import OcLang.Tree.Build

namespace OcLang

open Lexical

/-! # Name resolution of whole trees

The analysis resolves names with a stack of tables that it changes while it
walks. What it notes on the nodes is what lexical scoping says. -/

structure ResolvesLexically (tree annotated : Tree) (analysis : Analysis) : Prop where
  same : annotated.bare = tree.bare
  /-- A name refers to the latest declaration in the innermost scope around it
  that declares the name; without one the node is left untouched. -/
  uses : ∀ context node, .use context node ∈ events {} annotated →
    match context.resolve? node.text with
    | some meant =>
        node.note.symbol = some meant.symbol ∧ node.note.declaredAt = some meant.place ∧
          (analysis.symbol meant.symbol).location = meant.place
    | none =>
        node.note.symbol = none ∧ node.note.attributes = {} ∧ node.note.structName = none
  declarations : ∀ context role name, .declaration context role name ∈ events {} annotated →
    name.note.symbol = some context.stored ∧
      (analysis.symbol context.stored).location = name.location ∧
      (analysis.symbol context.stored).block = context.scopeOf role
  /-- Each name that means nothing is reported once, in the order of the walk. -/
  unresolved : analysis.diagnostics.unresolved =
    (events {} annotated).filterMap Event.unresolved?

theorem analyze_follows (fresh : Prop) (tree : Tree) (plain : fresh → tree.IsFresh) :
    (analyze tree).1.bare = tree.bare ∧
      Follows fresh (events {} (analyze tree).1) (after {} tree) {}
        ((Statement.check none (Numbering.number tree)).run {}).2 := by
  obtain ⟨same, follows⟩ := Statement.check_follows fresh (Numbering.number tree) none
    (fun given => Numbering.isPlain_number (plain given)) Agrees.start
  rw [Statement.after_congr (Numbering.bare_number tree)] at follows
  exact ⟨same.trans (Numbering.bare_number tree), follows⟩

theorem kind_analyze (tree : Tree) : (analyze tree).1.kind = tree.kind := by
  rw [← Tree.bare_kind, (analyze_follows False tree False.elim).1, Tree.bare_kind]

theorem Lexical.Declaration.RecordedIn.symbol {declaration : Declaration} {analysis : Analysis}
    (recorded : declaration.RecordedIn analysis.symbols) :
    (analysis.symbol declaration.symbol).location = declaration.place ∧
      (analysis.symbol declaration.symbol).block = declaration.scope := by
  obtain ⟨symbol, stored, place, block, _⟩ := recorded
  simp [Analysis.symbol, stored, place, block]

/-- Name resolution is lexical scoping. -/
theorem analyze_resolvesLexically (tree : Tree) (fresh : tree.IsFresh) :
    ResolvesLexically tree (analyze tree).1 (analyze tree).2 := by
  obtain ⟨same, follows⟩ := analyze_follows True tree fun _ => fresh
  refine ⟨same, fun context node member => ?_, fun context role name member => ?_, ?_⟩
  · have holds := follows.holds _ member
    cases resolved : context.resolve? node.text with
    | none =>
        simp only [Event.Holds, resolved] at holds
        exact holds trivial
    | some meant =>
        simp only [Event.Holds, resolved] at holds
        have recorded : meant.RecordedIn (analyze tree).2.symbols := holds.2.2
        exact ⟨holds.1, holds.2.1, recorded.symbol.1⟩
  · have holds := follows.holds _ member
    have recorded : (context.declaration role name).RecordedIn (analyze tree).2.symbols := holds.2
    exact ⟨holds.1, recorded.symbol⟩
  · have unresolved : (analyze tree).2.diagnostics.unresolved =
        [] ++ (events {} (analyze tree).1).filterMap Event.unresolved? := follows.unresolved
    simpa using unresolved

/-- A block whose variable hides the one of the file, which initializes it; a
name of the block is used behind it. -/
def shadowing : Tree :=
  let b : TreeBuilder := {}
  b.root "shadowing" [
    b.declaration ⟨1, 1⟩ (b.declarator .declaredName false "int" ⟨1, 1⟩ ⟨1, 5⟩ "x")
      (some (b.int ⟨1, 9⟩ 1)),
    b.block ⟨2, 1⟩ [
      b.declaration ⟨3, 1⟩ (b.declarator .declaredName false "int" ⟨3, 1⟩ ⟨3, 5⟩ "x")
        (some (b.identifier ⟨3, 9⟩ "x")),
      b.declaration ⟨4, 1⟩ (b.declarator .declaredName false "int" ⟨4, 1⟩ ⟨4, 5⟩ "y")
        (some (b.identifier ⟨4, 9⟩ "x"))],
    b.identifier ⟨6, 1⟩ "y"]

example : (analyze shadowing).2.diagnostics.unresolved = [(⟨0, 6, 1⟩, "y")] := by
  decide +kernel

theorem shadowing_resolvesLexically : shadowing.IsFresh ∧
    ResolvesLexically shadowing (analyze shadowing).1 (analyze shadowing).2 :=
  ⟨rfl, analyze_resolvesLexically shadowing rfl⟩

end OcLang
