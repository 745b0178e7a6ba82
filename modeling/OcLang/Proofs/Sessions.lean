import Mathlib.Data.List.Basic
import OcLang.Session
import OcLang.Proofs.Stepwise
import OcLang.Proofs.Tree.Skeleton

namespace OcLang

/-! # Sessions

A session keeps the texts that it has met. A copy of a text is the text itself,
so that what is kept changes nothing in what is compiled. -/

namespace NamePool

theorem text?_keyOf (text : String) (pool : NamePool) :
    Ends (keyOf text) pool fun key after => after.text? key = some text := by
  by_cases member : text ∈ pool.texts
  · have known : (keyOf text).run pool = (pool.texts.idxOf text, pool) := dif_pos member
    rw [Ends, known]
    exact List.getElem?_idxOf member
  · have added : (keyOf text).run pool = (pool.texts.length, pool.add text member) :=
      dif_neg member
    rw [Ends, added]
    simp [text?, add]

theorem share_ends (text : String) (pool : NamePool) :
    Ends (share text) pool fun copy _ => copy = text := by
  refine .bind ((text?_keyOf text pool).imp fun key after held => ?_)
  refine .bind (.get (.pure ?_))
  rw [held, Option.getD_some]

end NamePool

namespace Tree

theorem shareTextsAll_ends {trees : List Tree}
    (each : ∀ tree ∈ trees, ∀ pool, Ends tree.shareTexts pool fun shared _ => shared = tree)
    (pool : NamePool) : Ends (shareTextsAll trees) pool fun shared _ => shared = trees := by
  induction trees generalizing pool with
  | nil => rfl
  | cons tree rest induction =>
      simp only [List.forall_mem_cons] at each
      refine .bind ((each.1 pool).imp ?_)
      rintro _ middle rfl
      refine .bind ((induction each.2 middle).imp ?_)
      rintro _ after rfl
      exact .pure rfl

theorem shareTexts_ends (tree : Tree) (pool : NamePool) :
    Ends tree.shareTexts pool fun shared _ => shared = tree := by
  induction tree using Tree.induction generalizing pool with
  | node tree induction =>
      cases tree
      rw [shareTexts]
      refine .bind ((NamePool.share_ends _ pool).imp ?_)
      rintro _ middle rfl
      refine .bind ((shareTextsAll_ends induction middle).imp ?_)
      rintro _ after rfl
      exact .pure rfl

end Tree

namespace Session

/-- What a compilation gives does not depend on the texts that were met before. -/
theorem compile_ends (tree : Tree) (session : Session) :
    Ends (compile tree) session fun outputs after =>
      outputs = OcLang.compile session.warningsAsErrors tree ∧
        after.warningsAsErrors = session.warningsAsErrors := by
  have same : (tree.shareTexts.run session.names).1 = tree := tree.shareTexts_ends session.names
  refine ⟨?_, rfl⟩
  show OcLang.compile session.warningsAsErrors (tree.shareTexts.run session.names).1 = _
  rw [same]

theorem compileAll_ends (trees : List Tree) (session : Session) :
    Ends (compileAll trees) session fun outputs _ =>
      outputs = trees.map (OcLang.compile session.warningsAsErrors) := by
  induction trees generalizing session with
  | nil => rfl
  | cons tree rest induction =>
      refine .bind ((compile_ends tree session).imp ?_)
      rintro _ after ⟨rfl, sameSetting⟩
      refine .bind ((induction after).imp ?_)
      rintro _ last rfl
      refine .pure ?_
      rw [List.map_cons, sameSetting]

end Session

end OcLang
