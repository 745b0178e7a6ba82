import OcLang.Tree

namespace OcLang

/-! ## Pools of texts

A pool keeps one copy of every text that it has met. The key of a text is its
place in the order of first arrival, so that two texts are equal just when their
keys are, and a key keeps its text when more texts arrive. -/

structure NamePool where
  texts : List String := []
  nodup : texts.Nodup := by simp
deriving Repr

namespace NamePool

instance : Inhabited NamePool := ⟨{}⟩

def key? (pool : NamePool) (text : String) : Option Nat :=
  pool.texts.idxOf? text

def text? (pool : NamePool) (key : Nat) : Option String :=
  pool.texts[key]?

def add (pool : NamePool) (text : String) (fresh : text ∉ pool.texts) : NamePool where
  texts := pool.texts ++ [text]
  nodup := by
    rw [List.nodup_append]
    refine ⟨pool.nodup, by simp, ?_⟩
    intro old member added equal
    rw [List.mem_singleton.mp equal]
    exact fun same => fresh (same ▸ member)

def keyOf (text : String) : StateM NamePool Nat := fun pool =>
  if member : text ∈ pool.texts then (pool.texts.idxOf text, pool)
  else (pool.texts.length, pool.add text member)

def share (text : String) : StateM NamePool String := do
  let key ← keyOf text
  return ((← get).text? key).getD text

example : ((["x", "y", "x"].mapM keyOf).run {}).1 = [0, 1, 0] := by
  decide

end NamePool

namespace Tree

mutual
def shareTexts : Tree → StateM NamePool Tree
  | ⟨kind, location, text, note, children⟩ => do
      let text ← NamePool.share text
      let children ← shareTextsAll children
      return ⟨kind, location, text, note, children⟩

def shareTextsAll : List Tree → StateM NamePool (List Tree)
  | [] => pure []
  | tree :: rest => do
      let tree ← tree.shareTexts
      let rest ← shareTextsAll rest
      return tree :: rest
end

end Tree

end OcLang
