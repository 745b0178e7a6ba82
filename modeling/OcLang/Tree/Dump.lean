import OcLang.Tree

namespace OcLang.Tree

/-! ## The tree dump

One line per node in preorder; a node's line is indented by one bar for every
node above it. Texts are shown as they are. -/

def line (tree : Tree) : String :=
  let attributes := tree.note.attributes.render tree.note.structName
  tree.kind.tag ++ " \"" ++ tree.text ++ "\" (" ++ tree.location.display ++ ") \x7b" ++
    tree.note.block.repr ++ "\x7d" ++
    (if attributes == "" then "" else " " ++ attributes) ++
    (match tree.note.declaredAt with
      | some place => " (" ++ place.display ++ ")"
      | none => "")

private def indentation (depth : Nat) : String :=
  String.join (List.replicate depth "|   ")

mutual
def dumpLines (depth : Nat) : Tree → List String
  | ⟨kind, location, text, note, children⟩ =>
      (indentation depth ++ line ⟨kind, location, text, note, children⟩) ::
        dumpLinesAll (depth + 1) children

def dumpLinesAll (depth : Nat) : List Tree → List String
  | [] => []
  | tree :: rest => tree.dumpLines depth ++ dumpLinesAll depth rest
end

theorem dumpLines_mk (depth : Nat) (kind : Kind) (location : Location) (text : String)
    (note : Note) (children : List Tree) :
    dumpLines depth ⟨kind, location, text, note, children⟩ =
      (String.join (List.replicate depth "|   ") ++ line ⟨kind, location, text, note, children⟩) ::
        dumpLinesAll (depth + 1) children := rfl

def dump (tree : Tree) : String :=
  String.join ((tree.dumpLines 0).map (· ++ "\n"))

example : dump ⟨.root, {}, "t.oc", {}, [⟨.identifier, ⟨0, 1, 2⟩, "x", { block := 3 }, []⟩]⟩ =
    "ROOT \"t.oc\" (0.0.0) \x7b0\x7d\n|   IDENT \"x\" (0.1.2) \x7b3\x7d\n" := by
  decide

end OcLang.Tree
