import OcLang.Tree

namespace OcLang.Numbering

/-! ## Block numbers

Scopes are numbered 1, 2, 3, … in the order in which a walk over the statements
opens them. A block opens one for everything in it; a function or prototype
with a name opens one for its parameters, which the body shares. Every node gets
the number of the innermost scope around it; nodes at file scope keep the
number they have. Expressions open no scopes.

The state of a walk is the count of scopes opened so far. -/

abbrev Numbered := StateM Nat

def openScope : Numbered Nat :=
  modifyGet fun opened => (opened + 1, opened + 1)

def placeNote (scope : Option Nat) (note : Note) : Note :=
  match scope with
  | some block => { note with block }
  | none => note

def place (scope : Option Nat) (tree : Tree) : Tree :=
  match scope with
  | some block => tree.stamp block
  | none => tree

def heading (scope : Option Nat) (function declarator parameters : Tree) (rest : List Tree) :
    Numbered Tree :=
  if declarator.declaredName?.isNone then
    pure (place scope { function with children := declarator :: parameters :: rest })
  else do
    let block ← openScope
    return {
      function with
      note := placeNote scope function.note
      children := place scope declarator :: parameters.stamp block :: rest.map (place scope) }

mutual
def statement (scope : Option Nat) : Tree → Numbered Tree
  | ⟨.root, location, text, note, children⟩ => do
      let children ← statements scope children
      return ⟨.root, location, text, placeNote scope note, children⟩
  | ⟨.block, location, text, note, children⟩ => do
      let block ← openScope
      let children ← statements (some block) children
      return ⟨.block, location, text, { note with block }, children⟩
  | ⟨.function, location, text, note, declarator :: parameters :: body :: rest⟩ =>
      if declarator.declaredName?.isNone then
        pure (place scope
          ⟨.function, location, text, note, declarator :: parameters :: body :: rest⟩)
      else do
        let block ← openScope
        let body ← functionBody block body
        return ⟨.function, location, text, placeNote scope note,
          place scope declarator :: parameters.stamp block :: body :: rest.map (place scope)⟩
  | ⟨.function, location, text, note, [declarator, parameters]⟩ =>
      heading scope ⟨.function, location, text, note, []⟩ declarator parameters []
  | ⟨.prototype, location, text, note, declarator :: parameters :: rest⟩ =>
      heading scope ⟨.prototype, location, text, note, []⟩ declarator parameters rest
  | ⟨.whileLoop, location, text, note, condition :: bodies⟩ => do
      let bodies ← statements scope bodies
      return ⟨.whileLoop, location, text, placeNote scope note, place scope condition :: bodies⟩
  | ⟨.ifThen, location, text, note, condition :: bodies⟩ => do
      let bodies ← statements scope bodies
      return ⟨.ifThen, location, text, placeNote scope note, place scope condition :: bodies⟩
  | ⟨.ifElse, location, text, note, condition :: bodies⟩ => do
      let bodies ← statements scope bodies
      return ⟨.ifElse, location, text, placeNote scope note, place scope condition :: bodies⟩
  | other => pure (place scope other)

def functionBody (block : Nat) : Tree → Numbered Tree
  | ⟨kind, location, text, note, children⟩ => do
      let children ← statements (some block) children
      return ⟨kind, location, text, { note with block }, children⟩

def statements (scope : Option Nat) : List Tree → Numbered (List Tree)
  | [] => pure []
  | tree :: rest => do
      let tree ← statement scope tree
      let rest ← statements scope rest
      return tree :: rest
end

def number (tree : Tree) : Tree :=
  ((statement none tree).run 0).1
end OcLang.Numbering
