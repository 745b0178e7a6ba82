import Mathlib.Data.List.Nodup
import OcLang.Proofs.Oil.Naming
import OcLang.Proofs.Oil.Readiness
import OcLang.Proofs.Oil.Strings
import OcLang.Proofs.Scoping.Symbols

namespace OcLang

open Lexical

/-! # Strings at file scope

String literals are bound at file scope, where a scan over all nodes finds them.
The lines of the bodies read them by names that the recursive lowering makes up on
its own. Both make the same names for the same nodes. -/

def Kind.isStore : Kind → Bool
  | .assign | .variable => true
  | _ => false

def Tree.stores (tree : Tree) : List Location :=
  (tree.preorder.filter (·.kind.isStore)).map (·.location)

theorem Tree.stores_congr {tree other : Tree} (same : other.bare = tree.bare) :
    other.stores = tree.stores := by
  have bare (tree : Tree) : tree.bare.stores = tree.stores := by
    simp [stores, preorder_bare, List.filter_map, Function.comp_def]
  rw [← bare other, same, bare]

namespace Oil

section

variable {analysis : Analysis}

/-! ## The scan for strings -/

theorem stringBinding?_of_stores {node value : Tree} {line : Line}
    (isString : value.kind = .literal .string) (stores : StoresString analysis node value line) :
    stringBinding? analysis node =
      some { name := .boundString node.location, literal := value.text } := by
  cases stores with
  | assigned isAssign children lowers plain =>
      simp [stringBinding?, isAssign, children, isString]
  | redeclared isVariable children declared replaces =>
      simp [stringBinding?, isVariable, children, isString, declared, replaces]

theorem VariableName.spelling_ne_stringLabel (name : VariableName) (place : Location) :
    name.spelling ≠ (stringLabel place).spelling := by
  intro equal
  have first := name.head?_spelling
  simp [equal, stringLabel, Label.spelling] at first

/-- A name made for a place is bound only for a node in that place. -/
theorem place_of_stringBinding? {node : Tree} {binding : StringBinding} {place : Location}
    (made : stringBinding? analysis node = some binding)
    (named : binding.name.render = (stringLabel place).spelling) :
    node.kind.isStore = true ∧ node.location = place := by
  have told {other : Location}
      (same : (Operand.boundString other).render = (stringLabel place).spelling) : other = place :=
    congrArg Label.location (Label.spelling_injective same)
  unfold stringBinding? at made
  split at made
  · rename_i declarator value isVariable children
    refine ⟨by simp [isVariable, Kind.isStore], ?_⟩
    split at made
    · rcases Option.map_eq_some_iff.mp made with ⟨name, declared, rfl⟩
      dsimp only at named
      split at named
      · exact told named
      · exact absurd named (VariableName.spelling_ne_stringLabel _ _)
    · contradiction
  · rename_i target value isAssign children
    refine ⟨by simp [isAssign, Kind.isStore], ?_⟩
    split at made
    · cases made
      exact told named
    · contradiction
  · contradiction

end

/-- Of nodes in different places only one makes a binding that is selected by its place. -/
theorem filter_filterMap_eq_singleton {nodes : List Tree} {scan : Tree → Option StringBinding}
    {selected : StringBinding → Bool} {candidate : Tree → Bool} {node : Tree}
    {binding : StringBinding}
    (apart : ((nodes.filter candidate).map (·.location)).Nodup) (member : node ∈ nodes)
    (made : scan node = some binding) (isSelected : selected binding = true)
    (placed : ∀ other made, scan other = some made → selected made = true →
      candidate other = true ∧ other.location = node.location) :
    (nodes.filterMap scan).filter selected = [binding] := by
  rcases List.append_of_mem member with ⟨earlier, later, rfl⟩
  rw [List.filter_append, List.filter_cons_of_pos (placed node binding made isSelected).1,
    List.map_append, List.map_cons, List.nodup_middle, List.nodup_cons, ← List.map_append,
    ← List.filter_append, List.mem_map] at apart
  have none : ∀ other ∈ earlier ++ later, ∀ made, scan other = some made →
      ¬selected made = true := by
    intro other present made found isSelected
    rcases placed other made found isSelected with ⟨isCandidate, same⟩
    exact apart.1 ⟨other, List.mem_filter.mpr ⟨present, isCandidate⟩, same⟩
  have nothing {others : List Tree} (sub : others ⊆ earlier ++ later) :
      (others.filterMap scan).filter selected = [] := by
    simp only [List.filter_eq_nil_iff, List.mem_filterMap]
    rintro made ⟨other, present, found⟩
    exact none other (sub present) made found
  simp [List.filterMap_append, made, isSelected,
    nothing (List.subset_append_left earlier later),
    nothing (List.subset_append_right earlier later)]

/-! ## What is bound -/

structure Program.BindsOnce (program : Program) (name literal : String) : Prop where
  strings : (program.strings.filter (·.name.render = name)).map (·.literal) = [literal]
  globals : ∀ declared ∈ program.globals, declared.2.spelling ≠ name

structure DeclaresString (analysis : Analysis) (node name value : Tree) : Prop where
  isVariable : node.kind = .variable
  children : ∃ declarator, node.children = [declarator, value] ∧
    declarator.declaredName? = some name
  isString : value.kind = .literal .string
  first : replacesVariable analysis name = false

structure BindsStrings (analysis : Analysis) (root : Tree) : Prop where
  read : ∀ line ∈ (generate analysis root).lines, ∀ place ∈ stringsRead line.operands,
    ∃ node ∈ root.preorder, ∃ value, node.location = place ∧ value.kind = .literal .string ∧
      StoresString analysis node value line ∧
      (generate analysis root).BindsOnce (stringLabel place).spelling value.text
  bound : ∀ earlier node later name value, root.preorder = earlier ++ node :: later →
    DeclaresString analysis node name value →
    (generate analysis root).strings = earlier.filterMap (stringBinding? analysis) ++
      { name := .variable (variableName analysis name), literal := value.text } ::
        later.filterMap (stringBinding? analysis)
  single : ∀ node name value, DeclaresString analysis node name value →
    globalVariable? analysis node = none ∧
      ∀ placement, lowerStatement analysis placement node = pure []
  spelled : ∀ node ∈ root.preorder, ∀ name value, DeclaresString analysis node name value →
    ∃ id, name.note.symbol = some id ∧ ∀ use ∈ root.walked, use.kind = .identifier →
      use.note.symbol = some id → variableName analysis use = variableName analysis name

section

variable {analysis : Analysis}

namespace DeclaresString

variable {node name value : Tree} (declares : DeclaresString analysis node name value)

include declares

theorem stringBinding?_eq : stringBinding? analysis node =
    some { name := .variable (variableName analysis name), literal := value.text } := by
  rcases declares.children with ⟨declarator, children, declared⟩
  simp [stringBinding?, declares.isVariable, children, declares.isString, declared, declares.first]

theorem globalVariable?_eq : globalVariable? analysis node = none := by
  rcases declares.children with ⟨declarator, children, _⟩
  simp [globalVariable?, declares.isVariable, children, declares.isString]

theorem lowerStatement_eq (placement : Placement) :
    lowerStatement analysis placement node = pure [] := by
  rcases declares.children with ⟨declarator, children, declared⟩
  rcases node with ⟨kind, location, text, note, below⟩
  have isVariable : kind = .variable := declares.isVariable
  simp only at children
  subst isVariable children
  simp [lowerStatement, lowerSimple, lowerDeclaration, declared, declares.isString, declares.first]

end DeclaresString

/-- No two nodes of a walk that store a string bind one name for their places. -/
theorem bindsOnce_of_stores {root node value : Tree} {line : Line} (apart : root.stores.Nodup)
    (member : node ∈ root.preorder) (isString : value.kind = .literal .string)
    (stores : StoresString analysis node value line) :
    (generate analysis root).BindsOnce (stringLabel node.location).spelling value.text where
  strings := by
    have made := stringBinding?_of_stores isString stores
    have single : (root.preorder.filterMap (stringBinding? analysis)).filter
        (·.name.render = (stringLabel node.location).spelling) =
          [{ name := .boundString node.location, literal := value.text }] := by
      apply filter_filterMap_eq_singleton apart member made (by simp [Operand.render])
      intro other binding found named
      exact place_of_stringBinding? found (of_decide_eq_true named)
    exact congrArg (List.map (·.literal)) single
  globals declared _ := VariableName.spelling_ne_stringLabel declared.2 node.location

end

theorem mem_walked_of_variable {root node : Tree} (shaped : root.IsShaped)
    (named : ∀ node ∈ root.walked, node.NamesStruct) (inside : node ∈ root.preorder)
    (isVariable : node.kind = .variable) : node ∈ root.walked := by
  rcases Tree.mem_preorder_cases shaped named node inside with
    walked | ⟨parent, member, aside⟩ | block | part
  · exact walked
  · have shapedParent := shaped.walked parent member
    unfold Tree.asides at aside
    split at aside
    · have identifier := shapedParent.fault
      rw [List.mem_singleton.mp aside] at isVariable
      simp [Tree.shapeFault?, Tree.require, isVariable] at identifier
    · rcases shapedParent.function with ⟨_, _, _, _, _, _, _, same, _, _, list⟩
      cases same
      rw [List.mem_singleton.mp aside, list] at isVariable
      contradiction
    · rcases shapedParent.prototype with ⟨_, _, _, same, _, _, list⟩
      cases same
      rw [List.mem_singleton.mp aside, list] at isVariable
      contradiction
    · contradiction
  · rw [block] at isVariable
    contradiction
  · rw [isVariable] at part
    contradiction

end Oil

namespace Lexical

theorem meaning_of_symbol {root : Tree} {analysis : Analysis}
    (resolved : Oil.Resolved analysis.symbols (events {} root)) {context place : Context}
    {role : Role} {name use : Tree} (used : .use place use ∈ events {} root)
    (declared : .declaration context role name ∈ events {} root)
    (same : use.note.symbol = name.note.symbol) :
    place.resolve? use.text = some (context.declaration role name) := by
  have traces := events_traces root {}
  have given : (after {} root).GivesOut :=
    isPlaceLaw_givesOut.after (by simp [Context.GivesOut]) root
  have here := resolved _ used
  have there := (resolved _ declared).1
  cases found : place.resolve? use.text with
  | none => simp [Event.unresolved?, found] at here
  | some meant =>
      simp only [Event.Holds, found] at here there
      rcases traces.exists_declaration used rfl (mem_of_resolve? found) with
        nothing | ⟨event, member, declares⟩
      · contradiction
      · have sameSymbol : meant.symbol = (context.declaration role name).symbol := by
          rw [here.1.1, there.1] at same
          exact Option.some.inj same
        rw [given.declaration_eq (traces.mem_of_declares member declares)
          (traces.mem_of_declares declared rfl) sameSymbol]

end Lexical

open Oil

/-- Strings that are stored in different places are bound once, and read as they are bound. -/
theorem analyze_bindsStrings {root : Tree} (shaped : root.IsShaped) (isRoot : root.kind = .root)
    (accepted : (analyze root).2.diagnostics.hasErrors = false) (apart : root.stores.Nodup) :
    BindsStrings (analyze root).2 (analyze root).1 := by
  have same := (analyze_follows False root False.elim).1
  have shapedHere : (analyze root).1.IsShaped := shaped.congr same
  rcases events_of_accepted accepted with ⟨resolved, placed⟩
  have covers := covers_of_walked placed shapedHere ⟨{}, .inl (List.Subset.refl _)⟩
  refine ⟨?_, ?_, ?_, ?_⟩
  · intro line member place read
    have isRootHere := (kind_analyze root).trans isRoot
    rcases generate_reads isRootHere shapedHere line member place read with
      ⟨node, known, value, rfl, isString, stores⟩
    have inside := Tree.walked_subset_preorder _ known
    rw [← Tree.stores_congr same] at apart
    exact ⟨node, inside, value, rfl, isString, stores,
      bindsOnce_of_stores apart inside isString stores⟩
  · intro earlier node later name value split declares
    change List.filterMap _ _ = _
    rw [split, List.filterMap_append, List.filterMap_cons, declares.stringBinding?_eq]
  · intro node name value declares
    exact ⟨declares.globalVariable?_eq, declares.lowerStatement_eq⟩
  · intro node inside name value declares
    have walked := mem_walked_of_variable shapedHere
      (fun node member => namesStruct_of_covers placed (covers node member)) inside
      declares.isVariable
    rcases declares.children with ⟨declarator, children, declared⟩
    rcases declaration_of_covers placed (covers node walked) declares.isVariable children
      declared with ⟨context, declaration⟩
    have refers := (resolved _ declaration).1.1
    refine ⟨context.stored, refers, fun use member identifier sameSymbol => ?_⟩
    rcases use_of_covers (covers use member) identifier with ⟨place, used⟩
    have meant := meaning_of_symbol resolved used declaration (sameSymbol.trans refers.symm)
    exact (variableName_of_meaning (fun event member => (resolved event member).1) used declaration
      meant).2

/-- A variable begins with a string, is declared again with another one, and is assigned a
third one in a block of a function that has a string of its own. -/
def storingStrings : String :=
  "[\"root\",[0,0,0],\"t\",[
    [\"vardecl\",[0,1,0],\"\",[
      [\"string\",[0,1,0],\"string\",[[\"declid\",[0,1,7],\"x\"]]],
      [\"stringcon\",[0,1,11],\"\\\"a\\\"\"]]],
    [\"vardecl\",[0,2,0],\"\",[
      [\"string\",[0,2,0],\"string\",[[\"declid\",[0,2,7],\"x\"]]],
      [\"stringcon\",[0,2,11],\"\\\"b\\\"\"]]],
    [\"function\",[0,3,0],\"\",[
      [\"string\",[0,3,0],\"string\",[[\"declid\",[0,3,7],\"f\"]]],[\"paramlist\",[0,3,8]],
      [\"block\",[0,3,11],\"\",[
        [\"vardecl\",[0,4,2],\"\",[
          [\"string\",[0,4,2],\"string\",[[\"declid\",[0,4,9],\"y\"]]],
          [\"stringcon\",[0,4,13],\"\\\"c\\\"\"]]],
        [\"block\",[0,5,2],\"\",[
          [\"assign\",[0,5,6],\"\",[
            [\"ident\",[0,5,4],\"x\"],[\"stringcon\",[0,5,8],\"\\\"d\\\"\"]]]]],
        [\"return\",[0,6,2],\"\",[[\"ident\",[0,6,9],\"y\"]]]]]]]]]"

set_option maxRecDepth 8192 in
theorem storingStrings_bound : ∃ root, Tree.load storingStrings = .ok root ∧ root.IsShaped ∧
    root.kind = .root ∧ (analyze root).2.diagnostics.hasErrors = false ∧ root.stores.Nodup ∧
    BindsStrings (analyze root).2 (analyze root).1 ∧
    root.program.strings.map StringBinding.render =
      ["char* _0_x = \"a\";\n", "char* str_0_2_0 = \"b\";\n", "char* _1_y = \"c\";\n",
        "char* str_0_5_6 = \"d\";\n"] := by
  have accepted : ((Tree.load storingStrings).toOption.any fun root => root.kind == .root &&
      (compile false root).oil.isSome && decide (root.stores.Nodup ∧
        root.program.strings.map StringBinding.render =
          ["char* _0_x = \"a\";\n", "char* str_0_2_0 = \"b\";\n", "char* _1_y = \"c\";\n",
            "char* str_0_5_6 = \"d\";\n"])) = true := by
    rw [show storingStrings = String.ofList _ from rfl, Tree.load_ofList]
    decide +kernel
  rcases exists_compiled accepted with ⟨root, text, loaded, isRoot, generated, facts⟩
  rcases of_decide_eq_true facts with ⟨apart, bindings⟩
  have fine := accepted_of_oil (Option.isSome_iff_exists.mpr ⟨text, generated⟩)
  have shaped := Tree.isShaped_of_load loaded
  exact ⟨root, loaded, shaped, isRoot, fine, apart, analyze_bindsStrings shaped isRoot fine apart,
    bindings⟩

end OcLang
