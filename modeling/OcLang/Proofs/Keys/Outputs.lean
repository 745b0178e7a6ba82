import OcLang.Outputs
import OcLang.Proofs.Keys.Statements

namespace OcLang

/-! # Outputs from keys

What a compilation writes, it writes with texts. Keys are compared once more
where code is generated: a struct or function is left out when another of the
same name takes its place. -/

namespace Keyed

variable (names : Naming)

/-! ## Generation -/

/-- The struct is asked for by its key; its layout shows texts. -/
def structLayout? (analysis : Analysis) (item : Tree) : Option Oil.StructLayout :=
  match item.kind, item.children with
  | .struct, name :: declarators => do
      let id ← name.note.symbol
      if analysis.structs.find? name.text != some id then none
      else
        let table ← (analysis.symbol id).fields?
        return {
          name := names.text name.text
          fields := table.entries.reverse.filterMap fun (_, fieldId) =>
            (Oil.declaratorOf? fieldId declarators).map fun (declarator, field) =>
              (.ofDeclarator (declarator.respell names.text), names.text field.text) }
  | _, _ => none

def isRedefined (function : Tree) (later : List Tree) : Bool :=
  (Oil.definedName? function).any fun name => later.any (Oil.definedName? · == some name)

def lowerFunction (analysis : Analysis) (function : Tree) (later : List Tree) :
    Oil.Numbered (Option Oil.Function) :=
  if isRedefined function later then pure none
  else Oil.lowerFunction (analysis.respell names.text) (function.respell names.text) []

def lowerFunctions (analysis : Analysis) : List Tree → Oil.Numbered (List Oil.Function)
  | [] => pure []
  | function :: later => do
      let first ← lowerFunction names analysis function later
      let rest ← lowerFunctions analysis later
      return first.toList ++ rest

def generateNumbered (analysis : Analysis) (root : Tree) : Oil.Numbered Oil.Program := do
  let shown := analysis.respell names.text
  let items := root.children.map (Tree.respell names.text)
  let functions ← lowerFunctions names analysis (root.children.filter (·.kind == .function))
  let main ← Oil.lowerItems shown items
  return {
    structs := root.children.filterMap (structLayout? names analysis)
    strings := (root.respell names.text).preorder.filterMap (Oil.stringBinding? shown)
    globals := items.filterMap (Oil.globalVariable? shown)
    functions
    main }

def generate (analysis : Analysis) (root : Tree) : Oil.Program :=
  ((generateNumbered names analysis root).run Oil.firstTemporary).1

/-- Compile a tree of keys. The texts of names are put in where the outputs are
written. -/
def compile (warningsAsErrors : Bool) (root : Tree) : Outputs :=
  let (annotated, analysis) := analyze names root
  let diagnostics :=
    if warningsAsErrors then analysis.diagnostics.promoteWarnings else analysis.diagnostics
  { ast := (annotated.respell names.text).dump
    symbols := (analysis.respell names.text).dumpSymbols
    oil :=
      if diagnostics.hasErrors then none
      else some (generate names analysis annotated).render
    diagnostics
    fault := analysis.fault }

/-! ## The same outputs -/

section

variable (analysis : Analysis)

@[simp] theorem definedName?_respell (function : Tree) :
    Oil.definedName? (function.respell names.key) =
      (Oil.definedName? function).map names.key := by
  rw [Oil.definedName?, Oil.definedName?, Tree.children_respell]
  cases function.children with
  | nil => rfl
  | cons declarator rest => cases form : declarator.declaredName? <;> simp [form]

theorem isRedefined_respell (function : Tree) (later : List Tree) :
    isRedefined (function.respell names.key) (later.map (Tree.respell names.key)) =
      isRedefined function later := by
  have sameTest : ∀ (other : Option String) (name : String),
      (other.map names.key == some (names.key name)) = (other == some name) :=
    fun other name => map_beq_map names.key_injective other (some name)
  rw [isRedefined, isRedefined, definedName?_respell]
  cases Oil.definedName? function with
  | none => rfl
  | some name => simp [Function.comp_def, sameTest]

/-- What comes later matters to a function only where it is defined again. -/
theorem lowerFunction_eq (function : Tree) (later : List Tree) :
    Oil.lowerFunction analysis function later =
      if isRedefined function later then pure none
      else Oil.lowerFunction analysis function [] := by
  obtain ⟨kind, location, text, note, children⟩ := function
  rcases children with _ | ⟨declarator, _ | ⟨parameters, _ | ⟨body, _ | ⟨fourth, rest⟩⟩⟩⟩
  case cons.cons.cons.nil =>
    cases form : declarator.declaredName? with
    | none => simp [Oil.lowerFunction, form]
    | some name =>
        simp [Oil.lowerFunction, isRedefined, Oil.definedName?, form]
  all_goals simp [Oil.lowerFunction]

theorem lowerFunction_respell (function : Tree) (later : List Tree) :
    lowerFunction names (analysis.respell names.key) (function.respell names.key)
        (later.map (Tree.respell names.key)) =
      Oil.lowerFunction analysis function later := by
  rw [lowerFunction, isRedefined_respell, Analysis.respell_respell names.text_key,
    Tree.respell_respell names.text_key, ← lowerFunction_eq]

theorem lowerFunctions_respell (functions : List Tree) :
    lowerFunctions names (analysis.respell names.key) (functions.map (Tree.respell names.key)) =
      Oil.lowerFunctions analysis functions := by
  induction functions with
  | nil => rfl
  | cons function later induction =>
      rw [List.map_cons, lowerFunctions, Oil.lowerFunctions, lowerFunction_respell, induction]

theorem declaratorOf?_respell (id : Nat) (declarators : List Tree) :
    Oil.declaratorOf? id (declarators.map (Tree.respell names.key)) =
      (Oil.declaratorOf? id declarators).map
        (Prod.map (Tree.respell names.key) (Tree.respell names.key)) := by
  induction declarators with
  | nil => rfl
  | cons declarator rest induction =>
      simp only [Oil.declaratorOf?, List.map_cons, List.findSome?_cons,
        Tree.declaredName?_respell] at induction ⊢
      cases declarator.declaredName? with
      | none => simpa using induction
      | some name =>
          by_cases here : name.note.symbol = some id
          · simp [here]
          · simpa [here] using induction

theorem layoutFields_respell (table : Table) (declarators : List Tree) :
    (table.respell names.key).entries.reverse.filterMap (fun (_, id) =>
      (Oil.declaratorOf? id (declarators.map (Tree.respell names.key))).map
        fun (declarator, field) => (Oil.OilType.ofDeclarator (declarator.respell names.text),
          names.text field.text)) =
      table.entries.reverse.filterMap fun (_, id) =>
        (Oil.declaratorOf? id declarators).map fun (declarator, field) =>
          (Oil.OilType.ofDeclarator declarator, field.text) := by
  simp [Table.respell, List.filterMap_map, Function.comp_def, declaratorOf?_respell,
    Tree.respell_respell names.text_key, names.text_key]

theorem structLayout?_respell (item : Tree) :
    structLayout? names (analysis.respell names.key) (item.respell names.key) =
      Oil.structLayout? analysis item := by
  unfold structLayout? Oil.structLayout?
  rw [Tree.kind_respell, Tree.children_respell]
  cases item.kind with
  | struct =>
      cases item.children with
      | nil => rfl
      | cons name declarators =>
          have sameStruct : (analysis.respell names.key).structs.find?
              (name.respell names.key).text = analysis.structs.find? name.text := by
            rw [Tree.text_respell]
            exact Table.find?_respell names.key_injective _ _
          rw [List.map_cons]
          dsimp only
          rw [sameStruct, Tree.text_respell, names.text_key, Tree.note_respell,
            Note.symbol_respell]
          refine bind_congr fun id => congrArg (ite _ none) ?_
          rw [Analysis.symbol_respell, Symbol.fields?_respell]
          cases (analysis.symbol id).fields? with
          | none => rfl
          | some table =>
              exact congrArg (fun fields => some (Oil.StructLayout.mk name.text fields))
                (layoutFields_respell names table declarators)
  | _ => rfl

theorem generate_respell (root : Tree) :
    generate names (analysis.respell names.key) (root.respell names.key) =
      Oil.generate analysis root := by
  have sameItems : (root.respell names.key).children.map (Tree.respell names.text) =
      root.children := by
    rw [← Tree.children_respell, Tree.respell_respell names.text_key]
  have sameFunctions : (root.respell names.key).children.filter (·.kind == .function) =
      (root.children.filter (·.kind == .function)).map (Tree.respell names.key) := by
    simp [List.filter_map, Function.comp_def]
  have sameLayouts : (root.respell names.key).children.filterMap
      (structLayout? names (analysis.respell names.key)) =
        root.children.filterMap (Oil.structLayout? analysis) := by
    simp [List.filterMap_map, structLayout?_respell]
  rw [generate, Oil.generate, generateNumbered, Oil.generateNumbered, sameItems, sameFunctions,
    sameLayouts, lowerFunctions_respell, Analysis.respell_respell names.text_key,
    Tree.respell_respell names.text_key]

end

/-- Keys make no difference to what a compilation gives. -/
theorem compile_respell (warningsAsErrors : Bool) (tree : Tree) :
    compile names warningsAsErrors (tree.respell names.key) =
      OcLang.compile warningsAsErrors tree := by
  have sameDiagnostics : ∀ analysis : Analysis,
      (analysis.respell names.key).diagnostics = analysis.diagnostics := fun _ => rfl
  rw [compile, analyze_respell, OcLang.compile]
  simp only [Tree.respell_respell names.text_key, Analysis.respell_respell names.text_key,
    generate_respell, sameDiagnostics]
  rfl

end Keyed

end OcLang
