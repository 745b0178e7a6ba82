import OcLang.Proofs.Oil.Acceptance
import OcLang.Proofs.Oil.Outline

namespace OcLang

namespace Oil

/-! # One definition for a name

A function that is defined again is left out for the later one, so that the last one of
each name remains. The entry point is added to them without a look at their names. -/

structure Function.Defines (function : Function) (analysis : Analysis) (item : Tree) : Prop where
  heading : function.IsFrom analysis item
  body : ∃ declarator parameters body number, item.children = [declarator, parameters, body] ∧
    function.body = ((lowerStatements analysis body.children).run number).1

def definesName (name : String) (item : Tree) : Bool :=
  definedName? item == some name

def Program.definedNames (program : Program) : List String :=
  (program.functions.map (·.name) ++ [mainName]).map functionName

end Oil

def Tree.definitions (root : Tree) (name : String) : List Tree :=
  (root.children.filter (·.kind == .function)).filter (Oil.definesName name)

namespace Oil

/-- For every name that the file defines there is one function, made from the last item that
defines it, and there are no others. -/
structure Program.DefinesLast (program : Program) (analysis : Analysis) (root : Tree) : Prop where
  last : ∀ name item, (root.definitions name).getLast? = some item →
    ∃ function, program.functions.filter (·.name == name) = [function] ∧
      function.Defines analysis item
  named : ∀ function ∈ program.functions, root.definitions function.name ≠ []

section

variable {analysis : Analysis}

theorem Function.Defines.name {function : Function} {item : Tree}
    (defines : function.Defines analysis item) : definedName? item = some function.name := by
  rcases defines.heading with ⟨declarator, parameters, body, name, children, declared, _, same, _⟩
  simp [definedName?, children, declared, same]

/-- A function is made unless a later one replaces it. -/
theorem lowerFunction_defines {item : Tree} (shaped : item.IsShaped)
    (isFunction : item.kind = .function) (later : List Tree) (number : Nat) :
    Ends (lowerFunction analysis item later) number fun result _ =>
      if isRedefined item later then result = none
      else ∃ function, result = some function ∧ function.Defines analysis item := by
  rcases item with ⟨kind, location, text, note, children⟩
  simp only at isFunction
  subst isFunction
  rcases shaped.function with
    ⟨declarator, parameters, place, word, bodyNote, statements, name, rfl, _, declared, _⟩
  have defined : definedName? ⟨.function, location, text, note,
      [declarator, parameters, ⟨.block, place, word, bodyNote, statements⟩]⟩ = some name.text := by
    simp [definedName?, declared]
  simp only [lowerFunction, declared, isRedefined, defined]
  split
  · exact .pure rfl
  · apply Ends.bind
    apply Ends.run
    apply Ends.pure
    exact ⟨_, rfl, ⟨declarator, parameters, _, name, rfl, declared, rfl, rfl, rfl⟩,
      declarator, parameters, _, number, rfl, rfl⟩

theorem lowerFunctions_defines {items : List Tree}
    (each : ∀ item ∈ items, item.IsShaped ∧ item.kind = .function) (number : Nat) :
    Ends (lowerFunctions analysis items) number fun functions _ =>
      functions.Forall₂ (Function.Defines · analysis ·) (keptFunctions items) := by
  induction items generalizing number with
  | nil => exact .pure .nil
  | cons item later induction =>
      rw [List.forall_mem_cons] at each
      simp only [lowerFunctions, keptFunctions]
      apply Ends.bind
      apply (lowerFunction_defines each.1.1 each.1.2 later number).imp
      intro result middle made
      apply Ends.bind
      apply (induction each.2 middle).imp
      intro others _ defined
      apply Ends.pure
      cases redefined : isRedefined item later with
      | true =>
          rw [if_pos redefined] at made
          simpa [made] using defined
      | false =>
          rw [if_neg (by simp [redefined])] at made
          rcases made with ⟨function, rfl, here⟩
          exact .cons here defined

end

/-! ## The last one of each name -/

theorem isRedefined_iff {item : Tree} {name : String} (named : definesName name item = true)
    (later : List Tree) :
    isRedefined item later = true ↔ later.filter (definesName name) ≠ [] := by
  have same : definedName? item = some name := beq_iff_eq.mp named
  simp [isRedefined, definesName, same]

theorem keptFunctions_filter (items : List Tree) (name : String) :
    (keptFunctions items).filter (definesName name) =
      (items.filter (definesName name)).getLast?.toList := by
  induction items with
  | nil => rfl
  | cons item later induction =>
      rw [keptFunctions]
      by_cases named : definesName name item = true
      · -- The item stays if no later one has its name, and is then the last one of it.
        rw [List.filter_cons_of_pos named]
        split
        · rename_i redefined
          have others := (isRedefined_iff named later).mp redefined
          rw [induction, List.getLast?_cons_of_ne_nil others]
        · rename_i last
          have none := not_not.mp (mt (isRedefined_iff named later).mpr last)
          rw [List.filter_cons_of_pos named, induction, none]
          rfl
      · rw [List.filter_cons_of_neg named]
        split
        · exact induction
        · rw [List.filter_cons_of_neg named, induction]

section

variable {analysis : Analysis} {functions : List Function} {items : List Tree}
  (defined : functions.Forall₂ (Function.Defines · analysis ·) (keptFunctions items))

include defined

theorem named_of_defines (name : String) :
    (functions.filter (·.name == name)).Forall₂ (Function.Defines · analysis ·)
      (items.filter (definesName name)).getLast?.toList := by
  rw [← keptFunctions_filter]
  apply List.rel_filter _ defined
  intro function item defines
  simp [definesName, defines.name]

theorem names_nodup : (functions.map (·.name)).Nodup := by
  rw [List.nodup_iff_count_le_one]
  intro name
  have only := (named_of_defines defined name).length_eq
  rw [List.count, List.countP_map, List.countP_eq_length_filter, Function.comp_def, only]
  cases (items.filter (definesName name)).getLast? with
  | none => exact Nat.zero_le 1
  | some item => exact Nat.le_refl 1

theorem mem_names_iff (name : String) :
    name ∈ functions.map (·.name) ↔ items.filter (definesName name) ≠ [] := by
  have same := (named_of_defines defined name).length_eq
  calc name ∈ functions.map (·.name)
      ↔ functions.filter (·.name == name) ≠ [] := by simp
    _ ↔ (items.filter (definesName name)).getLast?.toList ≠ [] := by
        rw [ne_eq, ← List.length_eq_zero_iff, same, List.length_eq_zero_iff]
    _ ↔ items.filter (definesName name) ≠ [] := by simp

end

theorem generate_defines {analysis : Analysis} {root : Tree} (shaped : root.IsShaped) :
    (generate analysis root).functions.Forall₂ (Function.Defines · analysis ·)
      (keptFunctions (root.children.filter (·.kind == .function))) := by
  have each : ∀ item ∈ root.children.filter (·.kind == .function),
      item.IsShaped ∧ item.kind = .function := by
    intro item member
    have both := List.mem_filter.mp member
    exact ⟨shaped.child both.1, beq_iff_eq.mp both.2⟩
  exact lowerFunctions_defines each firstTemporary

theorem generate_definesLast {analysis : Analysis} {root : Tree} (shaped : root.IsShaped) :
    (generate analysis root).DefinesLast analysis root := by
  have defined := @generate_defines analysis root shaped
  constructor
  · intro name item last
    have only := named_of_defines defined name
    change List.Forall₂ _ _ (root.definitions name).getLast?.toList at only
    rw [last, Option.toList_some] at only
    rcases List.forall₂_cons_right_iff.mp only with ⟨function, rest, defines, none, same⟩
    rw [List.forall₂_nil_right_iff.mp none] at same
    exact ⟨function, same, defines⟩
  · intro function member
    exact (mem_names_iff defined function.name).mp (List.mem_map_of_mem member)

theorem definedNames_nodup_iff {analysis : Analysis} {root : Tree} (shaped : root.IsShaped) :
    (generate analysis root).definedNames.Nodup ↔ root.definitions mainName = [] := by
  have defined := @generate_defines analysis root shaped
  have entry := mem_names_iff defined mainName
  rw [Program.definedNames, List.nodup_map_iff functionName_injective,
    ← List.concat_eq_append, List.nodup_concat]
  constructor
  · intro apart
    exact not_not.mp (mt entry.mpr apart.1)
  · intro none
    exact ⟨fun member => entry.mp member none, names_nodup defined⟩

theorem definitions_bare (root : Tree) (name : String) :
    root.bare.definitions name = (root.definitions name).map Tree.bare := by
  rcases root with ⟨kind, location, text, note, children⟩
  simp [Tree.definitions, Tree.bare_mk, List.filter_map, Function.comp_def, definesName,
    definedName?_bare]

/-- Function items of one name leave one definition, whatever comes between them. The names of
all definitions are apart unless an item has the name of the entry point. -/
theorem compile_definesOnce_iff {root : Tree} {text : String} {warningsAsErrors : Bool}
    (shaped : root.IsShaped) (generated : (compile warningsAsErrors root).oil = some text) :
    text = root.program.render ∧
      root.program.DefinesLast (analyze root).2 (analyze root).1 ∧
      (root.program.definedNames.Nodup ↔ root.definitions mainName = []) := by
  have same := (analyze_follows False root False.elim).1
  have annotated := shaped.congr same
  have names : (analyze root).1.definitions mainName = [] ↔ root.definitions mainName = [] := by
    rw [← List.map_eq_nil_iff (f := Tree.bare), ← definitions_bare, same, definitions_bare,
      List.map_eq_nil_iff]
  exact ⟨oil_eq generated, generate_definesLast annotated,
    (definedNames_nodup_iff annotated).trans names⟩

set_option maxRecDepth 4096 in
theorem replacedFunction_definedOnce : ∃ root text, Tree.load replacedFunction = .ok root ∧
    root.IsShaped ∧ root.kind = .root ∧ (compile false root).oil = some text ∧
    ((analyze root).1.definitions "f").length = 2 ∧ root.definitions mainName = [] ∧
    text = root.program.render ∧ root.program.DefinesLast (analyze root).2 (analyze root).1 ∧
    root.program.definedNames.Nodup := by
  have accepted : ((Tree.load replacedFunction).toOption.any fun root => root.kind == .root &&
      (compile false root).oil.isSome &&
        (((analyze root).1.definitions "f").length == 2 &&
          (root.definitions mainName).isEmpty)) = true := by
    rw [show replacedFunction = String.ofList _ from rfl, Tree.load_ofList]
    decide +kernel
  rcases exists_compiled accepted with ⟨root, text, loaded, isRoot, generated, facts⟩
  rw [Bool.and_eq_true, beq_iff_eq, List.isEmpty_iff] at facts
  have shaped := Tree.isShaped_of_load loaded
  have defined := compile_definesOnce_iff shaped generated
  exact ⟨root, text, loaded, shaped, isRoot, generated, facts.1, facts.2, defined.1, defined.2.1,
    defined.2.2.mpr facts.2⟩

def secondEntry : String :=
  "[\"root\",[0,0,0],\"t\",[
    [\"function\",[0,1,0],\"\",[
      [\"void\",[0,1,0],\"void\",[[\"declid\",[0,1,5],\"ocmain\"]]],
      [\"paramlist\",[0,1,11]],
      [\"block\",[0,1,14]]]]]]"

set_option maxRecDepth 4096 in
/-- Its definition is spelled like that of the entry point. -/
theorem secondEntry_definedTwice : ∃ root text, Tree.load secondEntry = .ok root ∧
    root.kind = .root ∧ (compile false root).oil = some text ∧
    text = "void __ocmain (void)\n\x7b\n\x7d\nvoid __ocmain (void)\n\x7b\n\x7d\n" ∧
    root.program.definedNames = ["__ocmain", "__ocmain"] := by
  have accepted : ((Tree.load secondEntry).toOption.any fun root => root.kind == .root &&
      (compile false root).oil.isSome && (((compile false root).oil == some
        "void __ocmain (void)\n\x7b\n\x7d\nvoid __ocmain (void)\n\x7b\n\x7d\n") &&
          root.program.definedNames == ["__ocmain", "__ocmain"])) = true := by
    rw [show secondEntry = String.ofList _ from rfl, Tree.load_ofList]
    decide +kernel
  rcases exists_compiled accepted with ⟨root, text, loaded, isRoot, generated, facts⟩
  rw [Bool.and_eq_true, beq_iff_eq, beq_iff_eq, generated] at facts
  exact ⟨root, text, loaded, isRoot, generated, Option.some.inj facts.1, facts.2⟩

end Oil

end OcLang
