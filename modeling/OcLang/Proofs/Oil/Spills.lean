import OcLang.Proofs.Typing.StructMentions
import OcLang.Oil.Lower
import OcLang.Tree.Build

namespace OcLang

/-! # Fields that are read into temporaries

A field that is selected is a place in memory. Its value is copied to a temporary, whose type is
made from what has been noted on the selection. Notes tell integers, characters and truth values
apart no more, so that the type of the field itself is lost where it has such elements. -/

namespace Tree

def IsCharacter (type : Tree) : Prop :=
  type.kind = .type .char ∨ type.kind = .type .bool

instance (type : Tree) : Decidable type.IsCharacter :=
  inferInstanceAs (Decidable (_ ∨ _))

def IsCharacterArray (declarator : Tree) : Prop :=
  declarator.IsCharacter ∧ declarator.hasArrayMark = true

instance (declarator : Tree) : Decidable declarator.IsCharacterArray :=
  inferInstanceAs (Decidable (_ ∧ _))

end Tree

namespace Oil

def OilType.Keeps (declarator : Tree) (type : OilType) : Prop :=
  type = .ofDeclarator declarator ∨
    (declarator.IsCharacter ∧ declarator.hasArrayMark = false ∧ type = .int)

instance (declarator : Tree) (type : OilType) : Decidable (type.Keeps declarator) :=
  inferInstanceAs (Decidable (_ ∨ _))

/-- A value of a stated type is held as an integer if it is a character. -/
theorem ofValue_statedType (declarator : Tree) : OilType.ofValue declarator.statedType =
    if declarator.IsCharacter then
      if declarator.hasArrayMark then .pointer .int else .int
    else .ofDeclarator declarator := by
  rcases declarator with ⟨kind, location, text, note, children⟩
  unfold Tree.statedType OilType.ofDeclarator
  cases kind with
  | type name => cases name <;> split <;> rfl
  | _ => split <;> rfl

theorem keeps_statedType_iff (declarator : Tree) :
    (OilType.ofValue declarator.statedType).Keeps declarator ↔ ¬declarator.IsCharacterArray := by
  rw [ofValue_statedType]
  by_cases character : declarator.IsCharacter
  · have keyword : OilType.ofKeyword declarator = .char := by
      unfold OilType.ofKeyword
      rcases character with char | bool
      · rw [char]
      · rw [bool]
    cases mark : declarator.hasArrayMark <;>
      simp [OilType.Keeps, Tree.IsCharacterArray, OilType.ofDeclarator, character, mark, keyword]
  · simp [OilType.Keeps, Tree.IsCharacterArray, character]

structure Spills (analysis : Analysis) (node object field : Tree) (type : OilType) : Prop where
  read : ∀ lowered number, ∃ kind, (readValue node lowered).run number =
    ({ lines := lowered.lines ++ [.compute type ⟨kind, number⟩ (.copy lowered.operand)]
       operand := .temporary ⟨kind, number⟩ }, number + 1)
  value : ∀ number, ∃ base next kind, (lower analysis object).run number = (base, next) ∧
    (lowerValue analysis node).run number =
      ({ lines := base.lines ++ [.compute type ⟨kind, next⟩
            (.copy (.field base.operand (object.note.structName.getD "") field.text))]
         operand := .temporary ⟨kind, next⟩ }, next + 1)

theorem Spills.type_eq {analysis : Analysis} {node object field : Tree} {type other : OilType}
    (spills : Spills analysis node object field type)
    (again : Spills analysis node object field other) : type = other := by
  rcases spills.read (noValue node.kind) 0 with ⟨kind, here⟩
  rcases again.read (noValue node.kind) 0 with ⟨otherKind, there⟩
  have lines := congrArg (fun result : Lowered × Nat => result.1.lines) (here.symm.trans there)
  have same := (Line.compute.injEq ..).mp (List.singleton_inj.mp (List.append_cancel_left lines))
  exact same.1

theorem spills_select (analysis : Analysis) {node object field : Tree}
    (isSelect : node.kind = .select) (children : node.children = [object, field]) :
    Spills analysis node object field (.ofValue node.note.type) := by
  rcases node with ⟨kind, location, text, note, parts⟩
  cases isSelect
  cases children
  have read (lowered : Lowered) (number : Nat) :
      (readValue ⟨.select, location, text, note, [object, field]⟩ lowered).run number =
        ({ lines := lowered.lines ++ [.compute (.ofValue note.type)
              ⟨.ofFlags note.attributes.type, number⟩ (.copy lowered.operand)]
           operand := .temporary ⟨.ofFlags note.attributes.type, number⟩ }, number + 1) := rfl
  constructor
  · exact fun lowered number => ⟨_, read lowered number⟩
  · intro number
    rcases lowered : (lower analysis object).run number with ⟨base, next⟩
    refine ⟨base, next, .ofFlags note.attributes.type, rfl, ?_⟩
    rw [lowerValue, StateT.run_bind]
    simp only [lower, StateT.run_bind, lowered]
    exact read _ next

end Oil

theorem Tree.declarators_of_struct {node : Tree} {record : Record}
    (declares : node.declared? = some (.struct record)) :
    record.declarators = node.children.tail := by
  have isStruct := kind_of_struct declares
  rcases parts : node.children with _ | ⟨name, declarators⟩
  · simp [declared?, isStruct, parts] at declares
  · simp only [declared?, isStruct, parts] at declares
    split at declares
    · rcases Option.map_eq_some_iff.mp declares with ⟨_, -, ⟨⟩⟩
      rfl
    · contradiction

structure Tree.SelectsFrom (known : List Declared) (object field declarator : Tree) : Prop where
  struct : ∃ record, .struct record ∈ known ∧ object.note.structName = some record.name ∧
    declarator ∈ record.declarators
  field : ∃ name id, declarator.declaredName? = some name ∧ name.text = field.text ∧
    name.note.symbol = some id ∧ field.note.symbol = some id

section

variable {tree node object field : Tree} (fresh : tree.IsFresh)
  (accepted : (analyze tree).2.diagnostics.hasErrors = false)
  (member : node ∈ (analyze tree).1.walked) (isSelect : node.kind = .select)
  (children : node.children = [object, field])

include fresh accepted member isSelect children

theorem exists_selectsFrom : ∃ declarator,
    Tree.SelectsFrom ((analyze tree).1.walked.filterMap Tree.declared?) object field declarator ∧
      node.note.type = declarator.statedType := by
  rcases analyze_learns fresh accepted with ⟨-, fits, -⟩
  rcases analyze_sources fresh accepted with ⟨-, sourced⟩
  have selects := fits node member
  simp only [Tree.Fits, isSelect, children] at selects
  rcases selects with ⟨record, known, owner, name, listed, same, id, noted, resolved⟩
  rcases List.mem_filterMap.mp listed with ⟨declarator, inside, declared⟩
  refine ⟨declarator, ⟨⟨record, known, owner, inside⟩, name, id, declared, same, noted, resolved⟩,
    ?_⟩
  rcases List.mem_filterMap.mp known with ⟨item, walked, declares⟩
  rcases exists_structStored_of_walked fresh accepted walked (Tree.kind_of_struct declares) with
    ⟨structName, declarators, first, parts, stored, -⟩
  have sameDeclarators : record.declarators = declarators := by
    rw [Tree.declarators_of_struct declares, parts, List.tail_cons]
  have names : declarator.naming? = some ⟨name.text, name.location, declarator.statedType⟩ := by
    simp [Tree.naming?, declared]
  have numbered := Tree.numbered?_eq_some names declared noted
  have symbol := stored.fields _
    (List.mem_filterMap.mpr ⟨declarator, sameDeclarators ▸ inside, numbered⟩)
  rcases (sourced.grounded node member).select object field id isSelect children resolved with
    ⟨selected, found, type⟩
  rw [symbol] at found
  cases found
  exact type

/-- A selected field is copied to a temporary of the type that it was declared with, or to an
integer if it is one character, unless it is an array of characters. -/
theorem analyze_spillsFields : ∃ declarator type,
    Tree.SelectsFrom ((analyze tree).1.walked.filterMap Tree.declared?) object field declarator ∧
      Oil.Spills (analyze tree).2 node object field type ∧
        (type.Keeps declarator ↔ ¬declarator.IsCharacterArray) := by
  rcases exists_selectsFrom fresh accepted member isSelect children with ⟨declarator, selects, type⟩
  refine ⟨declarator, _, selects, Oil.spills_select _ isSelect children, ?_⟩
  rw [type]
  exact Oil.keeps_statedType_iff declarator

end

/-- `struct part { bool used; string[] names; part next; } part first = new part;
string[] names = first.next.names; bool used = first.used;` -/
def partFields : Tree :=
  let b : TreeBuilder := {}
  b.root "t" [
    b.struct ⟨1, 1⟩ ⟨1, 8⟩ "part" [
      b.declarator .field false "bool" ⟨1, 15⟩ ⟨1, 20⟩ "used",
      b.declarator .field true "string" ⟨1, 26⟩ ⟨1, 35⟩ "names",
      b.declarator .field false "part" ⟨1, 42⟩ ⟨1, 47⟩ "next"],
    b.declaration ⟨2, 12⟩ (b.declarator .declaredName false "part" ⟨2, 1⟩ ⟨2, 6⟩ "first")
      (some (b.newStruct ⟨2, 14⟩ ⟨2, 18⟩ "part")),
    b.declaration ⟨3, 16⟩ (b.declarator .declaredName true "string" ⟨3, 1⟩ ⟨3, 10⟩ "names")
      (some (b.select ⟨3, 28⟩ (b.select ⟨3, 23⟩ (b.identifier ⟨3, 18⟩ "first") ⟨3, 24⟩ "next")
        ⟨3, 29⟩ "names")),
    b.declaration ⟨4, 11⟩ (b.declarator .declaredName false "bool" ⟨4, 1⟩ ⟨4, 6⟩ "used")
      (some (b.select ⟨4, 18⟩ (b.identifier ⟨4, 13⟩ "first") ⟨4, 19⟩ "used"))]

theorem partFields_spill : partFields.IsFresh ∧
    (analyze partFields).2.diagnostics.hasErrors = false ∧
    ∃ node ∈ (analyze partFields).1.walked, ∃ object field, node.kind = .select ∧
      node.children = [object, field] ∧ ∃ declarator type,
        Tree.SelectsFrom ((analyze partFields).1.walked.filterMap Tree.declared?) object field
          declarator ∧
        Oil.Spills (analyze partFields).2 node object field type ∧
          (type.Keeps declarator ↔ ¬declarator.IsCharacterArray) := by
  have fresh : partFields.IsFresh := rfl
  have accepted : (analyze partFields).2.diagnostics.hasErrors = false := by decide +kernel
  have selection : ∃ node ∈ (analyze partFields).1.walked,
      node.kind = .select ∧ node.children.length = 2 := by decide +kernel
  rcases selection with ⟨node, member, isSelect, two⟩
  rcases List.length_eq_two.mp two with ⟨object, field, children⟩
  exact ⟨fresh, accepted, node, member, object, field, isSelect, children,
    analyze_spillsFields fresh accepted member isSelect children⟩

/-- `struct s { char[] a; } s x = new s; char[] y = x.a;` -/
def charactersField : Tree :=
  let b : TreeBuilder := {}
  b.root "t" [
    b.struct ⟨1, 1⟩ ⟨1, 8⟩ "s" [b.declarator .field true "char" ⟨1, 12⟩ ⟨1, 19⟩ "a"],
    b.declaration ⟨2, 5⟩ (b.declarator .declaredName false "s" ⟨2, 1⟩ ⟨2, 3⟩ "x")
      (some (b.newStruct ⟨2, 7⟩ ⟨2, 11⟩ "s")),
    b.declaration ⟨3, 10⟩ (b.declarator .declaredName true "char" ⟨3, 1⟩ ⟨3, 8⟩ "y")
      (some (b.select ⟨3, 13⟩ (b.identifier ⟨3, 12⟩ "x") ⟨3, 14⟩ "a"))]

/-- The array of characters is copied to a pointer to integers. -/
theorem charactersField_widened : charactersField.IsFresh ∧
    (analyze charactersField).2.diagnostics.hasErrors = false ∧
    ¬∀ node ∈ (analyze charactersField).1.walked, ∀ object field, node.kind = .select →
      node.children = [object, field] → ∃ declarator type,
        Tree.SelectsFrom ((analyze charactersField).1.walked.filterMap Tree.declared?) object field
          declarator ∧
        Oil.Spills (analyze charactersField).2 node object field type ∧ type.Keeps declarator := by
  refine ⟨rfl, by decide +kernel, fun keeps => ?_⟩
  have selection : ∃ node ∈ (analyze charactersField).1.walked, node.kind = .select ∧
      node.children.length = 2 ∧ Oil.OilType.ofValue node.note.type = .pointer .int := by
    decide +kernel
  have fields : ∀ node ∈ (analyze charactersField).1.walked, node.kind = .struct →
      ∀ declarator ∈ node.children.tail,
        ¬(Oil.OilType.pointer .int).Keeps declarator := by
    decide +kernel
  rcases selection with ⟨node, member, isSelect, two, type⟩
  rcases List.length_eq_two.mp two with ⟨object, field, children⟩
  rcases keeps node member object field isSelect children with
    ⟨declarator, other, ⟨⟨record, known, -, inside⟩, -⟩, spills, kept⟩
  have same := spills.type_eq (Oil.spills_select _ isSelect children)
  rw [same, type] at kept
  rcases List.mem_filterMap.mp known with ⟨item, walked, declares⟩
  exact fields item walked (Tree.kind_of_struct declares) declarator
    (Tree.declarators_of_struct declares ▸ inside) kept

end OcLang
