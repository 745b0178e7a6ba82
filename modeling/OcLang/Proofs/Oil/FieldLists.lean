import OcLang.Proofs.Analysis.StructItems
import OcLang.Proofs.Analysis.StructTable
import OcLang.Oil.Generate
import OcLang.Tree.Build

namespace OcLang

open Check

/-! # The fields of a struct, laid out and dumped

The layout of a struct is put together again from its declaration: for each symbol in the table of
its fields the declarator is searched that declares it. The dump of the symbols reads the table
alone. -/

namespace Tree

def declaredNames (declarators : List Tree) : List String :=
  (declarators.filterMap declaredName?).map (·.text)

def declaresName (name : String) (declarator : Tree) : Bool :=
  declarator.declaredName?.any (·.text == name)

def lastDeclarator? (declarators : List Tree) (name : String) : Option Tree :=
  declarators.reverse.find? (declaresName name)

theorem map_name_namings (declarators : List Tree) :
    (declarators.filterMap naming?).map (·.name) = declaredNames declarators := by
  rw [declaredNames, List.map_filterMap, List.map_filterMap]
  apply List.filterMap_congr
  intro declarator _
  cases declared : declarator.declaredName? <;> simp [naming?, declared]

theorem lookup_numbered {declarators : List Tree}
    (all : ∀ declarator ∈ declarators, declarator.declaredName?.isSome →
      declarator.numbered?.isSome) (name : String) :
    ((declarators.filterMap numbered?).map fun field => (field.1.name, field.2)).lookup name =
      ((declarators.find? (declaresName name)).bind numbered?).map (·.2) := by
  induction declarators with
  | nil => rfl
  | cons declarator rest induction =>
      rw [List.forall_mem_cons] at all
      cases found : declarator.numbered? with
      | none =>
          have unnamed : declarator.declaredName? = none := by
            simpa [found] using all.1
          rw [List.filterMap_cons_none found, induction all.2, List.find?_cons_of_neg]
          simp [declaresName, unnamed]
      | some field =>
          rcases of_numbered? found with ⟨-, declaredName, declared, -, naming⟩
          rw [List.filterMap_cons_some found, List.map_cons, List.lookup_cons, naming]
          by_cases same : declaredName.text = name
          · rw [List.find?_cons_of_pos (by simp [declaresName, declared, same])]
            simp [same, found]
          · rw [List.find?_cons_of_neg (by simp [declaresName, declared, same]),
              beq_false_of_ne (Ne.symm same), induction all.2]

end Tree

/-! ## Stored structs -/

namespace StructStored

variable {symbols : Array Symbol} {log : List LogEntry} {name : Tree} {declarators : List Tree}
  {first : Nat} (stored : StructStored symbols log name declarators first)

include stored

theorem ids_nodup : ((declarators.filterMap Tree.numbered?).map (·.2)).Nodup := by
  rw [stored.numbered, List.zipIdx_map_snd]
  exact List.nodup_range'

/-- No declarator with a name is without a symbol. -/
theorem isSome_numbered? {declarator : Tree} (member : declarator ∈ declarators)
    (named : declarator.declaredName?.isSome = true) : declarator.numbered?.isSome = true := by
  let namedOnes := declarators.filter (·.declaredName?.isSome)
  have kept : namedOnes.filterMap Tree.numbered? = declarators.filterMap Tree.numbered? := by
    rw [List.filterMap_filter]
    apply List.filterMap_congr
    intro other _
    cases declared : other.declaredName? <;> simp [Tree.numbered?, Tree.naming?, declared]
  have all : (namedOnes.filterMap Tree.numbered?).length = namedOnes.length := by
    rw [kept, stored.numbered, List.length_zipIdx, ← Tree.countP_declaredName?,
      List.countP_eq_length_filter]
  exact List.filterMap_length_eq_length.mp all declarator (List.mem_filter.mpr ⟨member, named⟩)

theorem find?_fieldTable (field : String) :
    (Ledger.fieldTable first {} (declarators.filterMap Tree.naming?)).find? field =
      ((Tree.lastDeclarator? declarators field).bind Tree.numbered?).map (·.2) := by
  rw [Ledger.fieldTable_eq_insertAll, ← stored.numbered, Table.find?_insertAll_empty, Table.latest?,
    ← List.map_reverse, ← List.filterMap_reverse, Tree.lookup_numbered, Tree.lastDeclarator?]
  intro declarator member named
  exact stored.isSome_numbered? (List.mem_reverse.mp member) named

end StructStored

namespace Oil

/-- A symbol that no other declarator got leads back to its declarator. -/
theorem declaratorOf?_eq_some {declarators : List Tree}
    (distinct : ((declarators.filterMap Tree.numbered?).map (·.2)).Nodup) {declarator name : Tree}
    (member : declarator ∈ declarators) (declared : declarator.declaredName? = some name) {id : Nat}
    (symbol : name.note.symbol = some id) :
    declaratorOf? id declarators = some (declarator, name) := by
  have numbered {other otherName : Tree} (declared : other.declaredName? = some otherName)
      (symbol : otherName.note.symbol = some id) :
      other.numbered? = some (⟨otherName.text, otherName.location, other.statedType⟩, id) :=
    Tree.numbered?_eq_some (by simp [Tree.naming?, declared]) declared symbol
  induction declarators with
  | nil => contradiction
  | cons first rest induction =>
      rw [declaratorOf?, List.findSome?_cons]
      rcases List.mem_cons.mp member with rfl | later
      · simp [declared, symbol]
      · have there : id ∈ (rest.filterMap Tree.numbered?).map (·.2) :=
          List.mem_map.mpr ⟨_, List.mem_filterMap.mpr ⟨declarator, later, numbered declared symbol⟩,
            rfl⟩
        have others : ((rest.filterMap Tree.numbered?).map (·.2)).Nodup :=
          distinct.sublist (((List.sublist_cons_self first rest).filterMap _).map _)
        have found := induction others later
        cases here : first.declaredName? with
        | none => exact found
        | some firstName =>
            by_cases same : firstName.note.symbol = some id
            · rw [List.filterMap_cons_some (numbered here same), List.map_cons,
                List.nodup_cons] at distinct
              exact absurd there distinct.1
            · simpa [same, declaratorOf?] using found

end Oil

/-! ## Layouts and dumps -/

def Analysis.listedFields (analysis : Analysis) (id : Nat) : List (String × Nat) :=
  ((analysis.symbol id).fields?.getD {}).entries.reverse

def Tree.IsLastStruct (log : List LogEntry) (item : Tree) : Prop :=
  ∃ name declarators id, item.children = name :: declarators ∧ name.note.symbol = some id ∧
    Table.latest? (loggedStructs log) name.text = some id

namespace Oil

/-- A layout has the fields that the dump lists under the struct: each declared name once, in the
reverse order of the first declarations, with the type of its last declaration. -/
structure StructLayout.Lists (layout : StructLayout) (analysis : Analysis) (name : Tree)
    (declarators : List Tree) (id : Nat) : Prop where
  name : layout.name = name.text
  dumped : analysis.entryLines (.struct layout.name id) =
    analysis.symbolLine layout.name id :: (analysis.listedFields id).map fun field =>
      analysis.fieldLine layout.name field.1 field.2
  names : layout.fields.map (·.2) = (analysis.listedFields id).map (·.1)
  declared : layout.fields.map some =
    (Tree.declaredNames declarators).reverse.dedup.map fun field =>
      (Tree.lastDeclarator? declarators field).map fun declarator =>
        (.ofDeclarator declarator, field)

section

variable {analysis : Analysis} {name : Tree} {declarators : List Tree} {first : Nat}
  (stored : StructStored analysis.symbols analysis.log name declarators first) {id : Nat}
  (symbol : name.note.symbol = some id)

include stored symbol

theorem fields?_eq : (analysis.symbol id).fields? =
    some (Ledger.fieldTable first {} (declarators.filterMap Tree.naming?)) := by
  cases stored.symbol.symm.trans symbol
  rw [Analysis.symbol, stored.struct]
  rfl

theorem names_listedFields : (analysis.listedFields id).map (·.1) =
    (Tree.declaredNames declarators).reverse.dedup := by
  rw [Analysis.listedFields, fields?_eq stored symbol, ← Tree.map_name_namings,
    ← Ledger.names_fieldTable first, Table.names, List.map_reverse]
  rfl

/-- A listed field is searched by its symbol, and its last declarator is found. -/
theorem exists_lastDeclarator {field : String × Nat} (listed : field ∈ analysis.listedFields id) :
    ∃ declarator name, Tree.lastDeclarator? declarators field.1 = some declarator ∧
      declaratorOf? field.2 declarators = some (declarator, name) ∧ name.text = field.1 := by
  have distinct := names_listedFields stored symbol
  rw [Analysis.listedFields, fields?_eq stored symbol] at listed distinct
  have names : (Ledger.fieldTable first {} (declarators.filterMap Tree.naming?)).names.Nodup := by
    rw [← List.nodup_reverse, Table.names, ← List.map_reverse]
    exact distinct ▸ List.nodup_dedup _
  have found := (Table.mem_entries_iff names field.1 field.2).mp (List.mem_reverse.mp listed)
  rw [stored.find?_fieldTable, Option.map_eq_some_iff] at found
  rcases found with ⟨⟨naming, fieldId⟩, found, rfl⟩
  rcases Option.bind_eq_some_iff.mp found with ⟨declarator, last, numbered⟩
  rcases Tree.of_numbered? numbered with ⟨-, declaredName, declared, noted, -⟩
  have member : declarator ∈ declarators := List.mem_reverse.mp (List.mem_of_find?_eq_some last)
  have named := List.find?_some last
  exact ⟨declarator, declaredName, last,
    declaratorOf?_eq_some stored.ids_nodup member declared noted,
    by simpa [Tree.declaresName, declared] using named⟩

theorem lists_of_layout {layout : StructLayout} (named : layout.name = name.text)
    (fields : layout.fields = (analysis.listedFields id).filterMap fun field =>
      (declaratorOf? field.2 declarators).map fun (declarator, fieldName) =>
        (.ofDeclarator declarator, fieldName.text)) :
    layout.Lists analysis name declarators id where
  name := named
  dumped := rfl
  names := by
    rw [fields, List.map_filterMap, ← List.filterMap_eq_map]
    apply List.filterMap_congr
    intro field listed
    rcases exists_lastDeclarator stored symbol listed with ⟨declarator, _, -, found, text⟩
    simp [found, text]
  declared := by
    rw [← names_listedFields stored symbol, fields, List.map_filterMap, List.map_map,
      ← List.filterMap_eq_map]
    apply List.filterMap_congr
    intro field listed
    rcases exists_lastDeclarator stored symbol listed with ⟨declarator, _, last, found, text⟩
    simp [found, text, last]

end

theorem structLayout?_eq_some_iff {analysis : Analysis} {item : Tree} {layout : StructLayout} :
    structLayout? analysis item = some layout ↔
      item.kind = .struct ∧ ∃ name declarators id, item.children = name :: declarators ∧
        name.note.symbol = some id ∧ analysis.structs.find? name.text = some id ∧
        (analysis.symbol id).fields?.isSome = true ∧
          { name := name.text
            fields := (analysis.listedFields id).filterMap fun field =>
              (declaratorOf? field.2 declarators).map fun (declarator, fieldName) =>
                (.ofDeclarator declarator, fieldName.text) } = layout := by
  rcases item with ⟨kind, location, text, note, children⟩
  by_cases isStruct : kind = .struct
  · subst isStruct
    rcases children with _ | ⟨name, declarators⟩
    · simp [structLayout?]
    · cases symbol : name.note.symbol with
      | none => simp [structLayout?, symbol]
      | some id =>
          by_cases last : analysis.structs.find? name.text = some id
          · cases fields : (analysis.symbol id).fields? <;>
              simp [structLayout?, Analysis.listedFields, symbol, last, fields]
          · simp [structLayout?, symbol, last]
  · have noLayout : structLayout? analysis ⟨kind, location, text, note, children⟩ = none := by
      unfold structLayout?
      split <;> simp_all
    simp [noLayout, isStruct]

end Oil

/-- What is recorded as a struct has the symbol of a struct. -/
theorem isSome_fields?_of_latest? {tree : Tree} {name : String} {id : Nat}
    (last : Table.latest? (loggedStructs (analyze tree).2.log) name = some id) :
    ((analyze tree).2.symbol id).fields?.isSome = true := by
  rcases List.mem_filterMap.mp (Table.mem_of_latest? last) with ⟨entry, logged, struct⟩
  rcases analyze_books tree with ⟨symbols, -, log⟩
  have fits : entry.Fits (analyze tree).2.symbols := by
    rw [symbols]
    exact (Ledger.IsKept.start.run tree.changes).arranged.fit entry (log ▸ logged)
  cases entry with
  | struct other otherId =>
      cases struct
      rcases fits with ⟨symbol, stored, isStruct⟩
      rw [Analysis.symbol, stored]
      exact isStruct
  | symbol | separator => contradiction

section

variable {tree item : Tree} (fresh : tree.IsFresh) (member : item ∈ (analyze tree).1.children)

include fresh member

/-- A struct right below the root has been stored if its name has the symbol of a struct. -/
theorem exists_structStored (isStruct : item.kind = .struct) {name : Tree}
    {declarators : List Tree} (children : item.children = name :: declarators) {id : Nat}
    (symbol : name.note.symbol = some id)
    (fields : ((analyze tree).2.symbol id).fields?.isSome = true) :
    ∃ first, StructStored (analyze tree).2.symbols (analyze tree).2.log name declarators first := by
  have parts : Statement.PartsMark (analyze tree).2.symbols (analyze tree).2.log (analyze tree).1 :=
    @Statement.check_parts none {} _ (Numbering.isPlain_number fresh) Ledger.IsKept.start
  rcases parts item member isStruct with none | ⟨_, _, first, same, stored⟩
  · rcases none name (by simp [children]) id symbol with ⟨plain, here, noFields⟩
    simp [Analysis.symbol, here, noFields] at fields
  · rw [children] at same
    cases same
    exact ⟨first, stored⟩

omit fresh member in
theorem isSome_structLayout?_iff (isStruct : item.kind = .struct) :
    (Oil.structLayout? (analyze tree).2 item).isSome ↔
      item.IsLastStruct (analyze tree).2.log := by
  rw [Option.isSome_iff_exists]
  constructor
  · rintro ⟨layout, made⟩
    rcases Oil.structLayout?_eq_some_iff.mp made with
      ⟨-, name, declarators, id, children, symbol, last, -⟩
    exact ⟨name, declarators, id, children, symbol, find?_structs_analyze tree name.text ▸ last⟩
  · rintro ⟨name, declarators, id, children, symbol, last⟩
    exact ⟨_, Oil.structLayout?_eq_some_iff.mpr ⟨isStruct, name, declarators, id, children, symbol,
      (find?_structs_analyze tree name.text).trans last, isSome_fields?_of_latest? last, rfl⟩⟩

theorem lists_of_structLayout? {layout : Oil.StructLayout}
    (made : Oil.structLayout? (analyze tree).2 item = some layout) :
    item.kind = .struct ∧ ∃ name declarators id, item.children = name :: declarators ∧
      name.note.symbol = some id ∧ .struct name.text id ∈ (analyze tree).2.log ∧
      layout.Lists (analyze tree).2 name declarators id := by
  rcases Oil.structLayout?_eq_some_iff.mp made with
    ⟨isStruct, name, declarators, id, children, symbol, -, fields, rfl⟩
  rcases exists_structStored fresh member isStruct children symbol fields with ⟨first, stored⟩
  refine ⟨isStruct, name, declarators, id, children, symbol, ?_, ?_⟩
  · have logged := stored.logged
    rwa [← Option.some.inj (symbol.symm.trans stored.symbol)] at logged
  · exact Oil.lists_of_layout stored symbol rfl rfl

end

/-- For whatever kind of tree, a struct right below the root is laid out just when its symbol is
the one that was recorded last for its name, and its layout agrees with the dump of its fields. -/
theorem analyze_listsFields {tree : Tree} (fresh : tree.IsFresh) :
    (Oil.generate (analyze tree).2 (analyze tree).1).structs =
        (analyze tree).1.children.filterMap (Oil.structLayout? (analyze tree).2) ∧
      ∀ item ∈ (analyze tree).1.children,
        (item.kind = .struct → ((Oil.structLayout? (analyze tree).2 item).isSome ↔
          item.IsLastStruct (analyze tree).2.log)) ∧
        ∀ layout, Oil.structLayout? (analyze tree).2 item = some layout →
          item.kind = .struct ∧ ∃ name declarators id, item.children = name :: declarators ∧
            name.note.symbol = some id ∧ .struct name.text id ∈ (analyze tree).2.log ∧
            layout.Lists (analyze tree).2 name declarators id :=
  ⟨rfl, fun _ member => ⟨isSome_structLayout?_iff,
    fun _ => lists_of_structLayout? fresh member⟩⟩

/-- A struct with a field that is declared again, and a struct that is declared again itself:
`struct cell { int a; char b; int[] a; } struct pair { int a; } struct pair { cell[] b; }`. -/
def redeclaredFields : Tree :=
  let b : TreeBuilder := {}
  b.root "t" [
    b.struct ⟨1, 1⟩ ⟨1, 8⟩ "cell" [
      b.declarator .field false "int" ⟨1, 14⟩ ⟨1, 18⟩ "a",
      b.declarator .field false "char" ⟨1, 22⟩ ⟨1, 27⟩ "b",
      b.declarator .field true "int" ⟨1, 31⟩ ⟨1, 36⟩ "a"],
    b.struct ⟨2, 1⟩ ⟨2, 8⟩ "pair" [b.declarator .field false "int" ⟨2, 14⟩ ⟨2, 18⟩ "a"],
    b.struct ⟨3, 1⟩ ⟨3, 8⟩ "pair" [b.declarator .field true "cell" ⟨3, 14⟩ ⟨3, 19⟩ "b"]]

theorem redeclaredFields_listed : redeclaredFields.IsFresh ∧
    (Oil.generate (analyze redeclaredFields).2 (analyze redeclaredFields).1).structs.map
        (fun layout => (layout.name, layout.fields)) =
      [("cell", [(.char, "b"), (.pointer .int, "a")]),
        ("pair", [(.pointer (.pointer (.struct "cell")), "b")])] ∧
    ∀ item ∈ (analyze redeclaredFields).1.children,
      ∀ layout, Oil.structLayout? (analyze redeclaredFields).2 item = some layout →
        ∃ name declarators id, item.children = name :: declarators ∧
          layout.Lists (analyze redeclaredFields).2 name declarators id := by
  have fresh : redeclaredFields.IsFresh := rfl
  refine ⟨fresh, by decide +kernel, fun item member layout made => ?_⟩
  rcases ((analyze_listsFields fresh).2 item member).2 layout made with
    ⟨-, name, declarators, id, children, -, -, lists⟩
  exact ⟨name, declarators, id, children, lists⟩

end OcLang
