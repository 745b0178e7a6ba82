import Mathlib.Data.List.Nodup
import OcLang.Proofs.Oil.Origins
import OcLang.Proofs.Oil.Output
import OcLang.Proofs.Tree.Shape
import OcLang.Proofs.Typing.Statements

namespace OcLang

/-! # Structs in a tree

Of several structs with one name the last one counts. -/

def Declared.struct? : Declared → Option Record
  | .struct record => some record
  | .function _ => none

namespace Tree

def record? (node : Tree) : Option Record :=
  node.declared?.bind Declared.struct?

def records (tree : Tree) : List Record :=
  tree.walked.filterMap record?

def lastRecord? (tree : Tree) (name : String) : Option Record :=
  tree.records.reverse.find? (·.name == name)

def EndsWithField (root : Tree) (owner field : String) : Prop :=
  ∃ item ∈ root.children, ∃ record, item.record? = some record ∧
    root.lastRecord? owner = some record ∧ record.lists field

theorem record?_eq_none {node : Tree} (other : node.kind ≠ .struct) : node.record? = none := by
  rw [record?, Option.bind_eq_none_iff]
  intro declared found
  cases declared with
  | function signature => rfl
  | struct record => exact absurd (kind_of_struct found) other

theorem of_lastRecord? {tree : Tree} {name : String} {record : Record}
    (last : tree.lastRecord? name = some record) : record ∈ tree.records ∧ record.name = name := by
  have named := List.find?_some last
  exact ⟨List.mem_reverse.mp (List.mem_of_find?_eq_some last), by simpa using named⟩

end Tree

/-! ## What the analysis knows about structs -/

theorem findSome?_structNamed? (known : List Declared) (name : String) :
    known.findSome? (·.structNamed? name) =
      ((known.filterMap Declared.struct?).find? (·.name == name)).map (·.symbol) := by
  induction known with
  | nil => rfl
  | cons declared rest induction =>
      cases declared with
      | function signature => exact induction
      | struct record =>
          have here : Declared.structNamed? name (.struct record) =
            if record.name = name then some record.symbol else none := rfl
          have kept : Declared.struct? (.struct record) = some record := rfl
          rw [List.findSome?_cons, here, List.filterMap_cons_some kept, List.find?_cons]
          by_cases same : record.name = name
          · simp [same]
          · simp only [same, if_false, beq_eq_false_iff_ne.mpr same]
            exact induction

section

variable {analysis : Analysis} {tree : Tree} {state : AnalysisState}
  (knows : Knows (tree.walked.filterMap Tree.declared?) state)

include knows

theorem find?_structs (name : String) :
    state.structs.find? name = (tree.lastRecord? name).map (·.symbol) := by
  rw [knows.structs, findSome?_structNamed?, List.filterMap_reverse, List.filterMap_filterMap]
  rfl

theorem records_nodup : (tree.records.map (·.symbol)).Nodup := by
  have distinct := knows.distinct
  have same : Declared.structSymbol? = fun declared => declared.struct?.map (·.symbol) := by
    funext declared
    cases declared <;> rfl
  rw [same, ← List.map_filterMap, List.filterMap_filterMap] at distinct
  exact distinct

/-- A struct is the last of its name if its symbol is found under it. -/
theorem lastRecord?_eq_some_iff {record : Record} (member : record ∈ tree.records) :
    tree.lastRecord? record.name = some record ↔
      state.structs.find? record.name = some record.symbol := by
  rw [find?_structs knows, Option.map_eq_some_iff]
  constructor
  · intro last
    exact ⟨record, last, rfl⟩
  · intro found
    rcases found with ⟨other, last, same⟩
    have inside := (Tree.of_lastRecord? last).1
    rw [last, List.inj_on_of_nodup_map (records_nodup knows) inside member same]

theorem record_recorded {record : Record} (member : record ∈ tree.records) :
    record.RecordedIn state.symbols := by
  rcases List.mem_filterMap.mp member with ⟨node, inside, here⟩
  rcases Option.bind_eq_some_iff.mp here with ⟨declared, found, struct⟩
  cases declared with
  | function signature => contradiction
  | struct other =>
      cases struct
      exact knows.recorded _ (List.mem_filterMap.mpr ⟨node, inside, found⟩)

end

namespace Oil

def Operand.access? : Operand → Option (String × String)
  | .field _ owner name => some (owner, name)
  | _ => none

/-- What a program accesses, as often as it writes an access. -/
def Program.accesses (program : Program) : List (String × String) :=
  program.operands.filterMap Operand.access?

structure Program.LaysOut (program : Program) (owner field : String) : Prop where
  struct : (program.structs.map (·.name)).count owner = 1
  field : ∀ layout ∈ program.structs, layout.name = owner →
    (layout.fields.map (·.2)).count field = 1

instance (program : Program) (owner field : String) : Decidable (program.LaysOut owner field) :=
  decidable_of_iff (_ ∧ _) ⟨fun ⟨struct, field⟩ => ⟨struct, field⟩,
    fun laysOut => ⟨laysOut.struct, laysOut.field⟩⟩

/-! ## Layouts -/

section

variable (analysis : Analysis)

def layoutOf (record : Record) : Option StructLayout :=
  if analysis.structs.find? record.name = some record.symbol then
    (analysis.symbol record.symbol).fields?.map fun table => {
      name := record.name
      fields := table.entries.reverse.filterMap fun (_, fieldId) =>
        (declaratorOf? fieldId record.declarators).map fun (declarator, field) =>
          (.ofDeclarator declarator, field.text) }
  else none

end

section

variable {analysis : Analysis} {record : Record} {layout : StructLayout}

theorem structLayout?_eq {known : List Declared} {item : Tree} (fits : item.Fits known) :
    structLayout? analysis item = item.record?.bind (layoutOf analysis) := by
  rcases item with ⟨kind, location, text, note, children⟩
  by_cases isStruct : kind = .struct
  · subst isStruct
    rcases children with _ | ⟨name, declarators⟩
    · rfl
    · cases symbol : name.note.symbol with
      | none => simp [Tree.Fits, Tree.declared?, symbol] at fits
      | some id =>
          have named : name.kind = .type .named := by
            simpa [Tree.Fits, Tree.declared?, symbol] using fits
          have record : Tree.record? ⟨.struct, location, text, note, name :: declarators⟩ =
              some { name := name.text, symbol := id, declarators } := by
            simp [Tree.record?, Tree.declared?, Declared.struct?, named, symbol]
          rw [record, Option.bind_some, layoutOf]
          by_cases last : analysis.structs.find? name.text = some id
          · cases fields : (analysis.symbol id).fields? <;>
              simp [structLayout?, symbol, last, fields]
          · simp [structLayout?, symbol, last]
  · have noLayout : structLayout? analysis ⟨kind, location, text, note, children⟩ = none := by
      unfold structLayout?
      split <;> simp_all
    rw [noLayout, Tree.record?_eq_none isStruct]
    rfl

theorem layoutOf_name (made : layoutOf analysis record = some layout) :
    layout.name = record.name ∧ analysis.structs.find? record.name = some record.symbol := by
  unfold layoutOf at made
  split at made
  · rename_i last
    rcases Option.map_eq_some_iff.mp made with ⟨table, _, rfl⟩
    exact ⟨rfl, last⟩
  · contradiction

section

variable (recorded : record.RecordedIn analysis.symbols)

include recorded

theorem exists_layoutOf (last : analysis.structs.find? record.name = some record.symbol) :
    ∃ layout, layoutOf analysis record = some layout := by
  rcases recorded with ⟨symbol, table, stored, role, _⟩
  have fields : (analysis.symbol record.symbol).fields? = some table := by
    simp [Analysis.symbol, stored, Symbol.fields?, role]
  rw [layoutOf, if_pos last, fields]
  exact ⟨_, rfl⟩

omit recorded in
theorem declaratorOf?_text {table : Table} (tabulates : table.Tabulates record.fields)
    {name : String} {id : Nat} (found : table.find? name = some id) :
    (declaratorOf? id record.declarators).map (·.2.text) = some name := by
  rcases tabulates.held name id found with ⟨field, member, symbol⟩
  rcases List.mem_filterMap.mp member with ⟨declarator, inside, declared⟩
  have some : (declaratorOf? id record.declarators).isSome := by
    rw [declaratorOf?, List.findSome?_isSome_iff]
    exact ⟨declarator, inside, by simp [declared, symbol]⟩
  rcases Option.isSome_iff_exists.mp some with ⟨pair, chosen⟩
  rcases List.exists_of_findSome?_eq_some chosen with ⟨other, insideOther, here⟩
  rcases Option.bind_eq_some_iff.mp here with ⟨named, declaredOther, noted⟩
  split at noted
  · rename_i symbolOther
    cases noted
    have listed : named ∈ record.fields := List.mem_filterMap.mpr ⟨other, insideOther, declaredOther⟩
    rw [chosen, Option.map_some, tabulates.same name id found named listed symbolOther]
  · contradiction

theorem layoutOf_fields (made : layoutOf analysis record = some layout) :
    (layout.fields.map (·.2)).Nodup ∧
      ∀ name, name ∈ layout.fields.map (·.2) ↔ record.lists name := by
  rcases recorded with ⟨symbol, table, stored, role, tabulates, _⟩
  have fields : (analysis.symbol record.symbol).fields? = some table := by
    simp [Analysis.symbol, stored, Symbol.fields?, role]
  have names : layout.fields.map (·.2) = table.names.reverse := by
    rw [layoutOf, if_pos (layoutOf_name made).2, fields] at made
    cases made
    rw [List.map_filterMap, Table.names, ← List.map_reverse, ← List.filterMap_eq_map]
    apply List.filterMap_congr
    intro entry member
    have found := (Table.mem_entries_iff tabulates.distinct entry.1 entry.2).mp
      (List.mem_reverse.mp member)
    simpa using declaratorOf?_text tabulates found
  rw [names]
  constructor
  · exact List.nodup_reverse.mpr tabulates.distinct
  · intro name
    rw [List.mem_reverse]
    constructor
    · intro listed
      rcases List.mem_map.mp listed with ⟨entry, member, rfl⟩
      have found := (Table.mem_entries_iff tabulates.distinct entry.1 entry.2).mp member
      rcases tabulates.held entry.1 entry.2 found with ⟨field, inside, noted⟩
      exact ⟨field, inside, tabulates.same _ _ found field inside noted⟩
    · intro listed
      rcases listed with ⟨field, inside, rfl⟩
      exact tabulates.names field inside

end

end

/-! ## Programs -/

section

variable {root : Tree} (isRoot : root.kind = .root) {state : AnalysisState}
  (knows : Knows (root.walked.filterMap Tree.declared?) state)
  (fits : ∀ node ∈ root.walked, node.Fits (root.walked.filterMap Tree.declared?))

include isRoot

theorem mem_records {item : Tree} {record : Record} (member : item ∈ root.children)
    (declares : item.record? = some record) : record ∈ root.records :=
  List.mem_filterMap.mpr ⟨item, (Tree.children_sublist_walked isRoot).subset member, declares⟩

include fits

theorem structs_eq (analysis : Analysis) :
    (generate analysis root).structs =
      (root.children.filterMap Tree.record?).filterMap (layoutOf analysis) := by
  rw [List.filterMap_filterMap]
  apply List.filterMap_congr
  intro item member
  exact structLayout?_eq (fits item ((Tree.children_sublist_walked isRoot).subset member))

include knows

/-- No struct is laid out twice. -/
theorem structs_nodup : ((generate (.ofState state) root).structs.map (·.name)).Nodup := by
  have items : (root.children.filterMap Tree.record?).Sublist root.records :=
    (Tree.children_sublist_walked isRoot).filterMap Tree.record?
  have apart := (items.map (·.symbol)).nodup (records_nodup knows)
  rw [structs_eq isRoot fits, List.Nodup, List.pairwise_map, List.pairwise_filterMap]
  rw [List.Nodup, List.pairwise_map] at apart
  apply apart.imp
  intro first second different layout made other madeOther same
  rcases layoutOf_name made with ⟨name, found⟩
  rcases layoutOf_name madeOther with ⟨nameOther, foundOther⟩
  rw [← nameOther, ← same, name, found] at foundOther
  exact different (Option.some.inj foundOther)

/-- What is laid out is the last struct of its name, if it stands directly in the file. -/
theorem mem_structs_iff {layout : StructLayout} :
    layout ∈ (generate (.ofState state) root).structs ↔
      ∃ item ∈ root.children, ∃ record, item.record? = some record ∧
        root.lastRecord? layout.name = some record ∧
        layoutOf (.ofState state) record = some layout := by
  rw [structs_eq isRoot fits]
  constructor
  · intro member
    rcases List.mem_filterMap.mp member with ⟨record, inside, made⟩
    rcases List.mem_filterMap.mp inside with ⟨item, child, declares⟩
    rcases layoutOf_name made with ⟨name, found⟩
    refine ⟨item, child, record, declares, ?_, made⟩
    rw [name]
    exact (lastRecord?_eq_some_iff knows (mem_records isRoot child declares)).mpr found
  · intro exists_
    rcases exists_ with ⟨item, child, record, declares, _, made⟩
    exact List.mem_filterMap.mpr ⟨record, List.mem_filterMap.mpr ⟨item, child, declares⟩, made⟩

/-- A field is laid out once just when the last struct of the name has it and stands
directly in the file. -/
theorem laysOut_iff (owner field : String) :
    (generate (.ofState state) root).LaysOut owner field ↔ root.EndsWithField owner field := by
  have recorded {item : Tree} {record : Record} (child : item ∈ root.children)
      (declares : item.record? = some record) : record.RecordedIn state.symbols :=
    record_recorded knows (mem_records isRoot child declares)
  constructor
  · intro laysOut
    have listed : owner ∈ (generate (.ofState state) root).structs.map (·.name) := by
      rw [← List.count_pos_iff, laysOut.struct]
      exact Nat.one_pos
    rcases List.mem_map.mp listed with ⟨layout, member, name⟩
    rcases (mem_structs_iff isRoot knows fits).mp member with ⟨item, child, record, declares, last, made⟩
    have once := laysOut.field layout member name
    have here : field ∈ layout.fields.map (·.2) := by
      rw [← List.count_pos_iff, once]
      exact Nat.one_pos
    rw [name] at last
    exact ⟨item, child, record, declares, last,
      ((layoutOf_fields (recorded child declares) made).2 field).mp here⟩
  · intro ends
    rcases ends with ⟨item, child, record, declares, last, lists⟩
    have name := (Tree.of_lastRecord? last).2
    rw [← name] at last ⊢
    have found := (lastRecord?_eq_some_iff knows (mem_records isRoot child declares)).mp last
    have exists_ : ∃ layout, layoutOf (.ofState state) record = some layout :=
      exists_layoutOf (recorded child declares) found
    rcases exists_ with ⟨layout, made⟩
    have sameName := (layoutOf_name made).1
    have member : layout ∈ (generate (.ofState state) root).structs := by
      rw [← sameName] at last
      exact (mem_structs_iff isRoot knows fits).mpr ⟨item, child, record, declares, last, made⟩
    constructor
    · have listed := List.mem_map_of_mem (f := (·.name)) member
      rw [sameName] at listed
      rw [(structs_nodup isRoot knows fits).count, if_pos listed]
    · intro other memberOther nameOther
      rcases (mem_structs_iff isRoot knows fits).mp memberOther with ⟨_, _, another, _, lastOther, madeOther⟩
      rw [nameOther, last] at lastOther
      cases lastOther
      rw [made] at madeOther
      cases madeOther
      rcases layoutOf_fields (recorded child declares) made with ⟨apart, all⟩
      rw [apart.count, if_pos ((all field).mpr lists)]

end

theorem of_lowersTo_field {analysis : Analysis} {node : Tree} {base : Operand}
    {owner field : String} (isSelect : node.kind = .select)
    (lowers : LowersTo analysis node (.field base owner field)) :
    ∃ object name, node.children = [object, name] ∧ object.note.structName.getD "" = owner ∧
      name.text = field := by
  rcases lowers with ⟨number, lowers⟩
  rcases node with ⟨kind, location, text, note, children⟩
  simp only at isSelect
  subst isSelect
  have other (plain : lower analysis ⟨.select, location, text, note, children⟩ =
      pure (noValue .select)) : False := by
    rw [plain] at lowers
    contradiction
  rcases children with _ | ⟨object, _ | ⟨name, _ | ⟨more, rest⟩⟩⟩
  · exact (other rfl).elim
  · exact (other rfl).elim
  · simp only [lower, run_bind, run_pure, Operand.field.injEq] at lowers
    exact ⟨object, name, rfl, lowers.2.1, lowers.2.2⟩
  · exact (other rfl).elim

/-- The accesses of a program are selections, which were checked. -/
theorem exists_record {root : Tree} (isRoot : root.kind = .root) {analysis : Analysis}
    {known : List Declared} (fits : ∀ node ∈ root.walked, node.Fits known) {owner field : String}
    (member : (owner, field) ∈ (generate analysis root).accesses) :
    ∃ record, .struct record ∈ known ∧ record.name = owner ∧ record.lists field := by
  rcases List.mem_filterMap.mp member with ⟨operand, written, access⟩
  cases operand <;> simp [Operand.access?] at access
  rcases access with ⟨rfl, rfl⟩
  rcases generate_arises isRoot _ written _ rfl with ⟨node, inside, isSelect, lowers⟩
  rcases of_lowersTo_field isSelect lowers with ⟨object, name, children, rfl, rfl⟩
  have fit := fits node inside
  simp only [Tree.Fits, isSelect, children] at fit
  rcases fit with ⟨record, declared, owner, selects⟩
  exact ⟨record, declared, by simp [owner], Record.lists_of_selects selects⟩

end Oil

/-- Every access to a field was checked against a struct that has it, and hits the one
layout of the struct just when the last struct of the name has the field and stands
directly in the file. -/
theorem compile_laysOut_iff {source text : String} {root : Tree} {warningsAsErrors : Bool}
    (loaded : Tree.load source = .ok root) (isRoot : root.kind = .root)
    (generated : (compile warningsAsErrors root).oil = some text) :
    text = root.program.render ∧ ∀ owner field, (owner, field) ∈ root.program.accesses →
      (∃ record ∈ (analyze root).1.records, record.name = owner ∧ record.lists field) ∧
      (root.program.LaysOut owner field ↔ (analyze root).1.EndsWithField owner field) := by
  have accepted := accepted_of_oil (Option.isSome_iff_exists.mpr ⟨text, generated⟩)
  rcases analyze_learns (Tree.isFresh_of_load loaded) accepted with ⟨knows, fits, _⟩
  have isRootAnnotated : (analyze root).1.kind = .root := by
    rw [((Tree.bare_eq_iff _ _).mp (analyze_follows False root False.elim).1).1, isRoot]
  refine ⟨oil_eq generated, ?_⟩
  intro owner field member
  constructor
  · rcases Oil.exists_record isRootAnnotated fits member with ⟨record, declared, name, lists⟩
    rcases List.mem_filterMap.mp declared with ⟨node, inside, here⟩
    have listed : record ∈ (analyze root).1.records :=
      List.mem_filterMap.mpr ⟨node, inside, by rw [Tree.record?, here]; rfl⟩
    exact ⟨record, listed, name, lists⟩
  · exact Oil.laysOut_iff isRootAnnotated knows fits owner field

def linked : String :=
  "[\"root\",[0,0,0],\"t\",[
    [\"struct\",[0,1,0],\"\",[[\"typeid\",[0,1,7],\"s\"],
      [\"int\",[0,1,10],\"int\",[[\"field\",[0,1,14],\"a\"]]],
      [\"typeid\",[0,1,16],\"s\",[[\"field\",[0,1,18],\"next\"]]]]],
    [\"struct\",[0,2,0],\"\",[[\"typeid\",[0,2,7],\"t\"],
      [\"typeid\",[0,2,10],\"s\",[[\"field\",[0,2,12],\"a\"]]]]],
    [\"function\",[0,3,0],\"\",[
      [\"int\",[0,3,0],\"int\",[[\"declid\",[0,3,4],\"f\"]]],
      [\"paramlist\",[0,3,6],\"\",[
        [\"typeid\",[0,3,6],\"t\",[[\"declid\",[0,3,8],\"p\"]]]]],
      [\"block\",[0,3,11],\"\",[
        [\"return\",[0,3,13],\"\",[
          [\"select\",[0,3,23],\"\",[
            [\"select\",[0,3,21],\"\",[[\"ident\",[0,3,20],\"p\"],[\"field\",[0,3,22],\"a\"]]],
            [\"field\",[0,3,24],\"a\"]]]]]]]]],
    [\"vardecl\",[0,4,0],\"\",[
      [\"typeid\",[0,4,0],\"s\",[[\"declid\",[0,4,2],\"x\"]]],
      [\"new\",[0,4,6],\"\",[[\"typeid\",[0,4,10],\"s\"]]]]],
    [\"assign\",[0,5,7],\"\",[
      [\"select\",[0,5,1],\"\",[[\"ident\",[0,5,0],\"x\"],[\"field\",[0,5,2],\"next\"]]],
      [\"null\",[0,5,9],\"null\"]]]]]"

set_option maxRecDepth 8192 in
theorem linked_laysOut : ∃ root text, Tree.load linked = .ok root ∧ root.kind = .root ∧
    (compile false root).oil = some text ∧
    root.program.accesses = [("s", "a"), ("t", "a"), ("s", "next")] ∧
    ∀ access ∈ root.program.accesses, root.program.LaysOut access.1 access.2 ∧
      (analyze root).1.EndsWithField access.1 access.2 := by
  have accepted : ((Tree.load linked).toOption.any fun root => root.kind == .root &&
      (compile false root).oil.isSome &&
      decide (root.program.accesses = [("s", "a"), ("t", "a"), ("s", "next")] ∧
        ∀ access ∈ root.program.accesses, root.program.LaysOut access.1 access.2)) = true := by
    rw [show linked = String.ofList _ from rfl, Tree.load_ofList]
    decide +kernel
  rcases exists_compiled accepted with ⟨root, text, loaded, isRoot, generated, decided⟩
  have holds := of_decide_eq_true decided
  refine ⟨root, text, loaded, isRoot, generated, holds.1, ?_⟩
  intro access member
  have laysOut := holds.2 access member
  exact ⟨laysOut,
    ((compile_laysOut_iff loaded isRoot generated).2 access.1 access.2 member).2.mp laysOut⟩

/-- A struct that is declared again, without the field that was accessed before. -/
def redeclaredStruct : String :=
  "[\"root\",[0,0,0],\"t\",[
    [\"struct\",[0,1,0],\"\",[[\"typeid\",[0,1,7],\"s\"],
      [\"int\",[0,1,10],\"int\",[[\"field\",[0,1,14],\"a\"]]]]],
    [\"vardecl\",[0,2,0],\"\",[
      [\"typeid\",[0,2,0],\"s\",[[\"declid\",[0,2,2],\"p\"]]],
      [\"new\",[0,2,6],\"\",[[\"typeid\",[0,2,10],\"s\"]]]]],
    [\"assign\",[0,3,4],\"\",[
      [\"select\",[0,3,1],\"\",[[\"ident\",[0,3,0],\"p\"],[\"field\",[0,3,2],\"a\"]]],
      [\"intcon\",[0,3,6],\"1\"]]],
    [\"struct\",[0,4,0],\"\",[[\"typeid\",[0,4,7],\"s\"],
      [\"int\",[0,4,10],\"int\",[[\"field\",[0,4,14],\"b\"]]]]]]]"

set_option maxRecDepth 4096 in
/-- The only layout does not list the field. -/
theorem redeclaredStruct_misses : ∃ root text, Tree.load redeclaredStruct = .ok root ∧
    root.kind = .root ∧ (compile false root).oil = some text ∧
    ("s", "a") ∈ root.program.accesses ∧ ¬root.program.LaysOut "s" "a" := by
  have accepted : ((Tree.load redeclaredStruct).toOption.any fun root => root.kind == .root &&
      (compile false root).oil.isSome &&
      decide (("s", "a") ∈ root.program.accesses ∧ ¬root.program.LaysOut "s" "a")) = true := by
    rw [show redeclaredStruct = String.ofList _ from rfl, Tree.load_ofList]
    decide +kernel
  rcases exists_compiled accepted with ⟨root, text, loaded, isRoot, generated, misses⟩
  exact ⟨root, text, loaded, isRoot, generated, of_decide_eq_true misses⟩

end OcLang
