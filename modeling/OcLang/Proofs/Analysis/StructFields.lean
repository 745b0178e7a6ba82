import Mathlib.Data.List.Dedup
import OcLang.Proofs.Analysis.Ledger
import OcLang.Proofs.Scoping.Discipline

namespace OcLang

open Check

/-! # The symbols of a struct and its fields

The fields of a struct get their symbols one after the other, then the struct gets its own.
Each symbol is noted on the name that it was stored for, also where a field is declared again
and its earlier symbol is in no table any more. -/

namespace Tree

def numbered? (declarator : Tree) : Option (TypedName × Nat) :=
  declarator.naming?.bind fun naming =>
    (declarator.declaredName?.bind (·.note.symbol)).map (naming, ·)

theorem naming?_congr {first second : Tree} (same : first.bare = second.bare) :
    first.naming? = second.naming? := by
  rw [← naming?_bare first, same, naming?_bare]

theorem filterMap_naming?_congr {first second : List Tree}
    (same : first.map bare = second.map bare) :
    first.filterMap naming? = second.filterMap naming? := by
  have views (declarators : List Tree) :
      (declarators.map bare).filterMap naming? = declarators.filterMap naming? := by
    rw [List.filterMap_map, naming?_comp_bare]
  rw [← views first, same, views]

theorem numbered?_eq_some {declarator name : Tree} {naming : TypedName} {id : Nat}
    (names : declarator.naming? = some naming) (declared : declarator.declaredName? = some name)
    (symbol : name.note.symbol = some id) : declarator.numbered? = some (naming, id) := by
  simp [numbered?, names, declared, symbol]

theorem of_numbered? {declarator : Tree} {naming : TypedName} {id : Nat}
    (numbered : declarator.numbered? = some (naming, id)) :
    declarator.naming? = some naming ∧ ∃ name, declarator.declaredName? = some name ∧
      name.note.symbol = some id ∧ naming = ⟨name.text, name.location, declarator.statedType⟩ := by
  rcases Option.bind_eq_some_iff.mp numbered with ⟨other, names, noted⟩
  rcases Option.map_eq_some_iff.mp noted with ⟨number, symbol, same⟩
  cases same
  rcases Option.bind_eq_some_iff.mp symbol with ⟨name, declared, here⟩
  refine ⟨names, name, declared, here, ?_⟩
  simpa [naming?, declared, eq_comm] using names

end Tree

/-! ## Tables of fields -/

namespace Ledger

theorem fieldTable_eq_insertAll (stored : Nat) (table : Table) (fields : List TypedName) :
    fieldTable stored table fields =
      table.insertAll ((fields.zipIdx stored).map fun field => (field.1.name, field.2)) := by
  induction fields generalizing stored table with
  | nil => rfl
  | cons naming rest induction =>
      rw [List.zipIdx_cons, List.map_cons, Table.insertAll_cons, ← induction]
      rfl

theorem names_fieldTable (stored : Nat) (fields : List TypedName) :
    (fieldTable stored {} fields).names.reverse = (fields.map (·.name)).reverse.dedup := by
  induction fields using List.reverseRecOn with
  | nil => rfl
  | append_singleton earlier naming induction =>
      have last : fieldTable stored {} (earlier ++ [naming]) =
          (fieldTable stored {} earlier).insert naming.name (stored + earlier.length) := by
        simp [fieldTable_eq_insertAll, List.zipIdx_append]
      have known : naming.name ∈ (fieldTable stored {} earlier).names ↔
          naming.name ∈ (earlier.map (·.name)).reverse := by
        rw [← List.mem_reverse, induction, List.mem_dedup]
      rw [last, Table.names_insert, List.map_append, List.reverse_append, List.map_singleton,
        List.reverse_singleton, List.singleton_append]
      by_cases again : naming.name ∈ (earlier.map (·.name)).reverse
      · rw [if_pos (known.mpr again), List.dedup_cons_of_mem again, induction]
      · rw [if_neg (mt known.mp again), List.dedup_cons_of_notMem again, List.reverse_append,
          induction]
        rfl

theorem getElem?_storeFields (ledger : Ledger) {fields : List TypedName}
    {naming : TypedName} {id : Nat} (member : (naming, id) ∈ fields.zipIdx ledger.symbols.size) :
    (ledger.storeFields fields).symbols[id]? = some (fieldSymbol naming) := by
  rcases List.mem_zipIdx member with ⟨least, most, same⟩
  have bound : id - ledger.symbols.size < fields.length := by omega
  simp [storeFields, Array.getElem?_append_right least, bound, same]

theorem size_storeFields (ledger : Ledger) (fields : List TypedName) :
    (ledger.storeFields fields).symbols.size = ledger.symbols.size + fields.length := by
  simp [storeFields]

end Ledger

/-! ## Structs that have been stored -/

structure StructStored (symbols : Array Symbol) (log : List LogEntry) (name : Tree)
    (declarators : List Tree) (first : Nat) : Prop where
  numbered : declarators.filterMap Tree.numbered? =
    (declarators.filterMap Tree.naming?).zipIdx first
  symbol : name.note.symbol = some (first + (declarators.filterMap Tree.naming?).length)
  struct : symbols[first + (declarators.filterMap Tree.naming?).length]? =
    some (.ofStruct name.text name.location
      (Ledger.fieldTable first {} (declarators.filterMap Tree.naming?)))
  fields : ∀ field ∈ declarators.filterMap Tree.numbered?,
    symbols[field.2]? = some (Ledger.fieldSymbol field.1)
  logged : .struct name.text (first + (declarators.filterMap Tree.naming?).length) ∈ log

theorem StructStored.later {symbols more : Array Symbol} {log longer : List LogEntry} {name : Tree}
    {declarators : List Tree} {first : Nat}
    (stored : StructStored symbols log name declarators first) (grows : Grows symbols more)
    (begins : log <+: longer) : StructStored more longer name declarators first where
  numbered := stored.numbered
  symbol := stored.symbol
  struct := grows _ _ stored.struct
  fields field member := grows _ _ (stored.fields field member)
  logged := begins.subset stored.logged

namespace Declaration

variable (state : AnalysisState)

theorem checkField_numbers (structName : String) (table : Table) (declarator : Tree) :
    Ends (checkField structName table declarator) state fun result _ =>
      result.2.numbered?.toList = declarator.naming?.toList.zipIdx state.symbols.size := by
  apply Ends.bind
  apply (declaredType_reports _ _ _).ends
  intro type problems _
  cases declared : declarator.declaredName? with
  | none =>
      apply Ends.bind
      apply Ends.modify
      apply Ends.pure
      simp [Tree.numbered?, Tree.naming?, declared]
  | some name =>
      have annotated : ((annotateName type { isField := true } state.symbols.size
          declarator).mapNote (·.addType type)).numbered?.toList =
            declarator.naming?.toList.zipIdx state.symbols.size := by
        have sameNaming : ((annotateName type { isField := true } state.symbols.size
            declarator).mapNote (·.addType type)).naming? = declarator.naming? :=
          Tree.naming?_congr (by simp)
        have named : declarator.naming? =
            some ⟨name.text, name.location, declarator.statedType⟩ := by
          simp [Tree.naming?, declared]
        rw [Tree.numbered?_eq_some (sameNaming.trans named) (by
          rw [Tree.declaredName?_mapNote, declaredName?_annotateName, declared]
          rfl) rfl, named]
        rfl
      apply Ends.bind
      apply Ends.modifyGet
      dsimp only
      split
      · exact .bind (.run (.bind (.run (.pure annotated))))
      · exact .bind (.pure (.pure annotated))

omit state in
private theorem filterMap_cons_toList {Item Part : Type} (view : Item → Option Part) (first : Item)
    (rest : List Item) :
    (first :: rest).filterMap view = (view first).toList ++ rest.filterMap view := by
  cases seen : view first <;> simp [seen]

theorem checkFields_numbers (structName : String) (table : Table) (declarators : List Tree) :
    Ends (checkFields structName table declarators) state fun result _ =>
      result.2.filterMap Tree.numbered? =
        (declarators.filterMap Tree.naming?).zipIdx state.symbols.size := by
  induction declarators generalizing table state with
  | nil => exact .pure rfl
  | cons declarator rest induction =>
      apply Ends.bind
      apply ((checkField_numbers state structName table declarator).and
        (checkField_books state rfl)).imp
      rintro ⟨table, annotated⟩ middle ⟨numbered, -, stored⟩
      have size : middle.symbols.size =
          state.symbols.size + declarator.naming?.toList.length := by
        have symbols := congrArg (·.symbols.size) stored
        simpa [Ledger.storeFields, AnalysisState.ledger] using symbols
      apply Ends.bind
      apply (induction middle table).imp
      rintro ⟨table, others⟩ after numberedRest
      apply Ends.pure
      rw [filterMap_cons_toList, filterMap_cons_toList, List.zipIdx_append, numbered, numberedRest,
        size]

/-- A struct is left alone, or it is stored with its fields. -/
theorem checkStruct_stored (node : Tree) :
    Ends (checkStruct node) state fun annotated after =>
      annotated = node ∨ ∃ name declarators, annotated.children = name :: declarators ∧
        StructStored after.symbols after.log name declarators state.symbols.size := by
  have unnamed : Ends (do report (.unnamedStruct node.location); return node) state
      fun annotated _ => annotated = node := .bind (.modify (.pure rfl))
  unfold checkStruct
  split
  case h_2 => exact unnamed.imp fun _ _ => .inl
  case h_1 name declarators children =>
    split
    case isTrue => exact unnamed.imp fun _ _ => .inl
    case isFalse =>
      apply Ends.bind
      apply (((checkFields_numbers state name.text {} declarators).and
        (checkFields_books state rfl)).and (checkFields_stores name.text {} declarators state)).imp
      rintro ⟨table, annotated⟩ middle ⟨⟨numbered, rfl, stored⟩, sameBare, -⟩
      have sameNamings := Tree.filterMap_naming?_congr sameBare
      simp only at numbered sameNamings
      have symbols : middle.symbols =
          (state.ledger.storeFields (declarators.filterMap Tree.naming?)).symbols :=
        congrArg (·.symbols) stored
      have size : middle.symbols.size =
          state.symbols.size + (declarators.filterMap Tree.naming?).length := by
        rw [symbols, Ledger.size_storeFields]
        rfl
      apply Ends.bind
      apply Ends.modifyGet
      have registered := @registerStruct_books (AnalysisState.ledger { middle with
        symbols := middle.symbols.push (.ofStruct name.text name.location
          (Ledger.fieldTable state.ledger.symbols.size {}
            (declarators.filterMap Tree.naming?))) }) name.text name.location
        middle.symbols.size (fun _ after => after = _) rfl
      apply Ends.bind
      apply (registered _ rfl).imp
      intro _ after registered
      apply Ends.pure
      refine .inr ⟨_, _, rfl, ?_⟩
      have afterSymbols := congrArg (·.symbols) registered
      have afterLog := congrArg (·.log) registered
      simp only [AnalysisState.ledger] at afterSymbols afterLog
      constructor
      · rw [numbered, sameNamings]
      · rw [sameNamings, ← size]
        rfl
      · rw [sameNamings, ← size, afterSymbols, Array.getElem?_push_size]
        rfl
      · intro field member
        rw [numbered] at member
        rw [afterSymbols]
        apply Grows.push
        rw [symbols]
        exact Ledger.getElem?_storeFields state.ledger member
      · rw [sameNamings, ← size, afterLog]
        simp [Tree.mapNote]

end Declaration

end OcLang
