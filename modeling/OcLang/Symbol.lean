import OcLang.Location
import OcLang.Attributes

namespace OcLang

/-! ## Tables of names

A table binds names to symbols, which are known by their number. It lists its
names in the order of their first binding: binding a name again replaces the
symbol and keeps the place. -/

structure Table where
  entries : List (String × Nat) := []
deriving DecidableEq, Repr, Inhabited

namespace Table

def find? (table : Table) (name : String) : Option Nat :=
  table.entries.lookup name

private def insertEntry (name : String) (symbol : Nat) :
    List (String × Nat) → List (String × Nat)
  | [] => [(name, symbol)]
  | (other, old) :: rest =>
      if other = name then (name, symbol) :: rest
      else (other, old) :: insertEntry name symbol rest

def insert (table : Table) (name : String) (symbol : Nat) : Table :=
  { entries := insertEntry name symbol table.entries }

private theorem lookup_insertEntry (name : String) (symbol : Nat) (entries : List (String × Nat))
    (other : String) :
    (insertEntry name symbol entries).lookup other =
      if other = name then some symbol else entries.lookup other := by
  induction entries with
  | nil => grind [insertEntry]
  | cons entry rest induction =>
      by_cases first : entry.1 = name <;> by_cases equal : other = name <;>
        grind [insertEntry]

/-- Inserting a name changes what is found under this name only. -/
theorem find?_insert (table : Table) (name : String) (symbol : Nat) (other : String) :
    (table.insert name symbol).find? other =
      if other = name then some symbol else table.find? other :=
  lookup_insertEntry name symbol table.entries other

@[simp] theorem find?_empty (name : String) : (Table.mk []).find? name = none := rfl

def names (table : Table) : List String :=
  table.entries.map (·.1)

private theorem map_insertEntry (name : String) (symbol : Nat) (entries : List (String × Nat)) :
    (insertEntry name symbol entries).map (·.1) =
      if name ∈ entries.map (·.1) then entries.map (·.1) else entries.map (·.1) ++ [name] := by
  induction entries with
  | nil => rfl
  | cons entry rest induction => by_cases first : entry.1 = name <;> grind [insertEntry]

theorem names_insert (table : Table) (name : String) (symbol : Nat) :
    (table.insert name symbol).names =
      if name ∈ table.names then table.names else table.names ++ [name] :=
  map_insertEntry name symbol table.entries

theorem mem_entries_of_find? {table : Table} {name : String} {symbol : Nat}
    (found : table.find? name = some symbol) : (name, symbol) ∈ table.entries := by
  rcases table with ⟨entries⟩
  simp only [find?] at found ⊢
  induction entries with
  | nil => contradiction
  | cons entry rest induction => by_cases first : name = entry.1 <;> grind

theorem mem_entries_insert {table : Table} {name : String} {symbol : Nat}
    {entry : String × Nat} (member : entry ∈ (table.insert name symbol).entries) :
    entry = (name, symbol) ∨ entry ∈ table.entries := by
  rcases table with ⟨entries⟩
  simp only [insert] at member ⊢
  induction entries with
  | nil => simpa [insertEntry] using member
  | cons first rest induction => by_cases same : first.1 = name <;> grind [insertEntry]

/-- An entry is found under its name if no other has it. -/
theorem mem_entries_iff {table : Table} (distinct : table.names.Nodup) (name : String)
    (symbol : Nat) : (name, symbol) ∈ table.entries ↔ table.find? name = some symbol := by
  rcases table with ⟨entries⟩
  simp only [names, find?] at distinct ⊢
  induction entries with
  | nil => simp
  | cons entry rest induction => by_cases first : name = entry.1 <;> grind

private theorem insertEntry_map {change : String → String} (injective : Function.Injective change)
    (name : String) (symbol : Nat) (entries : List (String × Nat)) :
    insertEntry (change name) symbol (entries.map fun entry => (change entry.1, entry.2)) =
      (insertEntry name symbol entries).map fun entry => (change entry.1, entry.2) := by
  induction entries with
  | nil => rfl
  | cons entry rest induction =>
      by_cases first : entry.1 = name
      · simp [insertEntry, first]
      · have changed : change entry.1 ≠ change name := fun same => first (injective same)
        simp [insertEntry, first, changed, induction]

theorem insert_map {change : String → String} (injective : Function.Injective change)
    (name : String) (symbol : Nat) (entries : List (String × Nat)) :
    (mk (entries.map fun entry => (change entry.1, entry.2))).insert (change name) symbol =
      mk (((mk entries).insert name symbol).entries.map fun entry => (change entry.1, entry.2)) :=
  congrArg mk (insertEntry_map injective name symbol entries)

def size (table : Table) : Nat :=
  table.entries.length

example : ((Table.mk [("a", 0), ("b", 1)]).insert "a" 2).entries = [("a", 2), ("b", 1)] := by
  decide

end Table

/-! ## Symbols -/

/-- What a symbol stands for. A variable or parameter may take over from an
earlier one of the same name in the same scope. -/
inductive SymbolRole where
  | variable (replaces : Option Nat)
  | parameter (replaces : Option Nat)
  | field
  | struct (fields : Table)
  | function (parameters : List Nat) (isPrototype : Bool)
deriving DecidableEq, Repr, Inhabited

structure Symbol where
  type : ValueType
  role : SymbolRole
  location : Location
  block : Nat := 0
deriving DecidableEq, Repr, Inhabited

namespace SymbolRole

def roles : SymbolRole → Roles
  | .variable _ => { isVariable := true, isLvalue := true }
  | .parameter _ => { isParameter := true, isVariable := true, isLvalue := true }
  | .field => { isField := true }
  | .struct _ => { isTypeName := true }
  | .function _ _ => { isFunction := true }

end SymbolRole

namespace Symbol

def attributes (symbol : Symbol) : Attributes :=
  { type := symbol.type.flags, roles := symbol.role.roles }

def isVariable (symbol : Symbol) : Bool :=
  symbol.role.roles.isVariable

def isFunction (symbol : Symbol) : Bool :=
  symbol.role.roles.isFunction

def isPrototype (symbol : Symbol) : Bool :=
  match symbol.role with
  | .function _ isPrototype => isPrototype
  | _ => false

def fields? (symbol : Symbol) : Option Table :=
  match symbol.role with
  | .struct fields => some fields
  | _ => none

def parameters? (symbol : Symbol) : Option (List Nat) :=
  match symbol.role with
  | .function parameters _ => some parameters
  | _ => none

def parameters (symbol : Symbol) : List Nat :=
  symbol.parameters?.getD []

def replaces? (symbol : Symbol) : Option Nat :=
  match symbol.role with
  | .variable replaces | .parameter replaces => replaces
  | _ => none

def ofStruct (name : String) (location : Location) (fields : Table) : Symbol :=
  { type := { flags := { struct := true }, structName := some name }
    role := .struct fields
    location }

end Symbol

end OcLang
