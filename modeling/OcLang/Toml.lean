namespace OcLang

/-! ## TOML documents

Only strings, truth values, arrays and tables matter to the settings; numbers,
dates and times are checked when they are read and then kept as `scalar`.

Tables may be filled from several places of a document, but only in certain
ways. Each table therefore remembers how it came to be. -/

inductive TomlOrigin where
  | header
  | path
  | dotted
  /-- As a value in braces; nothing can be added to it later. -/
  | inline
deriving DecidableEq, Repr

inductive Toml where
  | text (contents : String)
  | boolean (value : Bool)
  | scalar
  | array (items : List Toml)
  | table (origin : TomlOrigin) (entries : List (String × Toml))
  | tables (elements : List (List (String × Toml)))

namespace Toml

abbrev Entries := List (String × Toml)

def replace (key : String) (value : Toml) (entries : Entries) : Entries :=
  entries.map fun (other, old) => if other = key then (other, value) else (other, old)

/-- Change the table at the end of a path, making the tables on the way. Dotted
keys do not reach into tables that have a header; an array of tables is entered
at its last element. -/
def update (viaDots : Bool) (change : TomlOrigin → Entries → Option Entries) :
    (path : List String) → TomlOrigin → Entries → Option Entries
  | [], origin, entries => change origin entries
  | key :: path, _, entries =>
      match entries.lookup key with
      | none => do
          let origin := if viaDots then .dotted else .path
          let inner ← update viaDots change path origin []
          return entries ++ [(key, .table origin inner)]
      | some (.table origin inner) =>
          if origin = .inline || (viaDots && origin = .header) then none
          else do
            let inner ← update viaDots change path origin inner
            return replace key (.table origin inner) entries
      | some (.tables elements) => do
          let last ← elements.getLast?
          let last ← update viaDots change path .header last
          return replace key (.tables (elements.dropLast ++ [last])) entries
      | some _ => none

/-- Add a value under a dotted key. The table it goes into has to come from
dotted keys alone, and must not have the key yet. -/
def addPair (path : List String) (key : String) (value : Toml) (entries : Entries) :
    Option Entries :=
  update true
    (fun origin inner =>
      if (origin == .dotted) == path.isEmpty then none
      else if (inner.lookup key).isSome then none
      else some (inner ++ [(key, value)]))
    path .header entries

def openTable (path : List String) (key : String) (document : Entries) : Option Entries :=
  update false
    (fun _ entries =>
      match entries.lookup key with
      | none => some (entries ++ [(key, .table .header [])])
      | some (.table .path inner) => some (replace key (.table .header inner) entries)
      | some _ => none)
    path .header document

def openElement (path : List String) (key : String) (document : Entries) : Option Entries :=
  update false
    (fun _ entries =>
      match entries.lookup key with
      | none => some (entries ++ [(key, .tables [[]])])
      | some (.tables elements) => some (replace key (.tables (elements ++ [[]])) entries)
      | some _ => none)
    path .header document

end Toml

end OcLang
