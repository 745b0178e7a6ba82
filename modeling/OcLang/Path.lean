namespace OcLang.Path

/-! ## Paths as text

A path is a text of parts between slashes. Empty parts and single dots mean
nothing, except for a dot at the very front. -/

abbrev Part := List Char

/-- The parts of a path in order; the first is empty for a path from the root. -/
def parts : List Char → List Part
  | [] => [[]]
  | '/' :: rest => [] :: parts rest
  | c :: rest =>
      match parts rest with
      | [] => [[c]]
      | first :: others => (c :: first) :: others

def ofParts (parts : List Part) : String :=
  String.ofList (['/'].intercalate parts)

/-- Drop the last parts that mean nothing from parts in reverse. The front part
is never dropped. -/
def trim : List Part → List Part
  | [] => []
  | [front] => [front]
  | [] :: rest => trim rest
  | ['.'] :: rest => trim rest
  | last :: rest => last :: rest

def parent? (path : String) : Option String :=
  match trim (parts path.toList).reverse with
  | [] | [[]] => none
  | [_] => some ""
  | _ :: rest =>
      match trim rest with
      | [[]] => some "/"
      | rest => some (ofParts rest.reverse)

def fileName? (path : String) : Option Part :=
  match trim (parts path.toList).reverse with
  | [] | [] :: _ | ['.'] :: _ | ['.', '.'] :: _ => none
  | last :: _ => some last

def stem (name : Part) : Part :=
  match name.reverse.dropWhile (· != '.') with
  | [] | [_] => name
  | _ :: before => before.reverse

def fileStem? (path : String) : Option String :=
  (fileName? path).map fun name => String.ofList (stem name)

def join (directory name : String) : String :=
  if directory.isEmpty then name
  else if directory.toList.getLast? = some '/' then directory ++ name
  else directory ++ "/" ++ name

example : parent? "a//b" = some "a" ∧ parent? "./x" = some "." ∧ parent? "x" = some "" ∧
    parent? "/x" = some "/" ∧ parent? "/" = none := by
  decide

example : fileStem? "d/a.b.c" = some "a.b" ∧ fileStem? ".rc" = some ".rc" ∧
    fileStem? "x/.." = none ∧ fileStem? "a/." = some "a" := by
  decide

end OcLang.Path
