namespace OcLang.Spelling

/-! ## Names that are spelled alike

The distance of two texts is the least number of single-character insertions,
deletions and substitutions that turn one into the other. It is computed row by
row: a row holds the distances of one beginning of the source to every
beginning of the target. -/

def firstRow (target : List Char) : List Nat :=
  List.range (target.length + 1)

/-- The rest of a row after its first entry. `left` is the entry just written,
`diagonal` the one above it, and the row above follows. -/
def extendRow (c : Char) (left diagonal : Nat) :
    (above : List Nat) → (target : List Char) → List Nat
  | up :: above, d :: target =>
      let entry := min (min (diagonal + if c = d then 0 else 1) (left + 1)) (up + 1)
      entry :: extendRow c entry up above target
  | _, _ => []

def nextRow (c : Char) (target : List Char) : List Nat → List Nat
  | [] => []
  | first :: above => (first + 1) :: extendRow c (first + 1) first above target

def distance (source target : String) : Nat :=
  let target := target.toList
  (source.toList.foldl (fun row c => nextRow c target row) (firstRow target)).getLastD 0

example : distance "kitten" "sitting" = 3 ∧ distance "" "ab" = 2 ∧ distance "count" "cout" = 1 := by
  decide

/-! ## Suggestions -/

/-- A suggestion is close: at most two edits away, and fewer than the name has
characters. -/
def isClose (name : String) (distance : Nat) : Bool :=
  distance ≤ 2 && distance < name.length

def le (first second : Nat × String) : Bool :=
  first.1 < second.1 || (first.1 == second.1 && first.2 ≤ second.2)

/-- Put an entry into an ordered list, unless the list has it already. -/
def place (entry : Nat × String) : List (Nat × String) → List (Nat × String)
  | [] => [entry]
  | first :: rest =>
      if entry = first then first :: rest
      else if le entry first then entry :: first :: rest
      else first :: place entry rest

def closest (name : String) (candidates : List String) : List (Nat × String) :=
  let others := candidates.filter (· != name)
  let scored := others.map fun candidate => (distance name candidate, candidate)
  (scored.filter fun entry => isClose name entry.1).foldr place []

def suggestions (name : String) (candidates : List String) : List String :=
  (closest name candidates).take 3 |>.map (·.2)

example : suggestions "coutn" ["counter", "count", "amount", "count"] = ["count"] := by
  decide

end OcLang.Spelling
