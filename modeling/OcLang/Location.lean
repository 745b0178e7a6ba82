namespace OcLang

/-! A place in a source text. The tree format stores file, line and column as
32-bit words, so no arithmetic on them is ever needed: places are compared,
printed and used as keys of generated labels. -/

structure Location where
  file : UInt32 := 0
  line : UInt32 := 0
  column : UInt32 := 0
deriving DecidableEq, Repr, Inhabited

namespace Location

private def joined (separator : String) (location : Location) : String :=
  location.file.toNat.repr ++ separator ++ location.line.toNat.repr ++ separator ++
    location.column.toNat.repr

def display (location : Location) : String :=
  location.joined "."

def key (location : Location) : String :=
  location.joined "_"

theorem key_eq (location : Location) :
    location.key = location.file.toNat.repr ++ "_" ++ location.line.toNat.repr ++ "_" ++
      location.column.toNat.repr := rfl

theorem display_eq (location : Location) :
    location.display = location.file.toNat.repr ++ "." ++ location.line.toNat.repr ++ "." ++
      location.column.toNat.repr := rfl

def le (first second : Location) : Bool :=
  if first.file = second.file then
    if first.line = second.line then first.column ≤ second.column
    else first.line < second.line
  else first.file < second.file

def sort (locations : List Location) : List Location :=
  locations.mergeSort le

example : (Location.mk 1 23 4).key = "1_23_4" ∧ (Location.mk 12 3 4).key = "12_3_4" := by
  decide

end Location

end OcLang
