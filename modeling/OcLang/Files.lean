namespace OcLang

/-! ## Access to files

Commands reach files through these four operations only, so that they can be
run on real files and on a store that is held in memory. -/

inductive FileError where
  | notFound
  | alreadyExists
  | notDirectory
  | isDirectory
  | other (text : String)
deriving DecidableEq, Repr

def FileError.message : FileError → String
  | .notFound => "No such file or directory (os error 2)"
  | .alreadyExists => "File exists (os error 17)"
  | .notDirectory => "Not a directory (os error 20)"
  | .isDirectory => "Is a directory (os error 21)"
  | .other text => text

/-- A file that is no text in UTF-8 cannot be read as one. -/
def FileError.notText : FileError :=
  .other "stream did not contain valid UTF-8"

class Files (m : Type → Type) where
  read : (path : String) → m (Except FileError String)
  isFile : (path : String) → m Bool
  /-- Make a directory and those above it, as far as they are missing. -/
  makeDirectories : (path : String) → m (Except FileError Unit)
  write : (path : String) → (contents : String) → m (Except FileError Unit)

end OcLang
