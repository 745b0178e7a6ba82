import OcLang.Path
import OcLang.Files

namespace OcLang

/-! ## A store of files

Places are lists of names, from the working directory inwards. A place outside
begins with steps upwards, or with an empty name for the root. The working
directory, those above it and the root exist; nothing else is known of what
lies outside. -/

abbrev Place := List Path.Part

namespace Place

def up : Path.Part := ['.', '.']

def isUpwards (place : Place) : Bool :=
  place.all (· == up)

def root : Place := [[]]

def parent (place : Place) : Place :=
  if place.isUpwards then place ++ [up]
  else if place = root then root
  else place.dropLast

def isInside (place : Place) : Bool :=
  place.head?.all fun first => !first.isEmpty && first != up

end Place

structure FileStore where
  files : List (Place × ByteArray) := []
  directories : List Place := []

namespace FileStore

inductive Entry where
  | file (contents : ByteArray)
  | directory
  | missing

def entry (store : FileStore) (place : Place) : Entry :=
  match store.files.lookup place with
  | some contents => .file contents
  | none =>
      if place.isUpwards || place = Place.root || store.directories.contains place then .directory
      else .missing

def walk (store : FileStore) : (start : Place) → List Path.Part → Except FileError Place
  | start, [] => .ok start
  | start, ['.'] :: rest => walk store start rest
  | start, ['.', '.'] :: rest => walk store start.parent rest
  | start, name :: rest =>
      match store.entry (start ++ [name]) with
      | .directory => walk store (start ++ [name]) rest
      | .file _ => .error .notDirectory
      | .missing => .error .notFound

def startOf : List Path.Part → Place
  | [] :: _ :: _ => Place.root
  | _ => []

/-- The place that a path names; all but its last part has to exist. A slash at
the end asks for a directory. -/
def locate (store : FileStore) (path : String) : Except FileError Place := do
  let parts := Path.parts path.toList
  let named := parts.filter (!·.isEmpty)
  match named.getLast? with
  | none => if path.isEmpty then .error .notFound else return Place.root
  | some last =>
      let directory ← store.walk (startOf parts) named.dropLast
      if last = ['.'] || last = Place.up then store.walk directory [last]
      else
        let place := directory ++ [last]
        match store.entry place, parts.getLast? with
        | .file _, some [] => .error .notDirectory
        | _, _ => return place

def read (store : FileStore) (path : String) : Except FileError String := do
  match store.entry (← store.locate path) with
  | .file contents =>
      match String.fromUTF8? contents with
      | some text => return text
      | none => .error .notText
  | .directory => .error .isDirectory
  | .missing => .error .notFound

def isFile (store : FileStore) (path : String) : Bool :=
  match store.locate path with
  | .ok place => match store.entry place with
    | .file _ => true
    | _ => false
  | .error _ => false

def isDirectory (store : FileStore) (path : String) : Bool :=
  match store.locate path with
  | .ok place => match store.entry place with
    | .directory => true
    | _ => false
  | .error _ => false

def makeDirectory (store : FileStore) (path : String) : Except FileError FileStore :=
  match store.locate path with
  | .error .notDirectory =>
      -- A file in the way exists, whether or not a slash follows its name.
      if store.isFile (String.ofList (path.toList.reverse.dropWhile (· == '/')).reverse) then
        .error .alreadyExists
      else .error .notDirectory
  | .error error => .error error
  | .ok place =>
      match store.entry place with
      | .missing => .ok { store with directories := store.directories ++ [place] }
      | _ => .error .alreadyExists

/-- Make a directory; if the one above is missing, make that first. What was made on the way
stays after a failure. A path has fewer directories above it than characters. -/
def makeDirectoriesWithin : (steps : Nat) → FileStore → String →
    Except FileError Unit × FileStore
  | 0, store, _ => (.error .notFound, store)
  | steps + 1, store, path =>
      if path.isEmpty then (.ok (), store)
      else match store.makeDirectory path with
        | .ok made => (.ok (), made)
        | .error .notFound =>
            match Path.parent? path with
            | none => (.error .notFound, store)
            | some above =>
                match makeDirectoriesWithin steps store above with
                | (.error error, made) => (.error error, made)
                | (.ok (), made) =>
                    match made.makeDirectory path with
                    | .ok last => (.ok (), last)
                    | .error error => (if made.isDirectory path then .ok () else .error error, made)
        | .error error => (if store.isDirectory path then .ok () else .error error, store)

def makeDirectories (store : FileStore) (path : String) : Except FileError Unit × FileStore :=
  makeDirectoriesWithin (path.length + 1) store path

private def put (place : Place) (contents : ByteArray) :
    List (Place × ByteArray) → List (Place × ByteArray)
  | [] => [(place, contents)]
  | (other, old) :: rest =>
      if other = place then (place, contents) :: rest else (other, old) :: put place contents rest

def write (store : FileStore) (path contents : String) : Except FileError FileStore := do
  let place ← store.locate path
  match store.entry place with
  | .directory => .error .isDirectory
  | _ => return { store with files := put place contents.toUTF8 store.files }

section

variable {store : FileStore} {path : String} {place : Place}
  (located : store.locate path = .ok place)

include located

end

def above (place : Place) : List Place :=
  (List.range place.length).tail.map place.take

def ofFiles (files : List (String × String)) : FileStore :=
  let places := files.map fun (path, contents) =>
    ((Path.parts path.toList).filter fun part => !part.isEmpty && part != ['.'],
      contents.toUTF8)
  { files := places
    directories := (places.flatMap fun (place, _) => above place).eraseDups }

def changedSince (earlier later : FileStore) : List (String × String) :=
  later.files.filterMap fun (place, contents) =>
    if !place.isInside || earlier.files.lookup place == some contents then none
    else (String.fromUTF8? contents).map fun text => (Path.ofParts place, text)

instance : Files (StateM FileStore) where
  read path := return (← get).read path
  isFile path := return (← get).isFile path
  makeDirectories path := modifyGet (·.makeDirectories path)
  write path contents := modifyGet fun store =>
    match store.write path contents with
    | .ok later => (.ok (), later)
    | .error error => (.error error, store)

end FileStore

end OcLang
