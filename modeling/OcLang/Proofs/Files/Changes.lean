import OcLang.Proofs.Files.Places

namespace OcLang

namespace FileStore

/-! # Changes to a store

Directories are made so that a path leads to them. Files are written where no directory is,
and nothing happens to the others. -/

/-! ## Making directories -/

structure GainsDirectories (earlier later : FileStore) : Prop where
  files : later.files = earlier.files
  keeps : earlier.KeepsDirectories later

/-- The path leads to a directory if nothing went wrong. -/
structure MakesWay (earlier later : FileStore) (path : String) (result : Except FileError Unit) :
    Prop extends earlier.GainsDirectories later where
  leads : result = .ok () → ∃ place, later.Leads path place

theorem GainsDirectories.refl (store : FileStore) : store.GainsDirectories store :=
  ⟨rfl, .refl store⟩

theorem GainsDirectories.trans {earlier middle later : FileStore}
    (first : earlier.GainsDirectories middle) (second : middle.GainsDirectories later) :
    earlier.GainsDirectories later :=
  ⟨second.files.trans first.files, first.keeps.trans second.keeps⟩

theorem MakesWay.behind {earlier middle later : FileStore} {path : String}
    {result : Except FileError Unit} (gains : earlier.GainsDirectories middle)
    (makes : middle.MakesWay later path result) : earlier.MakesWay later path result :=
  { gains.trans makes.toGainsDirectories with leads := makes.leads }

/-- A file is in the way, and the directory that was made before stays. -/
example :
    let ran := (FileStore.ofFiles [("f", "")]).makeDirectories "new/../f/last"
    ran.1 = .error .alreadyExists ∧ ran.2.directories = [["new".toList]] := by
  decide +kernel

/-! ## Writing files -/

/-- The later store has the wanted texts as files, where no directories were, and is otherwise
like the earlier one. -/
structure Receives (earlier later : FileStore) (wanted : Place → String → Prop) : Prop where
  directories : later.directories = earlier.directories
  free : ∀ place text, wanted place text → earlier.entry place ≠ .directory
  written : ∀ place text, wanted place text → later.files.lookup place = some text.toUTF8
  others : ∀ place, (∀ text, ¬wanted place text) →
    later.files.lookup place = earlier.files.lookup place

theorem entry_congr {earlier later : FileStore} {place : Place}
    (directories : later.directories = earlier.directories)
    (same : later.files.lookup place = earlier.files.lookup place) :
    later.entry place = earlier.entry place := by
  rw [FileStore.entry, FileStore.entry, same, directories]

namespace Receives

variable {earlier later : FileStore} {wanted : Place → String → Prop}

theorem refl (store : FileStore) (nothing : ∀ place text, ¬wanted place text) :
    store.Receives store wanted :=
  ⟨rfl, fun place text member => absurd member (nothing place text),
    fun place text member => absurd member (nothing place text), fun _ _ => rfl⟩

theorem keeps (receives : earlier.Receives later wanted) : earlier.KeepsDirectories later := by
  intro place entered
  have unwanted : ∀ text, ¬wanted place text := fun text member =>
    receives.free place text member entered
  rw [entry_congr receives.directories (receives.others place unwanted)]
  exact entered

theorem entry_eq_directory (receives : earlier.Receives later wanted) {place : Place} :
    later.entry place = .directory ↔ earlier.entry place = .directory := by
  constructor
  · intro entered
    have unwanted : ∀ text, ¬wanted place text := by
      intro text member
      rw [entry_file_iff.mpr (receives.written place text member)] at entered
      contradiction
    rw [← entry_congr receives.directories (receives.others place unwanted)]
    exact entered
  · exact receives.keeps place

end Receives

end FileStore

end OcLang
