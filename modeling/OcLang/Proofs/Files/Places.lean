import OcLang.Proofs.Files.Paths

namespace OcLang

namespace FileStore

open OcLang.Path

/-! # Finding places

A path leads to a directory by its parts. What comes to the store later takes no directory
away, so that a path that was found is found again at the same place. -/

def Leads (store : FileStore) (path : String) (place : Place) : Prop :=
  store.walk (startOf (parts path.toList)) (names path) = .ok place

def KeepsDirectories (earlier later : FileStore) : Prop :=
  ∀ place, earlier.entry place = .directory → later.entry place = .directory

theorem KeepsDirectories.refl (store : FileStore) : store.KeepsDirectories store :=
  fun _ entered => entered

theorem KeepsDirectories.trans {earlier middle later : FileStore}
    (first : earlier.KeepsDirectories middle) (second : middle.KeepsDirectories later) :
    earlier.KeepsDirectories later :=
  fun place entered => second place (first place entered)

inductive Locates (store : FileStore) (path : String) : Place → Prop where
  | root (noNames : names path = []) (given : path ≠ "") : Locates store path Place.root
  | directory {front : List Part} {last : Part} {above place : Place}
      (split : names path = front ++ [last])
      (walked : store.walk (startOf (parts path.toList)) front = .ok above)
      (dots : last = ['.'] ∨ last = Place.up) (stepped : store.walk above [last] = .ok place) :
      Locates store path place
  /-- Any other name may be missing; that of a file has no slash after it. -/
  | entry {front : List Part} {last : Part} {above : Place}
      (split : names path = front ++ [last])
      (walked : store.walk (startOf (parts path.toList)) front = .ok above)
      (noDots : ¬(last = ['.'] ∨ last = Place.up))
      (noSlash : ∀ contents, store.entry (above ++ [last]) = .file contents →
        (parts path.toList).getLast? ≠ some []) :
      Locates store path (above ++ [last])

theorem locate_iff {store : FileStore} {path : String} {place : Place} :
    store.locate path = .ok place ↔ store.Locates path place := by
  unfold locate
  simp only [bind, Except.bind]
  constructor
  · intro located
    split at located
    · rename_i none
      split at located
      · contradiction
      · rename_i given
        cases located
        exact .root (List.getLast?_eq_none_iff.mp none) (by simpa using given)
    · rename_i last found
      rcases List.getLast?_eq_some_iff.mp found with ⟨front, split⟩
      split at located
      · contradiction
      · rename_i above walked
        rw [split, List.dropLast_concat] at walked
        split at located
        · rename_i dots
          exact .directory split walked (by simpa using dots) located
        · rename_i noDots
          split at located
          · contradiction
          · rename_i noSlash
            cases located
            exact .entry split walked (by simpa using noDots) fun contents entered slash =>
              noSlash contents entered slash
  · intro locates
    cases locates with
    | root noNames given =>
        have none : (parts path.toList).filter (!·.isEmpty) = [] := noNames
        have notEmpty : path.isEmpty = false := by simpa using given
        simp [none, notEmpty, pure, Except.pure]
    | @directory front last above _ split walked dots stepped =>
        have names : (parts path.toList).filter (!·.isEmpty) = front ++ [last] := split
        simp [names, walked, dots, stepped]
    | @entry front last above split walked noDots noSlash =>
        have names : (parts path.toList).filter (!·.isEmpty) = front ++ [last] := split
        simp only [names, List.getLast?_concat, List.dropLast_concat, walked]
        rw [if_neg (by simpa using noDots)]
        rfl

theorem entry_file_iff {store : FileStore} {place : Place} {contents : ByteArray} :
    store.entry place = .file contents ↔ store.files.lookup place = some contents := by
  unfold FileStore.entry
  cases store.files.lookup place with
  | some contents => simp
  | none =>
      split
      · contradiction
      · split <;> simp

section

variable {earlier later : FileStore} (keeps : earlier.KeepsDirectories later)

include keeps

theorem KeepsDirectories.walk {start place : Place} {path : List Part}
    (walked : earlier.walk start path = .ok place) : later.walk start path = .ok place := by
  fun_induction FileStore.walk earlier start path with
  | case1 start => exact walked
  | case2 start rest induction => exact induction walked
  | case3 start rest induction => exact induction walked
  | case4 start name rest noDot notUp entered induction =>
      rw [FileStore.walk, keeps _ entered]
      · exact induction walked
      · exact noDot
      · exact notUp
  | case5 => contradiction
  | case6 => contradiction

theorem KeepsDirectories.leads {path : String} {place : Place} (leads : earlier.Leads path place) :
    later.Leads path place :=
  keeps.walk leads

/-- A path is found again, unless it ends in a slash where a file came to be. -/
theorem KeepsDirectories.locate {path : String} {place : Place}
    (located : earlier.locate path = .ok place)
    (noFile : ∀ contents, later.entry place = .file contents →
      ∃ old, earlier.entry place = .file old) : later.locate path = .ok place := by
  rw [locate_iff] at located ⊢
  cases located with
  | root noNames given => exact .root noNames given
  | directory split walked dots stepped =>
      exact .directory split (keeps.walk walked) dots (keeps.walk stepped)
  | entry split walked noDots noSlash =>
      apply Locates.entry split (keeps.walk walked) noDots
      intro contents entered
      rcases noFile contents entered with ⟨old, before⟩
      exact noSlash old before

end

/-! ## Names of files -/

def Grounded (store : FileStore) (place : Place) : Prop :=
  ∀ above name, above ++ [name] <+: place → name ≠ [] → name ≠ Place.up →
    store.entry (above ++ [name]) = .directory

theorem Grounded.concat {store : FileStore} {place : Place} {name : Part}
    (grounded : store.Grounded place)
    (entered : name ≠ [] → name ≠ Place.up → store.entry (place ++ [name]) = .directory) :
    store.Grounded (place ++ [name]) := by
  intro above last before nonempty notUp
  rcases List.prefix_concat_iff.mp before with whole | inside
  · have same := List.append_inj' whole rfl
    rw [List.singleton_inj] at same
    rw [whole]
    exact entered (same.2 ▸ nonempty) (same.2 ▸ notUp)
  · exact grounded above last inside nonempty notUp

theorem grounded_nil (store : FileStore) : store.Grounded [] := by
  intro above name before
  exact absurd (List.prefix_nil.mp before) (by simp)

theorem grounded_root (store : FileStore) : store.Grounded Place.root :=
  store.grounded_nil.concat fun nonempty => absurd rfl nonempty

theorem Grounded.parent {store : FileStore} {place : Place} (grounded : store.Grounded place) :
    store.Grounded place.parent := by
  unfold Place.parent
  split
  · exact grounded.concat fun _ notUp => absurd rfl notUp
  · split
    · exact store.grounded_root
    · intro above name before
      exact grounded above name (before.trans (List.dropLast_prefix place))

theorem Grounded.walk {store : FileStore} {start place : Place} {path : List Part}
    (grounded : store.Grounded start) (walked : store.walk start path = .ok place) :
    store.Grounded place := by
  fun_induction FileStore.walk store start path with
  | case1 start =>
      cases walked
      exact grounded
  | case2 start rest induction => exact induction grounded walked
  | case3 start rest induction => exact induction grounded.parent walked
  | case4 start name rest noDot notUp entered induction =>
      exact induction (grounded.concat fun _ _ => entered) walked
  | case5 => contradiction
  | case6 => contradiction

end FileStore

end OcLang
