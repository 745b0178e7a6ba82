import OcLang.Proofs.Files.Builds

namespace OcLang

/-! # Outputs in files

Every output has a file of its own, as the names of the kinds are different. A build writes
them in order, and stops only where a directory has the place of one. -/

namespace Build

variable (build : Build)

def Puts (above : Place) (kinds : List OutputKind) (place : Place) (text : String) : Prop :=
  ∃ kind ∈ kinds, build.outputs.get? kind = some text ∧
    place = above ++ [(build.fileName kind).toList]

variable {build}

theorem fileName_injective {kind other : OutputKind}
    (same : build.fileName kind = build.fileName other) : kind = other := by
  have names := (String.append_right_inj _).mp same
  cases kind <;> cases other <;> first | rfl | simp [OutputKind.name] at names

theorem Puts.eq {above place : Place} {kinds others : List OutputKind} {text other : String}
    (here : build.Puts above kinds place text) (there : build.Puts above others place other) :
    text = other := by
  rcases here with ⟨kind, _, given, rfl⟩
  rcases there with ⟨same, _, found, place⟩
  have names := List.append_cancel_left place
  rw [List.singleton_inj, String.toList_inj] at names
  rw [fileName_injective names, found] at given
  exact (Option.some.inj given).symm

theorem Puts.of_cons {above place : Place} {kind : OutputKind} {rest : List OutputKind}
    {text : String} : build.Puts above (kind :: rest) place text ↔
      build.Puts above rest place text ∨
        build.outputs.get? kind = some text ∧ place = above ++ [(build.fileName kind).toList] := by
  simp only [Puts, List.mem_cons, exists_eq_or_imp]
  exact or_comm

theorem puts_skip {kind : OutputKind} (none : build.outputs.get? kind = none) (above : Place)
    (rest : List OutputKind) : build.Puts above (kind :: rest) = build.Puts above rest := by
  funext place text
  simp [Puts.of_cons, none]

theorem receives_cons {earlier middle later : FileStore} {above : Place} {kind : OutputKind}
    {text : String} {rest : List OutputKind} (given : build.outputs.get? kind = some text)
    (first : earlier.Receives middle fun place contents =>
      place = above ++ [(build.fileName kind).toList] ∧ contents = text)
    (others : middle.Receives later (build.Puts above rest)) :
    earlier.Receives later (build.Puts above (kind :: rest)) := by
  constructor
  · exact others.directories.trans first.directories
  · intro place contents puts
    rcases Puts.of_cons.mp puts with there | ⟨_, here⟩
    · exact mt first.entry_eq_directory.mpr (others.free place contents there)
    · exact first.free place text ⟨here, rfl⟩
  · intro place contents puts
    by_cases again : ∃ other, build.Puts above rest place other
    · rcases again with ⟨other, there⟩
      rw [others.written place other there, puts.eq there]
    · rcases Puts.of_cons.mp puts with there | ⟨found, here⟩
      · exact absurd ⟨contents, there⟩ again
      · have same : text = contents := Option.some.inj (given.symm.trans found)
        rw [others.others place fun other there => again ⟨other, there⟩]
        exact first.written place contents ⟨here, same.symm⟩
  · intro place unwanted
    rw [others.others place fun other there => unwanted other (Puts.of_cons.mpr (.inl there))]
    apply first.others
    intro contents wanted
    rcases wanted with ⟨here, rfl⟩
    exact unwanted contents (Puts.of_cons.mpr (.inr ⟨given, here⟩))

/-- Some first outputs are in their files. They are all of them, with a list of the paths as the
result, if no directory is in the way. -/
def Delivers (build : Build) (above : Place) (kinds : List OutputKind) (store : FileStore)
    (result : Except Failure (List String)) (later : FileStore) : Prop :=
  ∃ done, done <+: kinds ∧ store.Receives later (build.Puts above done) ∧
    ((∀ place text, build.Puts above kinds place text → store.entry place ≠ .directory) →
      done = kinds ∧ ∃ paths, result = .ok paths)

namespace Delivers

variable {above : Place} {kind : OutputKind} {rest : List OutputKind}
  {store middle later : FileStore} {result : Except Failure (List String)}

theorem none (above : Place) (store : FileStore) :
    build.Delivers above [] store (.ok []) store := by
  have nothing : ∀ place text, ¬build.Puts above [] place text := by simp [Puts]
  exact ⟨[], List.prefix_rfl, .refl store nothing, fun _ => ⟨rfl, [], rfl⟩⟩

theorem skip (missing : build.outputs.get? kind = .none)
    (delivers : build.Delivers above rest store result later) :
    build.Delivers above (kind :: rest) store result later := by
  rcases delivers with ⟨done, before, receives, complete⟩
  rw [← puts_skip missing] at receives
  refine ⟨kind :: done, (List.prefix_cons_inj kind).mpr before, receives, fun free => ?_⟩
  rw [puts_skip missing] at free
  rcases complete free with ⟨whole, written⟩
  exact ⟨congrArg _ whole, written⟩

theorem cons {text : String} (given : build.outputs.get? kind = some text)
    (first : store.Receives middle fun place contents =>
      place = above ++ [(build.fileName kind).toList] ∧ contents = text)
    (delivers : build.Delivers above rest middle result later) (path : String) :
    build.Delivers above (kind :: rest) store (result.map (path :: ·)) later := by
  rcases delivers with ⟨done, before, receives, complete⟩
  refine ⟨kind :: done, (List.prefix_cons_inj kind).mpr before,
    receives_cons given first receives, fun free => ?_⟩
  have stillFree : ∀ place text, build.Puts above rest place text →
      middle.entry place ≠ .directory := by
    intro place text there
    exact mt first.entry_eq_directory.mp (free place text (Puts.of_cons.mpr (.inl there)))
  rcases complete stillFree with ⟨whole, paths, written⟩
  rw [written]
  exact ⟨congrArg _ whole, path :: paths, rfl⟩

end Delivers

end Build

/-! ## What a build leaves -/

namespace Build

variable {build : Build}

end Build

end OcLang
