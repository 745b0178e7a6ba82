import OcLang.Proofs.Keys.Outputs
import OcLang.Proofs.Oil.Spelling
import OcLang.Proofs.Sessions

namespace OcLang

/-! # Outputs do not depend on what a session has seen

A session that hands out keys gives a tree other keys than a new one would. The
outputs are the same, because keys make no difference to a compilation. -/

namespace NamePool

/-! ## The keys of a pool -/

theorem key?_eq_some_iff (pool : NamePool) (text : String) (key : Nat) :
    pool.key? text = some key ↔ pool.text? key = some text := by
  rw [key?, text?, List.idxOf?_eq_some_iff, List.getElem?_eq_some_iff]
  constructor
  · rintro ⟨inside, here, _⟩
    exact ⟨inside, here⟩
  · rintro ⟨inside, here⟩
    refine ⟨inside, here, fun other before same => ?_⟩
    have equal := (List.getElem_inj pool.nodup).mp (same.trans here.symm)
    omega

/-- The key of a text, in digits. A text without a key is marked as one. -/
def keyText (pool : NamePool) (text : String) : String :=
  match pool.key? text with
  | some key => key.repr
  | none => "_" ++ text

def textBehind (pool : NamePool) (key : String) : String :=
  match key.toList with
  | '_' :: rest => String.ofList rest
  | _ => (pool.texts.find? (pool.keyText · == key)).getD ""

theorem keyText_of_key? {pool : NamePool} {text : String} {key : Nat}
    (known : pool.key? text = some key) : pool.keyText text = key.repr := by
  rw [keyText, known]

theorem textBehind_keyText (pool : NamePool) (text : String) :
    pool.textBehind (pool.keyText text) = text := by
  cases known : pool.key? text with
  | none => simp [keyText, textBehind, known]
  | some key =>
      rw [textBehind, keyText_of_key? known]
      split
      · rename_i rest marked
        have member : '_' ∈ key.repr.toList := marked ▸ List.mem_cons_self
        exact absurd member (not_mem_repr (by decide) key)
      -- No other text of the pool has this key, so the search ends at the right one.
      · have only : ∀ other ∈ pool.texts, pool.keyText other = key.repr → other = text := by
          intro other member same
          obtain ⟨otherKey, otherKnown⟩ : ∃ otherKey, pool.key? other = some otherKey :=
            Option.isSome_iff_exists.mp (List.isSome_idxOf?.mpr member)
          rw [keyText_of_key? otherKnown] at same
          rw [key?_eq_some_iff] at known otherKnown
          rw [repr_injective same, known] at otherKnown
          exact (Option.some.inj otherKnown).symm
        have inside : text ∈ pool.texts :=
          List.isSome_idxOf?.mp (Option.isSome_iff_exists.mpr ⟨key, known⟩)
        cases found : pool.texts.find? (pool.keyText · == key.repr) with
        | none =>
            have unlike := List.find?_eq_none.mp found text inside
            simp [keyText_of_key? known] at unlike
        | some other =>
            have like := List.find?_some found
            exact only other (List.mem_of_find?_eq_some found) (beq_iff_eq.mp like)

def naming (pool : NamePool) (listing : Listing) : Naming where
  toListing := listing
  key := pool.keyText
  text := pool.textBehind
  text_key := pool.textBehind_keyText

def intern (text : String) : StateM NamePool String := do
  let key ← keyOf text
  return key.repr

theorem texts_keyOf (text : String) (pool : NamePool) :
    Ends (keyOf text) pool fun _ after => pool.texts <+: after.texts := by
  by_cases member : text ∈ pool.texts
  · have known : (keyOf text).run pool = (pool.texts.idxOf text, pool) := dif_pos member
    simp only [Ends, known, List.prefix_rfl]
  · have added : (keyOf text).run pool = (pool.texts.length, pool.add text member) :=
      dif_neg member
    rw [Ends, added]
    exact List.prefix_append _ _

theorem intern_ends (text : String) (pool : NamePool) :
    Ends (intern text) pool fun key after => pool.texts <+: after.texts ∧
      ∀ later : NamePool, after.texts <+: later.texts → later.keyText text = key := by
  refine .bind (((text?_keyOf text pool).and (texts_keyOf text pool)).imp ?_)
  rintro key after ⟨held, grown⟩
  refine .pure ⟨grown, fun later more => keyText_of_key? ?_⟩
  obtain ⟨rest, equal⟩ := more
  have inside := (List.getElem?_eq_some_iff.mp held).1
  rw [key?_eq_some_iff, text?, ← equal, List.getElem?_append_left inside]
  exact held

end NamePool

namespace Tree

mutual
def internTexts : Tree → StateM NamePool Tree
  | ⟨kind, location, text, note, children⟩ => do
      let text ← NamePool.intern text
      let structName ← note.structName.mapM NamePool.intern
      let children ← internTextsAll children
      return ⟨kind, location, text, { note with structName }, children⟩

def internTextsAll : List Tree → StateM NamePool (List Tree)
  | [] => pure []
  | tree :: rest => do
      let tree ← tree.internTexts
      let rest ← internTextsAll rest
      return tree :: rest
end

theorem internName_ends (name : Option String) (pool : NamePool) :
    Ends (name.mapM NamePool.intern) pool fun keyed after => pool.texts <+: after.texts ∧
      ∀ later : NamePool, after.texts <+: later.texts → name.map later.keyText = keyed := by
  cases name with
  | none => exact .pure ⟨List.prefix_rfl, fun _ _ => rfl⟩
  | some name =>
      rw [Option.mapM_some]
      refine .map ((NamePool.intern_ends name pool).imp ?_)
      rintro key after ⟨grown, kept⟩
      exact ⟨grown, fun later more => congrArg some (kept later more)⟩

theorem internTextsAll_ends {trees : List Tree}
    (each : ∀ tree ∈ trees, ∀ pool, Ends tree.internTexts pool fun keyed after =>
      pool.texts <+: after.texts ∧
        ∀ later : NamePool, after.texts <+: later.texts → tree.respell later.keyText = keyed)
    (pool : NamePool) :
    Ends (internTextsAll trees) pool fun keyed after => pool.texts <+: after.texts ∧
      ∀ later : NamePool, after.texts <+: later.texts →
        trees.map (respell later.keyText) = keyed := by
  induction trees generalizing pool with
  | nil => exact .pure ⟨List.prefix_rfl, fun _ _ => rfl⟩
  | cons tree rest induction =>
      simp only [List.forall_mem_cons] at each
      refine .bind ((each.1 pool).imp ?_)
      rintro first middle ⟨grown, kept⟩
      refine .bind ((induction each.2 middle).imp ?_)
      rintro others after ⟨grownMore, keptOthers⟩
      refine .pure ⟨grown.trans grownMore, fun later more => ?_⟩
      rw [List.map_cons, kept later (grownMore.trans more), keptOthers later more]

theorem internTexts_ends (tree : Tree) (pool : NamePool) :
    Ends tree.internTexts pool fun keyed after => pool.texts <+: after.texts ∧
      ∀ later : NamePool, after.texts <+: later.texts → tree.respell later.keyText = keyed := by
  induction tree using Tree.induction generalizing pool with
  | node tree induction =>
      obtain ⟨kind, location, text, note, children⟩ := tree
      rw [internTexts]
      refine .bind ((NamePool.intern_ends text pool).imp ?_)
      rintro textKey first ⟨grown, keptText⟩
      refine .bind ((internName_ends note.structName first).imp ?_)
      rintro nameKey second ⟨grownName, keptName⟩
      refine .bind ((internTextsAll_ends induction second).imp ?_)
      rintro keyed after ⟨grownAll, keptAll⟩
      refine .pure ⟨(grown.trans grownName).trans grownAll, fun later more => ?_⟩
      rw [respell_mk, keptText later ((grownName.trans grownAll).trans more), Note.respell,
        keptName later (grownAll.trans more), keptAll later more]

end Tree

namespace Keyed

/-- Compile the next tree of a session: its texts are replaced by the keys of the
pool, and the order in which tables list names may depend on the pool. -/
def compileNext (listing : NamePool → Listing) (warningsAsErrors : Bool) (tree : Tree) :
    StateM NamePool Outputs := do
  let keyed ← tree.internTexts
  let pool ← get
  return compile (pool.naming (listing pool)) warningsAsErrors keyed

def compileAll (listing : NamePool → Listing) (warningsAsErrors : Bool) :
    List Tree → StateM NamePool (List Outputs)
  | [] => pure []
  | tree :: rest => do
      let first ← compileNext listing warningsAsErrors tree
      let rest ← compileAll listing warningsAsErrors rest
      return first :: rest

variable (listing : NamePool → Listing) (warningsAsErrors : Bool)

theorem compileNext_ends (tree : Tree) (pool : NamePool) :
    Ends (compileNext listing warningsAsErrors tree) pool fun outputs _ =>
      outputs = OcLang.compile warningsAsErrors tree := by
  refine .bind ((tree.internTexts_ends pool).imp ?_)
  rintro keyed after ⟨_, kept⟩
  refine .bind (.get (.pure ?_))
  rw [← kept after List.prefix_rfl]
  exact compile_respell (after.naming (listing after)) warningsAsErrors tree

theorem compileAll_ends (trees : List Tree) (pool : NamePool) :
    Ends (compileAll listing warningsAsErrors trees) pool fun outputs _ =>
      outputs = trees.map (OcLang.compile warningsAsErrors) := by
  induction trees generalizing pool with
  | nil => exact .pure rfl
  | cons tree rest induction =>
      refine .bind ((compileNext_ends listing warningsAsErrors tree pool).imp ?_)
      rintro _ after rfl
      refine .bind ((induction after).imp ?_)
      rintro _ last rfl
      exact .pure rfl

end Keyed

namespace Session

def compileAlone (warningsAsErrors : Bool) (tree : Tree) : Outputs :=
  ((compile tree).run { (default : Session) with warningsAsErrors }).1

theorem compileAlone_eq (warningsAsErrors : Bool) :
    compileAlone warningsAsErrors = OcLang.compile warningsAsErrors := by
  funext tree
  exact (compile_ends tree _).1

/-- Compiled one after another in a session with any history, trees give what
each gives alone in a new session. The same comes out when the session hands out
keys and compares these, whatever texts it has given keys before and in whatever
order the tables list names, and for every other way to give texts keys. -/
theorem outputs_independent (session : Session) (trees : List Tree)
    (listing : NamePool → Listing) (names : Naming) :
    let alone := trees.map (compileAlone session.warningsAsErrors)
    ((compileAll trees).run session).1 = alone ∧
      ((Keyed.compileAll listing session.warningsAsErrors trees).run session.names).1 = alone ∧
        (trees.map fun tree =>
          Keyed.compile names session.warningsAsErrors (tree.respell names.key)) = alone := by
  intro alone
  have same : alone = trees.map (OcLang.compile session.warningsAsErrors) := by
    rw [← compileAlone_eq]
  refine ⟨?_, ?_, ?_⟩
  · exact (compileAll_ends trees session).trans same.symm
  · exact (Keyed.compileAll_ends listing _ trees session.names).trans same.symm
  · simp only [Keyed.compile_respell, same]

end Session

end OcLang
