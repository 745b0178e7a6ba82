import OcLang.Proofs.Execution.Machine
import OcLang.Proofs.Execution.Source
import OcLang.Proofs.Oil.Variables

namespace OcLang.Oil

open Lexical Source

/-! # Frames and memory

Frames and memory hold the same values when every variable that is declared at
a place has its value under its spelled name. -/

def ShowsFrame (context : Context) (memory : Memory) (scope : Nat) (frame : Frame) : Prop :=
  ∀ name, match context.latest? scope name with
    | none => frame.lookup name = none
    | some _ => ∃ value, frame.lookup name = some value ∧
        memory (VariableName.declared scope name).spelling = some ⟨.int, value⟩

def ShowsFrames (context : Context) (memory : Memory) : List Nat → List Frame → Prop
  | [], [] => True
  | scope :: scopes, frame :: frames =>
      ShowsFrame context memory scope frame ∧ ShowsFrames context memory scopes frames
  | _, _ => False

theorem scope_of_latest? {context : Context} {scope : Nat} {name : String}
    {declaration : Declaration} (latest : context.latest? scope name = some declaration) :
    declaration.scope = scope := by
  have found := List.find?_some latest
  simp only [decide_eq_true_eq] at found
  exact found.1

theorem find?_eq {context : Context} {memory : Memory} {scopes : List Nat} {frames : List Frame}
    (shows : ShowsFrames context memory scopes frames) {name : String} {meant : Declaration}
    (found : scopes.findSome? (fun scope => context.latest? scope name) = some meant) :
    ∃ value, find? frames name = some value ∧
      memory (VariableName.declared meant.scope name).spelling = some ⟨.int, value⟩ := by
  induction scopes generalizing frames with
  | nil => simp at found
  | cons scope scopes induction =>
      cases frames with
      | nil => exact shows.elim
      | cons frame frames =>
          have here := shows.1 name
          rw [List.findSome?_cons] at found
          cases latest : context.latest? scope name with
          | none =>
              simp only [latest] at here found
              obtain ⟨value, looked, stored⟩ := induction shows.2 found
              exact ⟨value, by simpa [find?, here] using looked, stored⟩
          | some declaration =>
              simp only [latest, Option.some.injEq] at here found
              subst found
              obtain ⟨value, looked, stored⟩ := here
              rw [scope_of_latest? latest]
              exact ⟨value, by simp [find?, looked], stored⟩

/-! ## Changing a variable -/

section

variable {context other : Context} {memory after : Memory} {scopes : List Nat}
  {frames : List Frame}

theorem ShowsFrames.congr (shows : ShowsFrames context memory scopes frames)
    (same : ∀ scope ∈ scopes, ∀ name,
      (other.latest? scope name).isSome = (context.latest? scope name).isSome ∧
        after (VariableName.declared scope name).spelling =
          memory (VariableName.declared scope name).spelling) :
    ShowsFrames other after scopes frames := by
  induction scopes generalizing frames with
  | nil => cases frames <;> exact shows
  | cons scope scopes induction =>
      cases frames with
      | nil => exact shows
      | cons frame frames =>
          refine ⟨fun name => ?_, induction shows.2 fun scope member => same scope (by simp [member])⟩
          obtain ⟨sameName, sameCell⟩ := same scope (by simp) name
          have here := shows.1 name
          rw [← sameCell] at here
          cases latest : context.latest? scope name <;>
            cases otherLatest : other.latest? scope name <;>
            simp only [latest, otherLatest, Option.isSome_none, Option.isSome_some,
              reduceCtorEq] at here sameName <;>
            exact here

theorem set_other {block scope : Nat} {text name : String} (cell : Cell)
    (different : ¬(scope = block ∧ name = text)) :
    memory.set (VariableName.declared block text).spelling cell
        (VariableName.declared scope name).spelling =
      memory (VariableName.declared scope name).spelling := by
  refine if_neg fun equal => different ?_
  exact VariableName.spelling_injective equal

theorem innermost_head (context : Context) :
    ∃ outer, context.scopes = context.innermost :: outer := by
  unfold Context.scopes Context.innermost
  cases context.enclosing with
  | nil => exact ⟨[], rfl⟩
  | cons scope outer => exact ⟨outer ++ [0], rfl⟩

/-- A variable that the innermost scope has already is in memory. -/
theorem ShowsFrames.innermost (shows : ShowsFrames context memory context.scopes frames)
    {name : String} (known : (context.latest? context.innermost name).isSome = true) :
    ∃ value, memory (VariableName.declared context.innermost name).spelling =
      some ⟨.int, value⟩ := by
  obtain ⟨outer, scopes⟩ := innermost_head context
  rw [scopes] at shows
  cases frames with
  | nil => exact shows.elim
  | cons frame frames =>
      have here := shows.1 name
      cases latest : context.latest? context.innermost name with
      | none => simp [latest] at known
      | some declaration =>
          simp only [latest] at here
          obtain ⟨value, _, stored⟩ := here
          exact ⟨value, stored⟩

theorem ShowsFrames.declare (shows : ShowsFrames context memory context.scopes frames)
    (ordered : context.Ordered) (role : Role) (isVariable : role.isVariable = true) (name : Tree)
    (value : Int) :
    ShowsFrames (context.declare role name)
      (memory.set (VariableName.declared context.innermost name.text).spelling ⟨.int, value⟩)
      context.scopes (Source.declare name.text value frames) := by
  have here : context.scopeOf role = context.innermost := by
    cases role <;> first | rfl | contradiction
  obtain ⟨outer, scopes⟩ := innermost_head context
  have nested := ordered.nested
  rw [scopes] at shows nested ⊢
  cases frames with
  | nil => exact shows.elim
  | cons frame frames =>
      refine ⟨fun sought => ?_, shows.2.congr fun scope member sought => ?_⟩
      · rw [context.latest?_declare, here]
        by_cases same : sought = name.text
        · simp [same, Memory.set]
        · have before := shows.1 sought
          rw [if_neg fun both => same both.1, List.lookup_cons, beq_eq_false_iff_ne.mpr same,
            set_other _ fun both => same both.2]
          exact before
      · have less := (List.pairwise_cons.mp nested).1 scope member
        have different : scope ≠ context.innermost := by omega
        rw [context.latest?_declare, here, if_neg fun both => different both.2]
        exact ⟨rfl, set_other _ fun both => different both.1⟩

theorem ShowsFrames.assign (shows : ShowsFrames context memory scopes frames)
    (nested : scopes.Pairwise (· > ·)) {name : String} {meant : Declaration}
    (found : scopes.findSome? (fun scope => context.latest? scope name) = some meant)
    (value : Int) :
    ∃ changed, Source.assign name value frames = some changed ∧
      ShowsFrames context
        (memory.set (VariableName.declared meant.scope name).spelling ⟨.int, value⟩)
        scopes changed := by
  induction scopes generalizing frames with
  | nil => simp at found
  | cons scope scopes induction =>
      cases frames with
      | nil => exact shows.elim
      | cons frame frames =>
          have here := shows.1 name
          have inner := List.pairwise_cons.mp nested
          rw [List.findSome?_cons] at found
          cases latest : context.latest? scope name with
          | none =>
              simp only [latest] at here found
              obtain ⟨changed, assigned, showsChanged⟩ := induction shows.2 inner.2 found
              have outside : meant.scope ∈ scopes := by
                obtain ⟨outer, member, foundOuter⟩ := List.exists_of_findSome?_eq_some found
                rwa [scope_of_latest? foundOuter]
              refine ⟨frame :: changed, by simp [Source.assign, here, assigned], ?_, showsChanged⟩
              intro sought
              have different : ¬(scope = meant.scope ∧ sought = name) := by
                have less := inner.1 _ outside
                omega
              rw [set_other _ different]
              exact shows.1 sought
          | some declaration =>
              simp only [latest, Option.some.injEq] at here found
              subst found
              obtain ⟨old, looked, stored⟩ := here
              rw [scope_of_latest? latest]
              refine ⟨((name, value) :: frame) :: frames, by simp [Source.assign, looked], ?_,
                shows.2.congr fun outer member sought => ⟨rfl, ?_⟩⟩
              · intro sought
                by_cases same : sought = name
                · simp [same, latest, Memory.set]
                · have before := shows.1 sought
                  rw [List.lookup_cons, beq_eq_false_iff_ne.mpr same,
                    set_other _ fun both => same both.2]
                  exact before
              · have less := inner.1 outer member
                exact set_other _ (by omega)

end

/-! ## What straight code leaves alone -/

def KeepsBut (first limit : Nat) (before after : Memory) : Prop :=
  ∀ name, (∀ held : Temporary, first ≤ held.number → held.number < limit →
    name ≠ held.spelling) → after name = before name

namespace KeepsBut

variable {first middle limit : Nat} {before between after : Memory}

theorem refl (first limit : Nat) (memory : Memory) : KeepsBut first limit memory memory :=
  fun _ _ => rfl

theorem trans (one : KeepsBut first middle before between)
    (other : KeepsBut middle limit between after) (low : first ≤ middle) (high : middle ≤ limit) :
    KeepsBut first limit before after := by
  intro name different
  rw [other name fun held from_ below => different held (Nat.le_trans low from_) below,
    one name fun held from_ below => different held from_ (Nat.lt_of_lt_of_le below high)]

theorem set (memory : Memory) (held : Temporary) (cell : Cell) :
    KeepsBut held.number (held.number + 1) memory (memory.set held.spelling cell) := by
  intro name different
  have other := different held (Nat.le_refl _) (Nat.lt_succ_self _)
  simp [Memory.set, other]

theorem variable_eq (keeps : KeepsBut first limit before after) (name : VariableName) :
    after name.spelling = before name.spelling :=
  keeps _ fun held _ _ => name.spelling_ne_temporary held

theorem temporary_eq (keeps : KeepsBut first limit before after) {held : Temporary}
    (earlier : held.number < first) : after held.spelling = before held.spelling := by
  refine keeps _ fun other low _ equal => ?_
  rw [Temporary.spelling_injective equal] at earlier
  omega

theorem showsFrames (keeps : KeepsBut first limit before after) {context : Context}
    {scopes : List Nat} {frames : List Frame} (shows : ShowsFrames context before scopes frames) :
    ShowsFrames context after scopes frames := by
  induction scopes generalizing frames with
  | nil => cases frames <;> exact shows
  | cons scope scopes induction =>
      cases frames with
      | nil => exact shows
      | cons frame frames =>
          refine ⟨fun name => ?_, induction shows.2⟩
          have here := shows.1 name
          cases latest : context.latest? scope name <;>
            simpa [latest, keeps.variable_eq] using here

end KeepsBut

/-! ## The whole memory -/

structure Matches (names : List String) (context : Context) (frames : List Frame)
    (memory : Memory) : Prop where
  frames : ShowsFrames context memory context.scopes frames
  file : ∀ name ∈ names, ∃ value,
    memory (VariableName.declared 0 name).spelling = some ⟨.int, value⟩

end OcLang.Oil
