import OcLang.Proofs.Analysis.Invariant

namespace OcLang

open Check

/-! # Strict steps and the steps that they mirror

A strict step that goes through ends like the other one. The steps of the
analysis are taken side by side here, one rule for each. -/

/-- The state after some steps. Scopes that were opened have been closed. -/
structure Proceeds (pending : Nat) (before after : AnalysisState) : Prop where
  sound : after.IsSound pending
  grows : Grows before.symbols after.symbols
  blocks : after.scopes.inner.map (·.block) = before.scopes.inner.map (·.block)
  fault : after.fault = before.fault

theorem Grows.size_le {first second : Array Symbol} (grows : Grows first second) :
    first.size ≤ second.size := by
  apply Nat.not_lt.mp
  intro shorter
  have stored := grows _ _ (Array.getElem?_eq_getElem shorter)
  simp at stored

namespace Proceeds

variable {pending later : Nat} {before middle after : AnalysisState}

theorem refl (sound : before.IsSound pending) : Proceeds pending before before :=
  ⟨sound, .refl _, rfl, rfl⟩

theorem trans (first : Proceeds pending before middle) (second : Proceeds later middle after) :
    Proceeds later before after where
  sound := second.sound
  grows := first.grows.trans second.grows
  blocks := second.blocks.trans first.blocks
  fault := second.fault.trans first.fault

theorem reporting (sound : before.IsSound pending) (problems : List Problem) :
    Proceeds pending before (before.reporting problems) :=
  ⟨sound.reporting problems, .refl _, rfl, rfl⟩

theorem currentBlock (proceeds : Proceeds pending before after) :
    after.scopes.currentBlock = before.scopes.currentBlock := by
  have head (scopes : Scopes) : scopes.currentBlock = (scopes.inner.map (·.block)).headD 0 := by
    unfold Scopes.currentBlock
    cases scopes.inner <;> rfl
  rw [head, head, proceeds.blocks]

/-- Both the scopes and the symbols of the first state are still there. -/
theorem stored (proceeds : Proceeds pending before after) {id : Nat}
    (known : id < before.symbols.size) : id < after.symbols.size :=
  Nat.lt_of_lt_of_le known proceeds.grows.size_le

end Proceeds

/-! ## Side by side -/

variable {Value Result : Type} {state : AnalysisState}

def Mirrors (strict : Strict Value) (step : Check Value) (state : AnalysisState)
    (holds : Value → AnalysisState → Prop) : Prop :=
  strict.run state = some (step.run state) ∧ Ends step state holds

namespace Mirrors

variable {strict : Strict Value} {step : Check Value} {holds : Value → AnalysisState → Prop}

theorem pure {value : Value} (here : holds value state) :
    Mirrors (pure value) (pure value) state holds :=
  ⟨rfl, here⟩

theorem bind {next : Value → Strict Result} {following : Value → Check Result}
    {holds : Result → AnalysisState → Prop}
    (first : Mirrors strict step state fun value middle =>
      Mirrors (next value) (following value) middle holds) :
    Mirrors (strict >>= next) (step >>= following) state holds := by
  rcases first with ⟨through, rest, ends⟩
  refine ⟨?_, ends⟩
  rw [StateT.run_bind, through]
  exact rest

theorem imp {weaker : Value → AnalysisState → Prop} (mirrors : Mirrors strict step state holds)
    (implies : ∀ value after, holds value after → weaker value after) :
    Mirrors strict step state weaker :=
  ⟨mirrors.1, mirrors.2.imp implies⟩

theorem get {holds : AnalysisState → AnalysisState → Prop} (here : holds state state) :
    Mirrors get get state holds :=
  ⟨rfl, here⟩

theorem inspect {next : AnalysisState → Strict Result} {step : Check Result}
    {holds : Result → AnalysisState → Prop} (rest : Mirrors (next state) step state holds) :
    Mirrors (MonadState.get >>= next) step state holds :=
  rest

theorem lift (ends : Ends step state fun value after => after.IsScoped ∧ holds value after) :
    Mirrors (liftM step) step state holds := by
  refine ⟨?_, ends.2⟩
  exact if_pos ends.1

section

variable {id : Nat} {found : Symbol} (stored : state.symbols[id]? = some found)

include stored

theorem run_symbol : (Strict.symbol id).run state = some (found, state) := by
  simp only [Strict.symbol, StateT.run_bind, StateT.run_get, Option.pure_def,
    Option.bind_eq_bind, Option.bind_some, stored, StateT.run_pure]

theorem symbol {holds : Symbol → AnalysisState → Prop} (here : holds found state) :
    Mirrors (Strict.symbol id) (Check.symbol id) state holds := by
  have same : (Check.symbol id).run state = (found, state) := by
    rw [← show state.symbol id = found by rw [AnalysisState.symbol, stored, Option.getD_some]]
    rfl
  refine ⟨(run_symbol stored).trans (by rw [same]), ?_⟩
  rw [Ends, same]
  exact here

theorem lookup {next : Symbol → Strict Value} (rest : Mirrors (next found) step state holds) :
    Mirrors (Strict.symbol id >>= next) step state holds := by
  refine ⟨?_, rest.2⟩
  rw [StateT.run_bind, run_symbol stored]
  exact rest.1

end

section

variable {pending : Nat} (sound : state.IsSound pending)

include sound

theorem quiet {reported : Value → List Problem → Prop} (reports : Reports step state reported)
    (next : ∀ value problems, reported value problems → holds value (state.reporting problems)) :
    Mirrors (liftM step) step state holds :=
  .lift (reports.ends fun value problems here =>
    ⟨(sound.reporting problems).tables, next value problems here⟩)

theorem report {problem : Problem} {holds : Unit → AnalysisState → Prop}
    (next : Proceeds pending state (state.reporting [problem]) →
      holds () (state.reporting [problem])) :
    Mirrors (liftM (report problem)) (report problem) state holds := by
  have reports : Reports (Check.report problem) state fun _ problems => problems = [problem] :=
    .report rfl
  apply quiet sound reports
  rintro _ _ rfl
  exact next (.reporting sound _)

end

end Mirrors

/-! ## The steps of the analysis -/

structure Inside (pending : Nat) (before after : AnalysisState) : Prop where
  sound : after.IsSound pending
  grows : Grows before.symbols after.symbols
  blocks : ∃ block, after.scopes.inner.map (·.block) =
    block :: before.scopes.inner.map (·.block)
  fault : after.fault = before.fault

theorem Inside.proceeds {pending later : Nat} {before middle after : AnalysisState}
    (inside : Inside pending before middle) (proceeds : Proceeds later middle after) :
    Inside later before after where
  sound := proceeds.sound
  grows := inside.grows.trans proceeds.grows
  blocks := by
    rw [proceeds.blocks]
    exact inside.blocks
  fault := proceeds.fault.trans inside.fault

theorem Proceeds.inside {pending later : Nat} {before middle after : AnalysisState}
    (proceeds : Proceeds pending before middle) (inside : Inside later middle after) :
    Inside later before after where
  sound := inside.sound
  grows := proceeds.grows.trans inside.grows
  blocks := by
    rw [← proceeds.blocks]
    exact inside.blocks
  fault := inside.fault.trans proceeds.fault

section

variable {pending : Nat} (sound : state.IsSound pending)

include sound

theorem record_mirrors (entry : LogEntry) (stored : ∀ id ∈ entry.id?, id < state.symbols.size) :
    Mirrors (liftM (record entry)) (record entry) state fun _ after =>
      Proceeds pending state after := by
  have logged := sound.logged entry stored
  exact .lift (.modify ⟨logged.tables, logged, .refl _, rfl, rfl⟩)

theorem recordSymbol_mirrors (name : String) {id : Nat} (stored : id < state.symbols.size) :
    Mirrors (liftM (recordSymbol name id)) (recordSymbol name id) state fun _ after =>
      Proceeds pending state after := by
  have logged := sound.logged (.symbol name id state.scopes.depth) (by simpa [LogEntry.id?])
  exact .lift (.bind (.get (.modify ⟨logged.tables, logged, .refl _, rfl, rfl⟩)))

theorem allocate_mirrors (remaining : Nat) {symbol : Symbol}
    (announced : ∀ id ∈ symbol.links, id < state.symbols.size + 1 + remaining)
    (enough : pending ≤ remaining + 1) :
    Mirrors (liftM (allocate symbol)) (allocate symbol) state fun id after =>
      id = state.symbols.size ∧ after.symbols[id]? = some symbol ∧
        Proceeds remaining state after := by
  have allocated := sound.allocated announced enough
  exact .lift (.modifyGet ⟨allocated.tables, rfl, Array.getElem?_push_size,
    allocated, .push _ _, rfl, rfl⟩)

theorem replacedVariable_mirrors (name : String) :
    Mirrors (Strict.replacedVariable name) (replacedVariable name) state fun replaces after =>
      after = state ∧ ∀ id ∈ replaces, id < state.symbols.size := by
  apply Mirrors.bind
  apply Mirrors.get
  cases found : state.scopes.bound? .innermost name with
  | none => exact .pure ⟨rfl, by simp⟩
  | some id =>
      rcases sound.bound?_stored found with ⟨symbol, stored⟩
      have same : state.symbol id = symbol := by
        rw [AnalysisState.symbol, stored, Option.getD_some]
      apply Mirrors.lookup stored
      rw [Option.filter_some, same]
      refine .pure ⟨rfl, ?_⟩
      split
      · rintro _ ⟨⟩
        exact (Array.getElem?_eq_some_iff.mp stored).1
      · simp

theorem declare_mirrors {target : DeclarationTarget} (name : String) {id : Nat} {symbol : Symbol}
    (stored : state.symbols[id]? = some symbol)
    (here : symbol.block = state.scopes.blockOf target) :
    Mirrors (Strict.declare target name id) (declare target name id) state fun _ after =>
      Proceeds pending state after := by
  have bound := sound.bound name stored here
  have blocks : (state.scopes.bind target name id).inner.map (·.block) =
      state.scopes.inner.map (·.block) := by
    unfold Scopes.bind
    split
    · rename_i form
      simp [form]
    · rfl
  let binding : AnalysisState := { state with scopes := state.scopes.bind target name id }
  have proceeds : Proceeds pending state binding := ⟨bound, .refl _, blocks, rfl⟩
  apply Mirrors.bind
  apply Mirrors.get
  apply Mirrors.bind
  apply Mirrors.lift
  apply Ends.set
  refine ⟨bound.tables, ?_⟩
  cases found : state.scopes.bound? target name with
  | none => exact .pure proceeds
  | some previous =>
      rcases sound.bound?_stored found with ⟨earlier, storedEarlier⟩
      have sameEarlier : state.symbol previous = earlier := by
        rw [AnalysisState.symbol, storedEarlier, Option.getD_some]
      have same : state.symbol id = symbol := by
        rw [AnalysisState.symbol, stored, Option.getD_some]
      apply Mirrors.lookup (show binding.symbols[previous]? = some earlier from storedEarlier)
      apply Mirrors.lookup (show binding.symbols[id]? = some symbol from stored)
      dsimp only
      rw [sameEarlier, same]
      split
      · exact .pure proceeds
      · exact .report bound fun reported => proceeds.trans reported

theorem enter_mirrors :
    Mirrors (liftM enter) enter state fun _ after => Inside pending state after :=
  .lift (.modify ⟨sound.entered.tables, sound.entered, .refl _, ⟨_, rfl⟩, rfl⟩)

omit sound in
theorem leave_mirrors {before : AnalysisState} (inside : Inside pending before state) :
    Mirrors Strict.leave leave state fun _ after =>
      Proceeds pending before after ∧ after.symbols = state.symbols := by
  rcases inside with ⟨sound, grows, ⟨block, blocks⟩, fault⟩
  cases form : state.scopes.inner with
  | nil => simp [form] at blocks
  | cons scope outer =>
      rw [form, List.map_cons, List.cons.injEq] at blocks
      have left := sound.left form
      have proceeds : Proceeds pending before
          { state with scopes := { state.scopes with inner := outer } } :=
        ⟨left, grows, blocks.2, fault⟩
      have exit : state.scopes.exit = .ok { state.scopes with inner := outer } := by
        simp [Scopes.exit, form]
      have mirrors : Mirrors (liftM leave) leave state fun _ after =>
          Proceeds pending before after ∧ after.symbols = state.symbols := by
        apply Mirrors.lift
        apply Ends.modify
        rw [exit]
        exact ⟨left.tables, proceeds, rfl⟩
      refine ⟨?_, mirrors.2⟩
      rw [← mirrors.1, Strict.leave, StateT.run_bind, StateT.run_get]
      simp [form]

end

end OcLang
