namespace OcLang

/-! ## Steps one after the other

The walks of the library are state transformers. These equations run them step
by step, on pairs of a result and a state. -/

section

variable {State Value Result : Type}

theorem run_bind (first : StateM State Value) (next : Value → StateM State Result)
    (state : State) :
    (first >>= next).run state = (next (first.run state).1).run (first.run state).2 := rfl

theorem run_pure (value : Value) (state : State) :
    (pure value : StateM State Value).run state = (value, state) := rfl

end

/-! A step run from a state ends with a value and a state. -/

section

variable {State Value Result : Type} {state : State}

def Ends (step : StateM State Value) (state : State) (holds : Value → State → Prop) : Prop :=
  holds (step.run state).1 (step.run state).2

namespace Ends

theorem pure {value : Value} {holds : Value → State → Prop} (here : holds value state) :
    Ends (pure value) state holds := here

theorem bind {step : StateM State Value} {next : Value → StateM State Result}
    {holds : Result → State → Prop}
    (first : Ends step state fun value middle => Ends (next value) middle holds) :
    Ends (step >>= next) state holds := first

theorem map {step : StateM State Value} {change : Value → Result}
    {holds : Result → State → Prop}
    (here : Ends step state fun value final => holds (change value) final) :
    Ends (change <$> step) state holds := here

theorem bind_of_run {step : StateM State Value} {next : Value → StateM State Result}
    {holds : Result → State → Prop} {value : Value} {middle : State}
    (ran : step.run state = (value, middle)) (rest : Ends (next value) middle holds) :
    Ends (step >>= next) state holds := by
  rw [Ends, run_bind, ran]
  exact rest

/-- What holds of the result of a step, where nothing needs to be known about it. -/
theorem run {step : StateM State Value} {holds : Value → State → Prop}
    (here : holds (step.run state).1 (step.run state).2) : Ends step state holds := here

theorem imp {step : StateM State Value} {holds weaker : Value → State → Prop}
    (strong : Ends step state holds) (implies : ∀ value final, holds value final →
      weaker value final) : Ends step state weaker :=
  implies _ _ strong

theorem and {step : StateM State Value} {holds more : Value → State → Prop}
    (first : Ends step state holds) (second : Ends step state more) :
    Ends step state fun value final => holds value final ∧ more value final :=
  ⟨first, second⟩

theorem all {Index : Sort u} {step : StateM State Value} {holds : Index → Value → State → Prop}
    (each : ∀ index, Ends step state (holds index)) :
    Ends step state fun value final => ∀ index, holds index value final := each

theorem get {holds : State → State → Prop} (here : holds state state) :
    Ends get state holds := here

theorem set {new : State} {holds : PUnit → State → Prop} (here : holds ⟨⟩ new) :
    Ends (set new) state holds := here

theorem modify {change : State → State} {holds : PUnit → State → Prop}
    (here : holds ⟨⟩ (change state)) : Ends (modify change) state holds := here

theorem modifyGet {step : State → Value × State} {holds : Value → State → Prop}
    (here : holds (step state).1 (step state).2) : Ends (modifyGet step) state holds := here

end Ends

end

end OcLang
