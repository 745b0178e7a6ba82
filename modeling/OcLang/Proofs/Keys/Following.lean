import OcLang.Proofs.Keys.Walk
import OcLang.Proofs.Stepwise
import OcLang.Proofs.Suggestions

namespace OcLang

/-! # Following the analysis on keys

The analysis of keys takes the same steps as the analysis of texts. Where one
keeps a text the other keeps its key, and both report the same. -/

theorem Naming.key_injective (names : Naming) : Function.Injective names.key :=
  Function.LeftInverse.injective names.text_key

namespace Keyed

open Check

variable {names : Naming}

/-! ## Steps in parallel -/

section

variable {Value Result : Type}

def Follows (names : Naming) (rename : Value → Value) (keyed plain : Check Value)
    (state : AnalysisState) : Prop :=
  keyed.run (state.respell names.key) =
    (rename (plain.run state).1, (plain.run state).2.respell names.key)

namespace Follows

variable {rename : Value → Value} {finish : Result → Result} {state : AnalysisState}

theorem pure {value renamed : Value} (same : renamed = rename value) :
    Follows names rename (pure renamed) (pure value) state :=
  congrArg (·, state.respell names.key) same

theorem bind {keyed plain : Check Value} {keyedNext plainNext : Value → Check Result}
    (first : Follows names rename keyed plain state)
    (next : ∀ value after,
      Follows names finish (keyedNext (rename value)) (plainNext value) after) :
    Follows names finish (keyed >>= keyedNext) (plain >>= plainNext) state := by
  rw [Follows, run_bind, first, run_bind]
  exact next _ _

theorem get {keyedNext plainNext : AnalysisState → Check Result}
    (next : Follows names finish (keyedNext (state.respell names.key)) (plainNext state) state) :
    Follows names finish (get >>= keyedNext) (get >>= plainNext) state :=
  next

theorem set {renamed : AnalysisState} (new : AnalysisState)
    (same : renamed = new.respell names.key) :
    Follows names id (set renamed) (set new) state :=
  congrArg (PUnit.unit, ·) same

theorem modify {keyed plain : AnalysisState → AnalysisState}
    (same : keyed (state.respell names.key) = (plain state).respell names.key) :
    Follows names id (modify keyed) (modify plain) state :=
  congrArg (PUnit.unit, ·) same

theorem modifyGet {keyed plain : AnalysisState → Value × AnalysisState}
    (same : keyed (state.respell names.key) =
      (rename (plain state).1, (plain state).2.respell names.key)) :
    Follows names rename (modifyGet keyed) (modifyGet plain) state :=
  same

theorem ite {condition : Prop} [Decidable condition] {keyed other plain others : Check Value}
    (holds : condition → Follows names rename keyed plain state)
    (fails : ¬ condition → Follows names rename other others state) :
    Follows names rename (if condition then keyed else other)
      (if condition then plain else others) state := by
  by_cases given : condition
  · simpa only [given, if_true] using holds given
  · simpa only [given, if_false] using fails given

theorem forM {Item : Type} {change : Item → Item} {keyed plain : Item → Check PUnit}
    (items : List Item)
    (each : ∀ item after, Follows names id (keyed (change item)) (plain item) after) :
    Follows names id ((items.map change).forM keyed) (items.forM plain) state := by
  induction items generalizing state with
  | nil => exact .pure rfl
  | cons item rest induction => exact (each item state).bind fun _ _ => induction

end Follows

end

/-! ## Names and types -/

section

variable (state : AnalysisState)

theorem report_follows (problem : Problem) :
    Follows names id (report problem) (report problem) state := rfl

theorem Follows.reported {state : AnalysisState} {Value : Type} {rename : Value → Value}
    {value renamed : Value} (problem : Problem) (same : renamed = rename value) :
    Follows names rename (do report problem; return renamed) (do report problem; return value)
      state :=
  (report_follows state problem).bind fun _ _ => .pure same

theorem malformed_follows (kind : Kind) (place : Location) :
    Follows names id (malformed kind place) (malformed kind place) state := rfl

theorem symbol_follows (id : Nat) :
    Follows names (Symbol.respell names.key) (symbol id) (symbol id) state :=
  congrArg (·, state.respell names.key) (state.symbol_respell names.key id)

/-- Names that are listed in another order and seen through their keys lead to
the same suggestions. -/
theorem unresolved_respell (name : String) (place : Location) (candidates : List String) :
    unresolved names (state.respell names.key) (names.key name) place
        (candidates.map names.key) =
      .unresolvedName place name (Spelling.suggestions name candidates) := by
  rw [unresolved, names.text_key]
  congr 1
  refine Spelling.suggestions_congr name fun candidate => ?_
  simp [(names.order_perm _ _).mem_iff, names.text_key]

theorem lookup_respell (name : String) (place : Location) :
    lookup names (state.respell names.key) (names.key name) place =
      state.scopes.lookup name place := by
  rw [lookup, AnalysisState.scopes_respell, Scopes.find?_respell names.key_injective]
  cases found : state.scopes.find? name with
  | some id => exact (Scopes.lookup_of_found found place).symm
  | none =>
      rw [Scopes.lookup_of_missing found, Scopes.visibleNames_respell]
      exact congrArg Except.error (unresolved_respell state name place _)

theorem lookupGlobal_respell (name : String) (place : Location) :
    lookupGlobal names (state.respell names.key) (names.key name) place =
      state.scopes.lookupGlobal name place := by
  have global : (state.respell names.key).scopes.globals =
      state.scopes.globals.respell names.key := rfl
  rw [lookupGlobal, global, Table.find?_respell names.key_injective, Table.names_respell]
  cases found : state.scopes.globals.find? name with
  | some id => exact (Scopes.lookupGlobal_of_found found place).symm
  | none =>
      rw [Scopes.lookupGlobal_of_missing found]
      exact congrArg Except.error (unresolved_respell state name place _)

@[simp] theorem describe_respell (type : ValueType) :
    describe names (type.respell names.key) = type.describe := by
  rw [describe, type.respell_respell names.text_key]

theorem declaredType_follows (enclosing : Option String) (declarator : Tree) :
    Follows names (ValueType.respell names.key)
      (declaredType names (enclosing.map names.key) (declarator.respell names.key))
      (Check.declaredType enclosing declarator) state := by
  -- The array mark is looked at last, whatever the base type is.
  have marked : ∀ (base : ValueType) (after : AnalysisState),
      Follows names (ValueType.respell names.key)
        (if declarator.hasArrayMark then
          return { base.respell names.key with
            flags := { (base.respell names.key).flags with array := true } }
          else return base.respell names.key)
        (if declarator.hasArrayMark then
          return { base with flags := { base.flags with array := true } }
          else return base) after :=
    fun base after => .ite (fun _ => .pure rfl) fun _ => .pure rfl
  unfold declaredType Check.declaredType
  simp only [Tree.kind_respell, Tree.hasArrayMark_respell, Tree.text_respell,
    Tree.location_respell, names.text_key]
  cases declarator.kind with
  | type what =>
      cases what with
      | named =>
          have known : ((enclosing.map names.key == some (names.key declarator.text)) ||
              ((state.respell names.key).structs.find? (names.key declarator.text)).isSome) =
              (enclosing == some declarator.text ||
                (state.structs.find? declarator.text).isSome) := by
            rw [← Option.map_some, map_beq_map names.key_injective,
              AnalysisState.structs_respell, Table.find?_respell names.key_injective]
          refine .get ?_
          rw [known]
          refine .ite (fun _ => ?_) fun _ => .bind (report_follows _ _) fun _ after => ?_
          all_goals exact marked { flags := { struct := true }, structName := declarator.text } _
      | void => exact marked { flags := { void := true } } state
      | int | char | bool => exact marked { flags := { int := true } } state
      | string => exact marked { flags := { string := true } } state
  | _ => exact (malformed_follows _ _ _).bind fun _ after => marked {} after

variable (context : String)

theorem requireCompatible_follows (expected : ValueType) (value : Tree) :
    Follows names id
      (requireCompatible names context (expected.respell names.key) (value.respell names.key))
      (Check.requireCompatible context expected value) state := by
  unfold requireCompatible Check.requireCompatible
  simp only [Tree.note_respell, Tree.location_respell, Note.isTyped_respell, Note.type_respell,
    ValueType.isTyped_respell, ValueType.compatible_respell names.key_injective, describe_respell]
  exact .ite (fun _ => report_follows _ _) fun _ => .pure rfl

theorem requireInteger_follows (value : Tree) :
    Follows names id (requireInteger names context (value.respell names.key))
      (Check.requireInteger context value) state := by
  unfold requireInteger Check.requireInteger
  simp only [Tree.note_respell, Tree.location_respell, Note.isTyped_respell, Note.type_respell,
    Note.attributes_respell, describe_respell]
  exact .ite (fun _ => report_follows _ _) fun _ => .pure rfl

end

end Keyed

end OcLang
