import OcLang.Outputs
import OcLang.Toml.Read

namespace OcLang

/-! ## Build settings

Settings are read from a TOML document. Keys that are missing keep their
defaults and unknown keys are ignored. -/

structure Settings where
  emit : List OutputKind := OutputKind.all
  /-- Where outputs go; beside the input when absent. -/
  outputDirectory : Option String := none
  warningsAsErrors : Bool := false
deriving DecidableEq, Repr, Inhabited

namespace Settings

private def isEmpty : Toml → Bool
  | .array items => items.isEmpty
  | .table _ entries => entries.isEmpty
  | .tables elements => elements.isEmpty
  | _ => false

def outputKind? : Toml → Option OutputKind
  | .text name => OutputKind.ofName? name
  | .table _ [(name, value)] => if isEmpty value then OutputKind.ofName? name else none
  | _ => none

def emit? : Toml → Option (List OutputKind)
  | .array items => items.mapM outputKind?
  | .tables elements => elements.mapM fun entries => outputKind? (.table .header entries)
  | _ => none

def text? : Toml → Option String
  | .text contents => some contents
  | _ => none

def boolean? : Toml → Option Bool
  | .boolean value => some value
  | _ => none

private def valueOr {α : Type} (entries : Toml.Entries) (key : String) (read : Toml → Option α)
    (default : α) : Option α :=
  match entries.lookup key with
  | some value => read value
  | none => some default

def ofEntries? (entries : Toml.Entries) : Option Settings := do
  return {
    emit := ← valueOr entries "emit" emit? OutputKind.all
    outputDirectory := ← valueOr entries "out-dir" (fun value => some <$> text? value) none
    warningsAsErrors := ← valueOr entries "warnings-as-errors" boolean? false }

def parse? (text : String) : Option Settings := do
  ofEntries? (← Toml.read? text)

def emits (settings : Settings) (kind : OutputKind) : Bool :=
  settings.emit.contains kind

end Settings

end OcLang
