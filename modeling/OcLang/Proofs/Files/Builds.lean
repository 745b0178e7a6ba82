import OcLang.Command
import OcLang.Proofs.Files.Changes
import OcLang.Proofs.Stepwise

namespace OcLang

/-! # What a build does to files

A build first finds out what there is to write and where; nothing that goes wrong until then
leaves a trace in a file. Then it writes the outputs, one after the other. -/

section

variable (request : BuildRequest) (store : FileStore)

def BuildRequest.tree? : Option Tree :=
  (store.read request.path).toOption.bind fun text => (Tree.load text).toOption

end

structure Build where
  settings : Settings
  stem : String
  tree : Tree
  directory : String

namespace Build

variable (build : Build)

def outputs : Outputs :=
  compile build.settings.warningsAsErrors build.tree

def fileName (kind : OutputKind) : String :=
  build.stem ++ "." ++ kind.name

def target (kind : OutputKind) : String :=
  Path.join build.directory (build.fileName kind)

structure Writes (kind : OutputKind) (text : String) : Prop where
  wanted : kind ∈ build.settings.emit
  given : build.outputs.get? kind = some text

end Build

namespace Command

variable {store : FileStore}

end Command

/-! ## The whole command -/

end OcLang
