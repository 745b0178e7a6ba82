import OcLang.Command.Arguments

namespace OcLang

/-! ## The program

Commands are run on the real files of the working directory. -/

private def fileError : IO.Error → FileError
  | .noFileOrDirectory .. => .notFound
  | .alreadyExists .. => .alreadyExists
  | .inappropriateType _ code _ => if code = 21 then .isDirectory else .notDirectory
  | error => .other (toString error)

private def attempt {α : Type} (action : IO α) : IO (Except FileError α) := do
  try
    return .ok (← action)
  catch error =>
    return .error (fileError error)

instance : Files IO where
  read path := return (← attempt (IO.FS.readBinFile path)).bind fun contents =>
    match String.fromUTF8? contents with
    | some text => .ok text
    | none => .error .notText
  isFile path := return (← attempt (IO.FS.readBinFile path)).isOk
  makeDirectories path := if path.isEmpty then return .ok () else attempt (IO.FS.createDirAll path)
  write path contents := attempt (IO.FS.writeFile path contents)

def seconds (milliseconds : Nat) : String :=
  let hundredths := (milliseconds + 5) / 10
  let decimals := (hundredths % 100).repr
  (hundredths / 100).repr ++ "." ++ (if decimals.length < 2 then "0" else "") ++ decimals ++ "s"

def usage : String :=
  "usage: occ build [--out-dir DIR] [--emit ast,sym,oil] [--config FILE] " ++
    "[--warnings-as-errors] PATH\n       occ check [--warnings-as-errors] PATH\n"

end OcLang

def main (arguments : List String) : IO UInt32 := do
  match OcLang.Command.ofArguments? arguments with
  | none => do
      IO.eprint OcLang.usage
      return 2
  | some command => do
      let start ← IO.monoMsNow
      let report : OcLang.Report ← OcLang.Command.run command
      IO.print (report.output (OcLang.seconds ((← IO.monoMsNow) - start)))
      IO.eprint report.stderr
      return report.code
