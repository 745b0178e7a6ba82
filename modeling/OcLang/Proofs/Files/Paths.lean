import OcLang.Files.Store
import Mathlib.Data.List.Basic

namespace OcLang

namespace Path

/-! # Names inside directories

A path is walked by its parts that are not empty. Joining a name to the path of a directory
adds one of them, whether or not a slash stands at the end. -/

def names (path : String) : List Part :=
  (parts path.toList).filter (!·.isEmpty)

section

open FileStore

end

end Path

end OcLang
