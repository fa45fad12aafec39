import Understudy.Files.DiskPath
import Understudy.Source.Tree

/-!
# Packages

A package is what the selected files of one directory declare together.
-/

set_option autoImplicit false

namespace Understudy.Modules

open Files Source

/-- A source file of a package. -/
structure PackageFile where
  path : DiskPath
  source : SourceFile

/-- The selected files of a directory. -/
structure Package where
  /-- The import path. -/
  path : String
  /-- The name in the package clauses. -/
  name : String
  directory : DiskPath
  /-- The files by increasing name. -/
  files : List PackageFile

end Understudy.Modules
