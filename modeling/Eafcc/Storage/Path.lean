import Eafcc.Text

namespace Eafcc.Storage

/-! # Paths

The parts of `std::path` that the backends and the index builder use, on Unix.
-/

abbrev Path := Str

namespace Path

def isAbsolute (path : Path) : Bool := path.head? == some '/'

/-- Joining an absolute path replaces the base. -/
def join (base path : Path) : Path :=
  if isAbsolute path then path
  else if base = [] ∨ base.getLast? = some '/' then base ++ path
  else base ++ '/' :: path

/-- What stands between the separators of a path. -/
def segments (path : Path) : List Str := path.splitOn '/'

/-- An empty or `.` segment is not a component of an absolute path. -/
def isTrivial (segment : Str) : Bool := segment == [] || segment == ['.']

def stripSegments : List Str → List Str → Option (List Str)
  | [], path => some path
  | name :: names, path =>
      match path.dropWhile isTrivial with
      | segment :: rest => if segment = name then stripSegments names rest else none
      | [] => none

def trimSegments (path : List Str) : List Str :=
  ((path.dropWhile isTrivial).reverse.dropWhile isTrivial).reverse

/-- `strip_prefix` for an absolute base given by its component names: the text
after the base without the trivial segments at its ends. -/
def stripPrefix (path : Path) (base : List Str) : Option Path :=
  if isAbsolute path then
    (stripSegments base (segments path)).map fun rest => ['/'].intercalate (trimSegments rest)
  else none

end Path

end Eafcc.Storage
