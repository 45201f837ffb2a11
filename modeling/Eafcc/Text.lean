import Mathlib

namespace Eafcc

/-- Text is a sequence of Unicode scalar values, as in the source's strings. -/
abbrev Str := List Char

end Eafcc
