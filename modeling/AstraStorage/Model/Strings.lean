import Mathlib.Data.List.DropRight

/-!
# String functions

The functions of Go's `strings` package that the metadata service calls, on the characters
of a string.
-/

namespace AstraStorage

/-- `strings.HasPrefix`. -/
def hasPrefix (s pre : String) : Bool := pre.toList.isPrefixOf s.toList

/-- `strings.TrimPrefix`. -/
def trimPrefix (s pre : String) : String :=
  if hasPrefix s pre then String.ofList (s.toList.drop pre.toList.length) else s

/-- `strings.TrimRight(s, "/")`. -/
def trimRightSlash (s : String) : String := String.ofList (s.toList.rdropWhile (· == '/'))

/-- `s[:strings.LastIndex(s, "/")]`; without a slash the index is -1 and the slice panics. -/
def beforeLastSlash (s : String) : Option String :=
  let upTo := s.toList.rdropWhile (· != '/')
  if upTo = [] then none else some (String.ofList upTo.dropLast)

/-- `unicode.IsSpace`. -/
def isSpace (c : Char) : Bool :=
  let n := c.toNat
  (9 ≤ n && n ≤ 13) || n == 0x20 || n == 0x85 || n == 0xA0 || n == 0x1680 ||
    (0x2000 ≤ n && n ≤ 0x200A) || n == 0x2028 || n == 0x2029 || n == 0x202F || n == 0x205F ||
    n == 0x3000

/-- `strings.TrimSpace`. -/
def trimSpace (s : String) : String :=
  String.ofList ((s.toList.dropWhile isSpace).rdropWhile isSpace)

end AstraStorage
