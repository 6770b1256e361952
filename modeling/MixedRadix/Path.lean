/-!
# Paths

Paths are texts whose components are separated by slashes. Repeated slashes and components `.`
inside or at the end of a path mean nothing; a leading slash or a leading `.` is a component of its
own.
-/

namespace MixedRadix.Path

/-- Whether a path starts at the root. -/
def isAbsolute (path : String) : Bool :=
  path.startsWith "/"

/-- The pieces of a text with one more character in front. -/
def consPiece (c : Char) : List (List Char) → List (List Char)
  | [] => [[c]]
  | p :: ps => if c = '/' then [] :: p :: ps else (c :: p) :: ps

/-- The pieces of a text between its slashes. -/
def pieces (text : List Char) : List (List Char) :=
  text.foldr consPiece [[]]

/-- A leading `/` or `.`, and what follows it. -/
def splitStart : List Char → List Char × List Char
  | '/' :: rest => (['/'], rest)
  | ['.'] => (['.'], [])
  | '.' :: '/' :: rest => (['.'], '/' :: rest)
  | path => ([], path)

/-- Leaves out the pieces at the end that mean nothing. -/
def trimEnd (ps : List (List Char)) : List (List Char) :=
  (ps.reverse.dropWhile fun p => p == [] || p == ['.']).reverse

/-- The path without its last component. The root and the empty path have none. -/
def parent? (path : String) : Option String :=
  let (start, body) := splitStart path.toList
  match trimEnd (pieces body) with
  | [] => if start = ['.'] then some "" else none
  | ps =>
    let kept := trimEnd ps.dropLast
    some (String.ofList (start ++ ['/'].intercalate kept))

/-- A relative path taken from a directory. -/
def join (base path : String) : String :=
  if base.isEmpty then path
  else if base.endsWith "/" then base ++ path
  else base ++ "/" ++ path

end MixedRadix.Path
