import LineScript.Text.Basic

set_option autoImplicit false

/-!
# Paths

A path as it is shown: without empty components and without components that stay
where they are.  Two slashes in front are kept, more are one.
-/

namespace LineScript.CommandLine

/-- The slashes that a path keeps in front. -/
def pathRoot (path : Text) : Text :=
  match (path.takeWhile (· = '/')).length with
  | 0 => []
  | 2 => ['/', '/']
  | _ => ['/']

/-- The components of a path that lead somewhere. -/
def pathComponents (path : Text) : List Text :=
  (path.splitOn '/').filter fun component => component ≠ [] && component ≠ ['.']

/-- The path in its plain form. -/
def plainPath (path : Text) : Text :=
  match pathRoot path ++ ['/'].intercalate (pathComponents path) with
  | [] => ['.']
  | shown => shown

end LineScript.CommandLine
