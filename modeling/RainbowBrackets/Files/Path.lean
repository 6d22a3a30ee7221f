import RainbowBrackets.Text.Blank

/-!
# Paths

Paths are text with slashes between the names.  Empty parts and single dots between slashes mean
nothing, but a slash or a single dot at the start says where the path starts.

* `Path.join`: a path seen from a directory;
* `Path.parent?`: the path without its last name.
-/

namespace RainbowBrackets.Path

/-- The path that `path` is, seen from the directory `base`. -/
def join (base path : Text) : Text :=
  if path.head? = some '/' || base = [] then path
  else if base.getLast? = some '/' then base ++ path
  else base ++ '/' :: path

/-- The parts of a path between its slashes. -/
def parts (path : Text) : List Text := path.splitOn '/'

/-- The part means nothing. -/
def isVoid (part : Text) : Bool := part = [] || part = ['.']

/-- The parts without those at the end that mean nothing. -/
def trimEnd (parts : List Text) : List Text := (parts.reverse.dropWhile isVoid).reverse

/-- Where the path starts: at the root, at the current directory by name, or there without it. -/
def start (path : Text) : Text :=
  if path.head? = some '/' then ['/']
  else if (parts path).head? = some ['.'] then ['.']
  else []

/-- The path without its last name and what stands around that.  The root has no parent, and
neither has the path without a name. -/
def parent? (path : Text) : Option Text :=
  match trimEnd (parts (path.drop (start path).length)) with
  | [] => if start path = ['.'] then some [] else none
  | names => some (start path ++ ['/'].intercalate (trimEnd names.dropLast))

end RainbowBrackets.Path
