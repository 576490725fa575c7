/-
  StageRig.Path — paths as texts and as steps.

  A path is a text, and `parts` are the steps it takes: repeated and trailing slashes
  are no steps, and neither is a `.` anywhere but at the start of a relative path. Names
  and parents go by the steps, so that respelling a path does not change them; a parent
  is given as it was spelled. The file name is the last step when that is a name.
-/

namespace StageRig.Path

/-- One step of a path. -/
inductive Part where
  | root
  /-- The `.` that starts a relative path. -/
  | here
  | up
  | name (n : List Char)
  deriving DecidableEq, Repr

/-! ## Steps -/

/-- The texts between the slashes; there is one more than there are slashes. -/
def pieces : List Char → List (List Char)
  | [] => [[]]
  | c :: cs =>
    if c = '/' then [] :: pieces cs
    else
      match pieces cs with
      | [] => [[c]]
      | p :: ps => (c :: p) :: ps

/-- Pieces as they stand between slashes. -/
def spell : List (List Char) → List Char
  | [] => []
  | [p] => p
  | p :: ps => p ++ '/' :: spell ps

/-- What a path starts with. -/
inductive Lead where
  | root
  | here
  | nothing
  deriving DecidableEq, Repr

def Lead.text : Lead → List Char
  | .root => ['/']
  | .here => ['.']
  | .nothing => []

def Lead.parts : Lead → List Part
  | .root => [.root]
  | .here => [.here]
  | .nothing => []

/-- The start of a path and the text after it. -/
def lead : List Char → Lead × List Char
  | '/' :: rest => (.root, rest)
  | ['.'] => (.here, [])
  | '.' :: '/' :: rest => (.here, '/' :: rest)
  | path => (.nothing, path)

/-- The step of a piece after the start; empty pieces and `.` take none. -/
def step? : List Char → Option Part
  | [] | ['.'] => none
  | ['.', '.'] => some .up
  | n => some (.name n)

def parts (path : String) : List Part :=
  let (start, body) := lead path.toList
  start.parts ++ (pieces body).filterMap step?

/-- The name of the last step, if it has one. -/
def fileName? (path : String) : Option (List Char) :=
  match (parts path).getLast? with
  | some (.name n) => some n
  | _ => none

/-- The pieces up to the last one that takes a step. -/
def trimmed (ps : List (List Char)) : List (List Char) :=
  (ps.reverse.dropWhile fun p => (step? p).isNone).reverse

/-- The path without its last step, as spelled; a root and an empty path have no parent. -/
def parent? (path : String) : Option String :=
  let (start, body) := lead path.toList
  match trimmed (pieces body), start with
  | [], .here => some ""
  | [], _ => none
  | ps, _ => some (String.ofList (start.text ++ spell (trimmed ps.dropLast)))

/-- Whether the spelling asks for a directory, by a final slash or `.`. -/
def isDirectoryLike (path : String) : Bool :=
  match (pieces path.toList).getLast? with
  | some p => (step? p).isNone
  | none => true

/-- Whether the last piece that is not empty is a `.`. -/
def endsHere (path : String) : Bool := ((pieces path.toList).filter (· ≠ [])).getLast? = some ['.']

/-! ## Joining -/

/-- `path` seen from `base`. An absolute path stays as it is; an empty one adds a slash. -/
def join (base path : String) : String :=
  let slash := match base.toList.getLast? with
    | none | some '/' => []
    | some _ => ['/']
  match path.toList with
  | '/' :: _ => path
  | cs => String.ofList (base.toList ++ slash ++ cs)

/-- The segments below a directory, one after another. -/
def under (directory : String) (segments : List String) : String := segments.foldl join directory

/-! ## Naming generated files -/

/-- The file name up to its first dot; a path without a file name counts as a whole. -/
def stem (path : String) : String :=
  String.ofList (((fileName? path).getD path.toList).takeWhile (· ≠ '.'))

/-- Where generated files go when nothing else is said: next to the shader. -/
def outputDir (shaderPath : String) : String := join ((parent? shaderPath).getD "") "passthrough"

end StageRig.Path
