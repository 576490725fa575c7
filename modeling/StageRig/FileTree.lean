/-
  StageRig.FileTree — directories and files, and what paths do to them.

  A tree is the content of its root directory. A place is the list of names from the root
  down, and `get?` says what is there: a file, a directory, or nothing. The root is always
  a directory, and so is whatever has something below it (`get?_parent`). `set` puts a
  file or an empty directory at one place and changes no other (`get?_set`). Relative
  paths start at the root.

  `makeDirs` makes the missing directories along a path, from the left, and keeps those
  that it made when it meets a file. `save` makes no directories: it fails unless
  all of those above the file are there. A path whose text is too long does nothing.
-/

import StageRig.Path
import StageRig.Text.Utf8

namespace StageRig

/-- The names from the root down. -/
abbrev Place := List (List Char)

/-- What is in a directory, one name after another. A name counts where it first stands. -/
inductive FileTree where
  | empty
  | file (name : List Char) (content : List UInt8) (rest : FileTree)
  | directory (name : List Char) (inside rest : FileTree)
  deriving DecidableEq, Repr

/-- Why the file system refuses. -/
inductive FileError where
  | missing
  | notDirectory
  | isDirectory
  | nulInPath
  | nameTooLong
  | pathTooLong
  deriving DecidableEq, Repr

/-- What is said of an error that no system call is needed for; the others have the system's words. -/
def FileError.message? : FileError → Option String
  | nulInPath => some "file name contained an unexpected NUL byte"
  | missing | notDirectory | isDirectory | nameTooLong | pathTooLong => none

namespace FileTree

/-! ## Places -/

/-- What is at a place. -/
inductive Entry where
  | directory
  | file (content : List UInt8)
  deriving DecidableEq, Repr

def get? : FileTree → Place → Option Entry
  | _, [] => some .directory
  | .empty, _ :: _ => none
  | .file m content rest, n :: p =>
    if n ≠ m then rest.get? (n :: p)
    else if p = [] then some (.file content)
    else none
  | .directory m inside rest, n :: p => if n ≠ m then rest.get? (n :: p) else inside.get? p

/-- An entry under a name, before the rest of a directory. -/
def Entry.named (n : List Char) : Entry → FileTree → FileTree
  | .file content, rest => .file n content rest
  | .directory, rest => .directory n .empty rest

/-- Puts an entry at a place in a directory that is there. A directory in that place stays as it is. -/
def set : FileTree → Place → Entry → FileTree
  | t, [], _ => t
  | .empty, [n], e => e.named n .empty
  | .empty, _ :: _ :: _, _ => .empty
  | .file m content rest, n :: p, e =>
    if n ≠ m then .file m content (rest.set (n :: p) e)
    else if p = [] then e.named n rest
    else .file m content rest
  | .directory m inside rest, n :: p, e =>
    if n ≠ m then .directory m inside (rest.set (n :: p) e)
    else .directory m (inside.set p e) rest

/-- The entries of all places below the root, a directory before what is in it. -/
def toList : FileTree → List (Place × Entry)
  | .empty => []
  | .file n content rest => ([n], .file content) :: rest.toList
  | .directory n inside rest =>
    ([n], .directory) :: inside.toList.map (fun (p, e) => (n :: p, e)) ++ rest.toList

@[simp] theorem get?_nil (t : FileTree) : t.get? [] = some .directory := by
  cases t <;> rfl

/-- What has something in it is a directory. -/
theorem get?_parent {t : FileTree} {p : Place} {n : List Char} (h : t.get? (p ++ [n]) ≠ none) :
    t.get? p = some .directory := by
  induction t generalizing p with
  | empty => cases p <;> simp [get?] at h ⊢
  | file m c rest ih =>
    cases p with
    | nil => rfl
    | cons a p =>
      by_cases ha : a = m
      · simp [get?, ha] at h
      · simp only [List.cons_append, get?, ne_eq, ha, not_false_eq_true, if_true] at h ⊢
        exact ih h
  | directory m inside rest ihInside ihRest =>
    cases p with
    | nil => rfl
    | cons a p =>
      by_cases ha : a = m
      · simp only [List.cons_append, get?, ne_eq, ha, not_true_eq_false, if_false] at h ⊢
        exact ihInside h
      · simp only [List.cons_append, get?, ne_eq, ha, not_false_eq_true, if_true] at h ⊢
        exact ihRest h

theorem get?_dropLast {t : FileTree} {p : Place} (h : t.get? p = some .directory) :
    t.get? p.dropLast = some .directory := by
  rcases List.eq_nil_or_concat p with rfl | ⟨q, n, rfl⟩
  · simp
  · rw [List.concat_eq_append] at h ⊢
    rw [List.dropLast_concat]
    exact get?_parent (n := n) (by simp [h])

theorem get?_named (n : List Char) (e : Entry) (rest : FileTree) (a : List Char) (p : Place) :
    (e.named n rest).get? (a :: p) = if a ≠ n then rest.get? (a :: p) else if p = [] then some e else none := by
  cases e <;> cases p <;> simp [Entry.named, get?]

/-- In a directory, where no directory is yet, `set` changes one place. -/
theorem get?_set {t : FileTree} {p : Place} (parent : t.get? p.dropLast = some .directory)
    (new : t.get? p ≠ some .directory) (e : Entry) (q : Place) :
    (t.set p e).get? q = if q = p then some e else t.get? q := by
  fun_induction set t p e generalizing q with
  | case1 => simp at new
  | case2 => cases q <;> grind [get?, get?_named]
  | case3 => simp [get?] at parent
  | case4 m c rest n p e hn ih =>
    have parent : rest.get? (n :: p).dropLast = some .directory := by cases p <;> simp_all [get?]
    cases q <;> grind [get?]
  | case5 => cases q <;> grind [get?, get?_named]
  | case6 m c rest n p e hn hp =>
    have : (n :: p).dropLast = n :: p.dropLast := List.dropLast_cons_of_ne_nil hp
    simp_all [get?]
  | case7 m inside rest n p e hn ih =>
    have parent : rest.get? (n :: p).dropLast = some .directory := by cases p <;> simp_all [get?]
    cases q <;> grind [get?]
  | case8 m inside rest n p e hn ih =>
    have parent : inside.get? p.dropLast = some .directory := by cases p <;> simp_all [get?]
    cases q <;> grind [get?]

/-! ## Paths -/

/-- Names have at most this many bytes. -/
def nameLimit : Nat := 255

/-- Whole paths, as they are spelled, have at most this many bytes. -/
def pathLimit : Nat := 4095

def tooLong (n : List Char) : Bool := nameLimit < (n.flatMap String.utf8EncodeChar).length

/-- Where the steps lead from a place, through directories that are there. -/
def walk (t : FileTree) (place : Place) : List Path.Part → Except FileError Place
  | [] => .ok place
  | .root :: rest => t.walk [] rest
  | .here :: rest => t.walk place rest
  | .up :: rest => t.walk place.dropLast rest
  | .name n :: rest =>
    if tooLong n then .error .nameTooLong
    else
      match t.get? (place ++ [n]) with
      | some .directory => t.walk (place ++ [n]) rest
      | some (.file _) => .error .notDirectory
      | none => .error .missing

/-- Like `walk`, making each directory that is missing. -/
def descend (t : FileTree) (place : Place) : List Path.Part → FileTree × Except FileError Place
  | [] => (t, .ok place)
  | .root :: rest => t.descend [] rest
  | .here :: rest => t.descend place rest
  | .up :: rest => t.descend place.dropLast rest
  | .name n :: rest =>
    if tooLong n then (t, .error .nameTooLong)
    else
      match t.get? (place ++ [n]) with
      | some .directory => t.descend (place ++ [n]) rest
      | some (.file _) => (t, .error .notDirectory)
      | none => (t.set (place ++ [n]) .directory).descend (place ++ [n]) rest

/-- Why a path is refused by its text alone. -/
def refusal? (path : String) : Option FileError :=
  if '\x00' ∈ path.toList then some .nulInPath
  else if pathLimit < path.utf8ByteSize then some .pathTooLong
  else none

/-- Makes a directory and those above it. A directory spelled with a final `.` has to be there already. -/
def makeDirs (t : FileTree) (path : String) : FileTree × Except FileError Unit :=
  let steps := Path.parts path
  match refusal? path with
  | some e => (t, .error e)
  | none =>
    if Path.endsHere path then
      match t.descend [] steps.dropLast with
      | (made, .error e) => (made, .error e)
      | (made, .ok _) => (made, (made.walk [] steps).map fun _ => ())
    else
      let (made, place) := t.descend [] steps
      (made, place.map fun _ => ())

/-- The place of a file, which need not be there, in a directory that is. -/
def locate (t : FileTree) (path : String) : Except FileError Place :=
  match refusal? path with
  | some e => .error e
  | none =>
    if Path.isDirectoryLike path then .error .isDirectory
    else
      match (Path.parts path).getLast? with
      | some (.name n) =>
        match t.walk [] (Path.parts path).dropLast with
        | .error e => .error e
        | .ok place => if tooLong n then .error .nameTooLong else .ok (place ++ [n])
      | _ => .error .isDirectory

def save (t : FileTree) (path : String) (content : List UInt8) : Except FileError FileTree :=
  match t.locate path with
  | .error e => .error e
  | .ok place =>
    match t.get? place with
    | some .directory => .error .isDirectory
    | some (.file _) | none => .ok (t.set place (.file content))

def load (t : FileTree) (path : String) : Except FileError (List UInt8) :=
  match t.locate path with
  | .error e => .error e
  | .ok place =>
    match t.get? place with
    | some (.file content) => .ok content
    | some .directory => .error .isDirectory
    | none => .error .missing

end FileTree

end StageRig
