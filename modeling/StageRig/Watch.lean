/-
  StageRig.Watch — changes that a file watcher reports.

  The directory of a shader is watched, since compilers often replace a file instead of
  writing it. `Change.isEdit` tells edits from mere accesses, and `touches` finds the
  changes of the shader itself, by file name.
-/

import StageRig.Path
import StageRig.Text.Quoted
import StageRig.Traced

namespace StageRig.Watch

inductive Kind where
  | access
  | create
  | modify
  | remove
  /-- The watcher cannot tell. -/
  | any
  | other
  deriving DecidableEq, Repr

structure Change where
  kind : Kind
  paths : List String
  deriving DecidableEq, Repr

def Change.isEdit (c : Change) : Bool :=
  match c.kind with
  | .create | .modify | .remove => true
  | .access | .any | .other => false

/-- A change in full, for messages. Quote marks of both kinds are escaped in its paths. -/
def Change.shown (c : Change) (kind : String) : String :=
  let paths := ", ".intercalate (c.paths.map (Text.quoted ['"', '\'']))
  "Event \x7b kind: " ++ kind ++ ", paths: [" ++ paths ++
    "], attr:tracker: None, attr:flag: None, attr:info: None, attr:source: None \x7d"

/-- The complaint about a change of no known kind. -/
def Change.complaint? (c : Change) : Option Note :=
  match c.kind with
  | .any => some ⟨.error, "unexpected notify event: " ++ c.shown "Any"⟩
  | .other => some ⟨.error, "unexpected notify event: " ++ c.shown "Other"⟩
  | .access | .create | .modify | .remove => none

/-- Whether some change touched a path. Only file names are compared. -/
def touches (changes : List Change) (path : String) : Bool :=
  (changes.flatMap (·.paths)).any fun p => Path.fileName? p = Path.fileName? path

end StageRig.Watch
