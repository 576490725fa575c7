/-
  StageRig.Delivery — writing what belongs to a shader's rig.

  `prepare` makes every file before the first one is written (`deliver`): the source of
  each generated stage and, when asked for, its compiled words, and a summary. So a
  shader that is skipped, cannot be generated or does not compile leaves the output
  directory as it was. Each use of the compiler is reported, beside the notes.
-/

import StageRig.Compiler
import StageRig.Document.Codec
import StageRig.Rig
import StageRig.Spirv.Module

namespace StageRig

/-- Where to deliver, and what beside the sources. -/
structure Order where
  outputDir : String
  compile : Bool
  summary : Bool
  deriving DecidableEq, Repr

/-- One use of the compiler. -/
structure Compilation where
  stage : Stage
  source : String
  workDir : String
  deriving DecidableEq, Repr

inductive Event where
  | note (n : Note)
  | compilation (c : Compilation)
  deriving DecidableEq, Repr

namespace Event

def note? : Event → Option Note
  | note n => some n
  | compilation _ => none

def compilation? : Event → Option Compilation
  | note _ => none
  | compilation c => some c

def notes (log : List Event) : List Note := log.filterMap note?

def compilations (log : List Event) : List Compilation := log.filterMap compilation?

end Event

/-- Why a delivery fails. -/
inductive DeliveryError where
  | read (path : String) (e : FileError)
  | fileName
  | reflection (e : ReflectionError)
  | build (e : BuildError)
  | compile (e : CompileError)
  | outputDir (e : FileError)
  | write (path : String) (e : FileError)
  deriving DecidableEq, Repr

/-- A file made and not yet written, by its path below the output directory. -/
structure Product where
  path : String
  content : List UInt8
  deriving DecidableEq, Repr

namespace Delivery

/-! ## Making -/

/-- One directory for all of a shader's compiler files. -/
def workDir (outputDir name : String) : String := Path.join outputDir (name ++ ".work")

def sourceFile (name : String) (g : GeneratedStage) : Product :=
  ⟨s!"{name}.{g.stage.extension}.glsl", Text.Utf8.encode g.source⟩

def wordsFile (name : String) (g : GeneratedStage) (words : List UInt32) : Product :=
  ⟨s!"{name}.{g.stage.extension}.spv", Spirv.bytes words⟩

def summaryFile (name : String) (s : Summary) : Product := ⟨name ++ ".json", Text.Utf8.encode (Codec.summary.render s)⟩

/-- The compiler's words for a stage. -/
def compileStage (compiler : Compiler) (dir : String) (g : GeneratedStage) :
    Job Event DeliveryError (List UInt32) := do
  Job.report (.compilation ⟨g.stage, g.source, dir⟩)
  (compiler g.stage g.source dir).as .note .compile

/-- The files of the stages, in order. -/
def prepareStages (order : Order) (compiler : Compiler) (name : String) :
    List GeneratedStage → Job Event DeliveryError (List Product)
  | [] => pure []
  | g :: rest => do
    let compiled ←
      if order.compile then do
        let words ← compileStage compiler (workDir order.outputDir name) g
        pure [wordsFile name g words]
      else pure []
    let others ← prepareStages order compiler name rest
    pure (sourceFile name g :: compiled ++ others)

/-- All files of a rig. -/
def prepare (order : Order) (compiler : Compiler) (rig : Rig) : Job Event DeliveryError (List Product) := do
  let name := Path.stem rig.sourceName
  let files ← prepareStages order compiler name rig.generated
  pure (files ++ if order.summary then [summaryFile name rig.summary] else [])

/-! ## Writing -/

/-- Writes a file and gives its path. -/
def write (outputDir : String) (p : Product) : Job Event DeliveryError String := do
  let path := Path.join outputDir p.path
  (Job.makeDirs outputDir).mapError .outputDir
  (Job.save path p.content).mapError (.write path)
  Job.report (.note ⟨.debug, s!"wrote {path}"⟩)
  pure path

def writeAll (outputDir : String) : List Product → Job Event DeliveryError (List String)
  | [] => pure []
  | p :: rest => do
    let path ← write outputDir p
    let paths ← writeAll outputDir rest
    pure (path :: paths)

/-! ## Delivering -/

/-- Builds the rig of a reflected shader and writes its files. The paths written are given, none for a
shader that is skipped. -/
def deliver (order : Order) (compiler : Compiler) (r : Reflection) : Job Event DeliveryError (List String) := do
  match ← (Job.ofTraced (Rig.build r)).as .note .build with
  | .error _ => pure []
  | .ok rig => do
    let files ← prepare order compiler rig
    let written ← writeAll order.outputDir files
    Job.report (.note ⟨.info, s!"wrote {written.length} files for {rig.sourceName} to {order.outputDir}"⟩)
    pure written

/-- Delivers for the compiled module in a file. -/
def deliverFile (order : Order) (compiler : Compiler) (path : String) : Job Event DeliveryError (List String) := do
  let content ← (Job.load path).mapError (.read path)
  match Path.fileName? path with
  | none => Job.fail .fileName
  | some name => do
    let reflection ← Job.ofExcept ((Spirv.reflect (String.ofList name) content).mapError .reflection)
    deliver order compiler reflection

end Delivery

/-- What is said of an error, unless the system has the word. -/
def DeliveryError.message? : DeliveryError → Option String
  | read path _ => some s!"failed to read {path}"
  | fileName => some "shader path has no file name"
  | reflection e => some e.message
  | build e => some e.message
  | compile e => e.message?
  | outputDir e => e.message?
  | write path _ => some s!"failed to write {path}"

end StageRig
