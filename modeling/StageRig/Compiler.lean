/-
  StageRig.Compiler — compilers that turn a generated source into words.

  A compiler is work on the file tree: it may keep files of its own in a work directory
  that it is given. `Compiler.external` runs another program there: it writes the source
  to a file, has the program write the words to another, and reads those.
-/

import StageRig.Job
import StageRig.Spirv.Words
import StageRig.Stage

namespace StageRig

/-- Why a source is not compiled. -/
inductive CompileError where
  | workDir (e : FileError)
  | write (path : String) (e : FileError)
  /-- The program cannot be run. -/
  | run (program : String)
  /-- The program ran and refused the source. -/
  | rejected (stage : Stage) (path : String) (complaint : String)
  | output (path : String) (e : FileError)
  | words (e : Spirv.WordsError)
  /-- A compiler's own reason. -/
  | refused (reason : String)
  deriving DecidableEq, Repr

/-- What is said of an error, unless the system has the word. -/
def CompileError.message? : CompileError → Option String
  | workDir e => e.message?
  | write path _ => some s!"failed to write {path}"
  | run program => some s!"failed to run {program}"
  | rejected stage path complaint => some s!"failed to compile {stage.label} shader {path}:\n{complaint}"
  | output path _ => some s!"failed to open {path}"
  | words e => some e.message
  | refused reason => some reason

/-- From a stage, its source and a work directory to words. -/
abbrev Compiler := Stage → String → String → Job Note CompileError (List UInt32)

/-- How a program ended. -/
structure Exit where
  succeeded : Bool
  stderr : List UInt8 := []

/-- A program to run with arguments; `none` where there is no such program. -/
structure Program where
  path : String
  run : List String → FileTree → Option (FileTree × Exit)

namespace Compiler

/-- The program's work as a job. -/
def call (program : Program) (arguments : List String) : Job Note CompileError Exit := fun t =>
  match program.run arguments t with
  | none => ⟨t, [], .error (.run program.path)⟩
  | some (after, exit) => ⟨after, [], .ok exit⟩

def inputPath (stage : Stage) (workDir : String) : String := Path.join workDir s!"passthrough.{stage.extension}.glsl"

def outputPath (stage : Stage) (workDir : String) : String := Path.join workDir s!"passthrough.{stage.extension}.spv"

/-- Compiles with another program. -/
def external (program : Program) : Compiler := fun stage source workDir => do
  let input := inputPath stage workDir
  let output := outputPath stage workDir
  (Job.makeDirs workDir).mapError .workDir
  (Job.save input (Text.Utf8.encode source)).mapError (.write input)
  let exit ← call program [s!"-fshader-stage={stage.extension}", input, "-o", output]
  if exit.succeeded then
    let content ← (Job.load output).mapError (.output output)
    let words ← Job.ofExcept ((Spirv.read content).mapError .words)
    Job.report ⟨.debug, s!"compiled {stage.label} shader to {words.length} words"⟩
    pure words
  else Job.fail (.rejected stage input (Text.Utf8.decode exit.stderr))

end Compiler

end StageRig
