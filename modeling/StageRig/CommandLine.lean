/-
  StageRig.CommandLine — delivering for a shader from the command line.

  The arguments name a compiled module and, with `-o`, the output directory;
  `--reflection-json` asks for the summary as well. Nothing is compiled here. The work
  is done on a file tree that holds the module alone, so `run` needs its content and no
  files.
-/

import StageRig.Delivery

namespace StageRig

structure Invocation where
  shaderPath : String
  outputDir? : Option String := none
  summary : Bool := false
  deriving DecidableEq, Repr

namespace Invocation

def usage : String := "usage: stagerig SHADER [-o DIR] [--reflection-json]"

/-- Takes the arguments from the left; those that are no options are the shader's path. -/
def parse (shaderPath? outputDir? : Option String) (summary : Bool) : List String → Option Invocation
  | [] => shaderPath?.map fun path => ⟨path, outputDir?, summary⟩
  | "--reflection-json" :: rest => parse shaderPath? outputDir? true rest
  | "-o" :: dir :: rest | "--out-dir" :: dir :: rest => parse shaderPath? (some dir) summary rest
  | arg :: rest =>
    match shaderPath? with
    | none => if arg.startsWith "-" then none else parse (some arg) outputDir? summary rest
    | some _ => none

/-- Reads the arguments, or gives `none` when they do not make sense. -/
def ofArguments? (args : List String) : Option Invocation := parse none none false args

def outputDir (i : Invocation) : String := i.outputDir?.getD (Path.outputDir i.shaderPath)

/-- The tree that holds the module, if it could be read, below the directories that its path names. -/
def tree (i : Invocation) (content? : Option (List UInt8)) : FileTree :=
  let made := (FileTree.empty.makeDirs ((Path.parent? i.shaderPath).getD "")).1
  match content? with
  | none => made
  | some content =>
    match made.save i.shaderPath content with
    | .ok saved => saved
    | .error _ => made

def run (i : Invocation) (content? : Option (List UInt8)) : Ran Event DeliveryError (List String) :=
  Delivery.deliverFile ⟨i.outputDir, false, i.summary⟩ (fun _ _ _ => Job.fail (.refused "no compiler")) i.shaderPath
    (i.tree content?)

end Invocation

end StageRig
