/-
  StageRig.Main — the command line.
-/

import StageRig.CommandLine

/-- Writes the generated files to disk and prints their paths; warnings go to standard error. -/
def main (args : List String) : IO UInt32 := do
  match StageRig.Invocation.ofArguments? args with
  | none =>
    IO.eprintln StageRig.Invocation.usage
    return 2
  | some invocation =>
    let content? ← try some <$> IO.FS.readBinFile invocation.shaderPath catch _ => pure none
    let ran := invocation.run (content?.map (·.toList))
    for note in StageRig.Event.notes ran.log do
      if note.level = .warn ∨ note.level = .error then
        IO.eprintln s!"{note.level.name} {note.text}"
    match ran.result with
    | .error e =>
      IO.eprintln ((e.message?).getD "the output directory cannot be made")
      return 1
    | .ok paths =>
      for path in paths do
        IO.FS.createDirAll invocation.outputDir
        if let .ok content := ran.tree.load path then
          IO.FS.writeBinFile path content.toByteArray
        IO.println path
      return 0
