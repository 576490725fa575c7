/-
  StageRig.Rig — a tested shader with everything needed to run it in a pipeline.

  `Rig.build` takes a reflection to a rig: the shader's interface and a generated source
  for each relay of the plan. A shader without a plan is skipped. The build fails when a
  descriptor count overflows or, later, with the first relay that has a type that
  cannot be spelled.

  `Rig.summary` is what is written down about a rig beside its sources.
-/

import StageRig.Interface
import StageRig.Relay.Source

namespace StageRig

structure GeneratedStage where
  stage : Stage
  source : String
  deriving DecidableEq, Repr

structure Rig where
  sourceName : String
  interface : Interface
  generated : List GeneratedStage

structure Summary where
  sourceName : String
  stage : Stage
  entryPoint : String
  pipelineStages : List Stage
  layout : PipelineLayout
  attachments : IndexSet
  deriving DecidableEq

/-- Why a build fails. -/
inductive BuildError where
  | countOverflow
  | spelling (e : Glsl.SpellError)
  deriving DecidableEq, Repr

def BuildError.message : BuildError → String
  | countOverflow => "attempt to multiply with overflow"
  | spelling e => e.message

def Interface.mirrored (i : Interface) : Relay.Mirror → List Slot
  | .inputs => i.inputs
  | .outputs => i.outputs
  | .nothing => []

namespace Rig

def generate (i : Interface) : List Relay.Part → Traced Glsl.SpellError (List GeneratedStage)
  | [] => pure []
  | p :: rest => do
    let source ← p.relay.source i.stage (i.mirrored p.mirror)
    let generated ← generate i rest
    pure (⟨p.relay.stage, source⟩ :: generated)

/-- Every stage of the completed pipeline, the tested one included, in pipeline order. -/
def pipelineStages (rig : Rig) : List Stage :=
  (OrderedSet.ofList (rig.interface.stage :: rig.generated.map (·.stage)) : StageSet).toList

def summary (rig : Rig) : Summary where
  sourceName := rig.sourceName
  stage := rig.interface.stage
  entryPoint := rig.interface.entryPoint
  pipelineStages := rig.pipelineStages
  layout := rig.interface.layout
  attachments := rig.interface.attachments

def skip (sourceName : String) (reason : Skip) : Traced BuildError (Except Skip Rig) := do
  Traced.note .warn s!"skipping {sourceName}: {reason.message}"
  pure (.error reason)

/-- The rig around a shader, or the reason why there is none. -/
def build (r : Reflection) : Traced BuildError (Except Skip Rig) := do
  match ← r.interface.mapError fun _ => .countOverflow with
  | .error reason => skip r.sourceName reason
  | .ok i =>
    match Relay.plan? i.stage with
    | none => skip r.sourceName (.stage i.stage)
    | some plan => do
      let generated ← (generate i plan).mapError .spelling
      Traced.note .info
        (s!"{r.sourceName} ({i.stage.label} shader): {i.inputs.length} inputs, {i.outputs.length} outputs, " ++
          s!"{i.layout.sets.length} descriptor sets, {generated.length} generated stages")
      pure (.ok ⟨r.sourceName, i, generated⟩)

end Rig

end StageRig
