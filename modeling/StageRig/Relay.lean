/-
  StageRig.Relay — the stages that can be generated around a tested shader.

  A relay is a pass-through stage: it declares the interface that the tested shader
  expects of its neighbour and does nothing else worth mentioning. `Relay.plan?` says
  which relays complete a pipeline and which of the tested shader's variable lists each
  of them mirrors.
-/

import StageRig.Stage

namespace StageRig

inductive Relay where
  | vertex
  | tessControl
  | tessEval
  deriving DecidableEq, Repr

namespace Relay

def all : List Relay := [vertex, tessControl, tessEval]

def stage : Relay → Stage
  | vertex => .vertex
  | tessControl => .tessControl
  | tessEval => .tessEval

/-- Relays before the tested shader write what it reads; the one behind it reads what it writes. -/
def qualifier : Relay → String
  | vertex | tessControl => "out"
  | tessEval => "in"

def stageLayout? : Relay → Option String
  | vertex => none
  | tessControl => some "layout(vertices = 3) out;"
  | tessEval => some "layout(triangles, equal_spacing, cw) in;"

/-- Whether the variables of the relay are arrays over the vertices of a patch. -/
def perVertex : Relay → Bool
  | vertex => false
  | tessControl | tessEval => true

/-- The statements of the main function. -/
def statements : Relay → List String
  | vertex => ["gl_Position = vec4(1.0);"]
  | tessControl =>
    [ "gl_TessLevelOuter[0] = 1.0;",
      "gl_TessLevelOuter[1] = 1.0;",
      "gl_TessLevelOuter[2] = 1.0;",
      "gl_TessLevelInner[0] = 1.0;",
      "gl_out[gl_InvocationID].gl_Position = gl_in[gl_InvocationID].gl_Position;" ]
  | tessEval => ["gl_Position = gl_in[0].gl_Position;"]

/-- The variable list of the tested shader that a relay mirrors. -/
inductive Mirror where
  | inputs
  | outputs
  | nothing
  deriving DecidableEq, Repr

structure Part where
  relay : Relay
  mirror : Mirror
  deriving DecidableEq, Repr

/-- The relays that complete a pipeline around a stage, or `none` for a stage that no relays complete. -/
def plan? : Stage → Option (List Part)
  | .vertex | .compute => some []
  | .fragment | .geometry => some [⟨vertex, .inputs⟩]
  | .tessControl => some [⟨vertex, .inputs⟩, ⟨tessEval, .outputs⟩]
  | .tessEval => some [⟨vertex, .nothing⟩, ⟨tessControl, .inputs⟩]
  | .other => none

end Relay

/-- The stages whose inputs are arrays over the vertices of a primitive or patch. -/
def Stage.hasPerVertexInputs : Stage → Bool
  | .geometry | .tessControl | .tessEval => true
  | .vertex | .fragment | .compute | .other => false

end StageRig
