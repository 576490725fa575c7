/-
  StageRig.Stage — the stages of a graphics pipeline.

  A stage has a place in the pipeline (`rank`, which also orders sets of stages), a
  name for people (`label`), a name for files and compilers (`extension`) and a bit in
  a device's stage mask (`bit`). `other` stands for every stage that none of these
  pipelines has; it has no bit, so a mask never shows it.
-/

namespace StageRig

inductive Stage where
  | vertex
  | tessControl
  | tessEval
  | geometry
  | fragment
  | compute
  | other
  deriving DecidableEq, Repr

namespace Stage

/-- Every stage, in pipeline order. -/
def all : List Stage := [vertex, tessControl, tessEval, geometry, fragment, compute, other]

def rank : Stage → Nat
  | vertex => 0
  | tessControl => 1
  | tessEval => 2
  | geometry => 3
  | fragment => 4
  | compute => 5
  | other => 6

def label : Stage → String
  | vertex => "vertex"
  | tessControl => "tessellation control"
  | tessEval => "tessellation evaluation"
  | geometry => "geometry"
  | fragment => "fragment"
  | compute => "compute"
  | other => "other"

def extension : Stage → String
  | vertex => "vert"
  | tessControl => "tesc"
  | tessEval => "tese"
  | geometry => "geom"
  | fragment => "frag"
  | compute => "comp"
  | other => "unknown"

def bit : Stage → UInt32
  | vertex => 1
  | tessControl => 2
  | tessEval => 4
  | geometry => 8
  | fragment => 16
  | compute => 32
  | other => 0

theorem rank_injective {s t : Stage} (h : s.rank = t.rank) : s = t := by
  cases s <;> cases t <;> first | rfl | (simp [rank] at h)

theorem mem_all (s : Stage) : s ∈ all := by cases s <;> decide

end Stage

end StageRig
