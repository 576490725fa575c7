/-
  StageRig.PipelineLayout — the resources that a pipeline expects.

  A layout lists descriptor sets by position, each with its requirements, and the
  push-constant ranges. `DeviceBinding` and `DeviceRange` are the same in a device's
  own numbers.
-/

import StageRig.OrderedSet
import StageRig.Reflection

namespace StageRig

/-- A set of stages, in pipeline order. -/
abbrev StageSet := OrderedSet Stage.rank

/-- A set of indices, ascending. -/
abbrev IndexSet := OrderedSet UInt32.toNat

/-- The stage mask of a device. -/
def StageSet.mask (s : StageSet) : UInt32 := s.elems.foldl (fun m stage => m ||| stage.bit) 0

structure Requirement where
  set : UInt32
  binding : UInt32
  kind : DescriptorKind
  /-- The product of the array dimensions. -/
  count : UInt32
  stages : StageSet
  attachmentIndex? : Option UInt32 := none
  deriving DecidableEq

structure SetLayout where
  bindings : List Requirement := []
  deriving DecidableEq, Inhabited

structure PushRange where
  stages : StageSet
  offset : UInt32
  size : UInt32
  deriving DecidableEq

structure PipelineLayout where
  /-- The set at position `i` has index `i`; unused sets are empty. -/
  sets : List SetLayout := []
  pushRanges : List PushRange := []
  deriving DecidableEq, Inhabited

/-! ## Device numbers -/

def DescriptorKind.code : DescriptorKind → UInt32
  | .sampler => 0
  | .combinedImageSampler => 1
  | .sampledImage => 2
  | .storageImage => 3
  | .uniformTexelBuffer => 4
  | .storageTexelBuffer => 5
  | .uniformBuffer => 6
  | .storageBuffer => 7
  | .uniformBufferDynamic => 8
  | .storageBufferDynamic => 9
  | .inputAttachment => 10
  | .accelerationStructure => 1000150000

structure DeviceBinding where
  binding : UInt32
  kind : UInt32
  count : UInt32
  stages : UInt32
  deriving DecidableEq, Repr

structure DeviceRange where
  stages : UInt32
  offset : UInt32
  size : UInt32
  deriving DecidableEq, Repr

def Requirement.toDevice (r : Requirement) : DeviceBinding := ⟨r.binding, r.kind.code, r.count, r.stages.mask⟩

def SetLayout.toDevice (s : SetLayout) : List DeviceBinding := s.bindings.map Requirement.toDevice

def PushRange.toDevice (r : PushRange) : DeviceRange := ⟨r.stages.mask, r.offset, r.size⟩

end StageRig
