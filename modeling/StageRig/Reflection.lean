/-
  StageRig.Reflection — what a reflector reports about one shader module.

  Nothing is filtered here: built-in variables are in the lists, and one pair of set
  and binding may occur several times.
-/

import StageRig.Stage
import StageRig.TypeTree

namespace StageRig

structure EntryPoint where
  name : String
  stage : Stage
  deriving DecidableEq, Repr

/-- One input or output variable. -/
structure Slot where
  name : String := ""
  location : UInt32
  component? : Option UInt32 := none
  /-- The built-in the variable is tagged as. Aggregates of built-ins are not always tagged. -/
  builtIn? : Option String := none
  format : Format := .undefined
  type? : Option TypeTree := none
  deriving Repr

/-- What a descriptor describes; the order is the order of the device's constants. -/
inductive DescriptorKind where
  | sampler
  | combinedImageSampler
  | sampledImage
  | storageImage
  | uniformTexelBuffer
  | storageTexelBuffer
  | uniformBuffer
  | storageBuffer
  | uniformBufferDynamic
  | storageBufferDynamic
  | inputAttachment
  | accelerationStructure
  deriving DecidableEq, Repr

structure Binding where
  name : String := ""
  set : UInt32
  binding : UInt32
  kind : DescriptorKind
  /-- One entry an array dimension, none for a binding that is no array. -/
  dims : List UInt32 := []
  attachmentIndex? : Option UInt32 := none
  deriving DecidableEq, Repr

structure PushBlock where
  name : String := ""
  offset : UInt32
  size : UInt32
  deriving DecidableEq, Repr

structure Reflection where
  sourceName : String
  /-- The stage of the module, which need not be that of an entry point. -/
  stage : Stage
  entryPoints : List EntryPoint
  inputs : List Slot := []
  outputs : List Slot := []
  bindings : List Binding := []
  pushBlocks : List PushBlock := []
  deriving Repr

/-- The names that mark built-ins start with this. -/
def builtInStem : String := "gl_"

/-- A variable is built in when it is tagged as a built-in or named like one. -/
def Slot.isBuiltIn (s : Slot) : Bool := s.builtIn?.isSome || builtInStem.toList.isPrefixOf s.name.toList

end StageRig
