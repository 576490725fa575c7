/-
  StageRig.Document — the documents that rigs are read from and written to.

  `RecordName.spec` gives every record of the data model its title and its fields, in
  the order in which they are written.
-/

import StageRig.PipelineLayout
import StageRig.Schema

namespace StageRig

inductive RecordName where
  | reflection
  | entryPoint
  | slot
  | typeTree
  | scalarTraits
  | vectorTraits
  | matrixTraits
  | arrayTraits
  | binding
  | pushBlock
  | pipelineLayout
  | setLayout
  | requirement
  | pushRange
  | summary
  deriving DecidableEq, Repr

/-! ## Variants -/

def Stage.key : Stage → String
  | .vertex => "vertex"
  | .tessControl => "tessellationControl"
  | .tessEval => "tessellationEvaluation"
  | .geometry => "geometry"
  | .fragment => "fragment"
  | .compute => "compute"
  | .other => "other"

def Shape.all : List Shape := [.bool, .int, .float, .vector, .matrix, .array, .struct, .other]

def Shape.key : Shape → String
  | .bool => "bool"
  | .int => "int"
  | .float => "float"
  | .vector => "vector"
  | .matrix => "matrix"
  | .array => "array"
  | .struct => "struct"
  | .other => "other"

def Component.all : List Component := [.bool, .int, .float]

def Component.key : Component → String
  | .bool => "bool"
  | .int => "int"
  | .float => "float"

def DescriptorKind.all : List DescriptorKind :=
  [ .sampler, .combinedImageSampler, .sampledImage, .storageImage, .uniformTexelBuffer, .storageTexelBuffer,
    .uniformBuffer, .storageBuffer, .uniformBufferDynamic, .storageBufferDynamic, .inputAttachment,
    .accelerationStructure ]

def DescriptorKind.key : DescriptorKind → String
  | .sampler => "Sampler"
  | .combinedImageSampler => "CombinedImageSampler"
  | .sampledImage => "SampledImage"
  | .storageImage => "StorageImage"
  | .uniformTexelBuffer => "UniformTexelBuffer"
  | .storageTexelBuffer => "StorageTexelBuffer"
  | .uniformBuffer => "UniformBuffer"
  | .storageBuffer => "StorageBuffer"
  | .uniformBufferDynamic => "UniformBufferDynamic"
  | .storageBufferDynamic => "StorageBufferDynamic"
  | .inputAttachment => "InputAttachment"
  | .accelerationStructure => "AccelerationStructure"

/-! ## Schemas -/

namespace Schema

def stage : Schema RecordName := .variant (Stage.all.map Stage.key)
def stages : Schema RecordName := .list stage
def format : Schema RecordName := .variant (Format.all.map Format.name)
def shape : Schema RecordName := .variant (Shape.all.map Shape.key)
def component : Schema RecordName := .variant (Component.all.map Component.key)
def descriptorKind : Schema RecordName := .variant (DescriptorKind.all.map DescriptorKind.key)
def numbers : Schema RecordName := .list .number

end Schema

namespace FieldSpec

/-- A field that has to be there. -/
def need (key : String) (schema : Schema RecordName) : FieldSpec RecordName := ⟨key, schema, none, false⟩

/-- A field that may be missing and is always written. -/
def orElse (key : String) (schema : Schema RecordName) (fallback : Datum) : FieldSpec RecordName :=
  ⟨key, schema, some fallback, false⟩

/-- A field that may be null or missing and is written when it is there. -/
def maybe (key : String) (schema : Schema RecordName) : FieldSpec RecordName :=
  ⟨key, .optional schema, some .absent, true⟩

/-- A list that may be missing and is written when it is not empty. -/
def listing (key : String) (item : Schema RecordName) : FieldSpec RecordName := ⟨key, .list item, some (.list []), true⟩

end FieldSpec

namespace RecordName

open FieldSpec

def spec : RecordName → RecordSpec RecordName
  | reflection =>
    { title := "ReflectedShader"
      fields :=
        [ need "source_file_name" .text,
          need "stage" .stage,
          need "entry_points" (.list (.record entryPoint)),
          orElse "input_variables" (.list (.record slot)) (.list []),
          orElse "output_variables" (.list (.record slot)) (.list []),
          orElse "descriptor_bindings" (.list (.record binding)) (.list []),
          orElse "push_constant_blocks" (.list (.record pushBlock)) (.list []) ] }
  | entryPoint =>
    { title := "ReflectedEntryPoint"
      fields := [need "name" .text, need "stage" .stage] }
  | slot =>
    { title := "ReflectedVariable"
      fields :=
        [ orElse "name" .text (.text ""),
          need "location" .number,
          maybe "component" .number,
          maybe "built_in" .text,
          orElse "format" .format (.variant 0),
          maybe "type_description" (.record typeTree) ] }
  | typeTree =>
    { title := "TypeDescription"
      fields :=
        [ maybe "type_name" .text,
          maybe "struct_member_name" .text,
          need "kind" .shape,
          orElse "scalar" (.record scalarTraits) (.record [.absent, .number 0, .number 0]),
          orElse "vector" (.record vectorTraits) (.record [.number 0]),
          orElse "matrix" (.record matrixTraits) (.record [.number 0, .number 0]),
          orElse "array" (.record arrayTraits) (.record [.list []]),
          listing "members" (.record typeTree) ] }
  | scalarTraits =>
    { title := "ScalarTraits"
      fields := [maybe "component" .component, orElse "width" .number (.number 0), orElse "signedness" .number (.number 0)] }
  | vectorTraits =>
    { title := "VectorTraits"
      fields := [need "component_count" .number] }
  | matrixTraits =>
    { title := "MatrixTraits"
      fields := [need "column_count" .number, need "row_count" .number] }
  | arrayTraits =>
    { title := "ArrayTraits"
      fields := [orElse "dims" .numbers (.list [])] }
  | binding =>
    { title := "ReflectedDescriptorBinding"
      fields :=
        [ orElse "name" .text (.text ""),
          need "set" .number,
          need "binding" .number,
          need "descriptor_type" .descriptorKind,
          listing "array_dims" .number,
          maybe "input_attachment_index" .number ] }
  | pushBlock =>
    { title := "ReflectedPushConstantBlock"
      fields := [orElse "name" .text (.text ""), need "offset" .number, need "size" .number] }
  | pipelineLayout =>
    { title := "ReflectedPipelineLayout"
      fields :=
        [ need "descriptor_set_layouts" (.list (.record setLayout)),
          need "push_constant_ranges" (.list (.record pushRange)) ] }
  | setLayout =>
    { title := "ReflectedDescriptorSetLayout"
      fields := [need "bindings" (.list (.record requirement))] }
  | requirement =>
    { title := "DescriptorRequirement"
      fields :=
        [ need "set" .number,
          need "binding" .number,
          need "descriptor_type" .descriptorKind,
          need "descriptor_count" .number,
          need "stage_flags" .stages,
          maybe "input_attachment_index" .number ] }
  | pushRange =>
    { title := "ReflectedPushConstantRange"
      fields := [need "stage_flags" .stages, need "offset" .number, need "size" .number] }
  | summary =>
    { title := "ReflectionJson"
      fields :=
        [ need "source_file_name" .text,
          need "stage" .stage,
          need "entry_point" .text,
          need "pipeline_stages" .stages,
          need "pipeline_layout" (.record pipelineLayout),
          need "input_attachment_indices" .numbers ] }

end RecordName

end StageRig
