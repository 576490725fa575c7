/-
  StageRig.Document.Codec — the data model as documents.

  A codec names the schema of a type and converts its values to data and back. Data that
  was read by the schema has the right form everywhere, so reading it back needs no
  faults of its own: where the form is another one, the conversions answer with a value
  that says nothing.

  Sets are written in order. What is read may repeat and reorder their members.
-/

import StageRig.Document
import StageRig.Rig
import StageRig.Schema.Printer
import StageRig.Schema.Reader

namespace StageRig

namespace Datum

/-! ## Data as values -/

def toNumber : Datum → UInt32
  | number n => n
  | _ => 0

def toText : Datum → String
  | text s => s
  | _ => ""

def toIndex : Datum → Nat
  | variant i => i
  | _ => 0

def toItems : Datum → List Datum
  | list ds => ds
  | _ => []

def toOption {α : Type} (f : Datum → α) : Datum → Option α
  | absent => none
  | d => some (f d)

/-- The field at a position of a record. -/
def field (d : Datum) (i : Nat) : Datum :=
  match d with
  | record ds => ds.getD i absent
  | _ => absent

/-! ## Values as data -/

def ofOption {α : Type} (f : α → Datum) : Option α → Datum
  | none => absent
  | some a => f a

end Datum

open Datum

def Stage.toDatum (s : Stage) : Datum := .variant (Stage.all.idxOf s)
def Stage.ofDatum (d : Datum) : Stage := Stage.all.getD d.toIndex .other

def Format.toDatum (f : Format) : Datum := .variant (Format.all.idxOf f)
def Format.ofDatum (d : Datum) : Format := Format.all.getD d.toIndex .undefined

def Shape.toDatum (s : Shape) : Datum := .variant (Shape.all.idxOf s)
def Shape.ofDatum (d : Datum) : Shape := Shape.all.getD d.toIndex .other

def Component.toDatum (c : Component) : Datum := .variant (Component.all.idxOf c)
def Component.ofDatum (d : Datum) : Component := Component.all.getD d.toIndex .bool

def DescriptorKind.toDatum (k : DescriptorKind) : Datum := .variant (DescriptorKind.all.idxOf k)
def DescriptorKind.ofDatum (d : Datum) : DescriptorKind := DescriptorKind.all.getD d.toIndex .sampler

def StageSet.toDatum (s : StageSet) : Datum := .list (s.elems.map Stage.toDatum)
def StageSet.ofDatum (d : Datum) : StageSet := .ofList (d.toItems.map Stage.ofDatum)

def IndexSet.toDatum (s : IndexSet) : Datum := .list (s.elems.map .number)
def IndexSet.ofDatum (d : Datum) : IndexSet := .ofList (d.toItems.map toNumber)

def EntryPoint.toDatum (e : EntryPoint) : Datum := .record [.text e.name, e.stage.toDatum]
def EntryPoint.ofDatum (d : Datum) : EntryPoint := ⟨(d.field 0).toText, .ofDatum (d.field 1)⟩

/-! ## Types -/

def ScalarTraits.toDatum (s : ScalarTraits) : Datum :=
  .record [ofOption Component.toDatum s.component?, .number s.width, .number s.signedness]

def ScalarTraits.ofDatum (d : Datum) : ScalarTraits :=
  ⟨toOption Component.ofDatum (d.field 0), (d.field 1).toNumber, (d.field 2).toNumber⟩

def MatrixTraits.toDatum (m : MatrixTraits) : Datum := .record [.number m.columns, .number m.rows]
def MatrixTraits.ofDatum (d : Datum) : MatrixTraits := ⟨(d.field 0).toNumber, (d.field 1).toNumber⟩

mutual

def TypeTree.toDatum : TypeTree → Datum
  | .node h members =>
    .record
      [ ofOption .text h.typeName?,
        ofOption .text h.memberName?,
        h.shape.toDatum,
        h.scalar.toDatum,
        .record [.number h.vectorSize],
        h.matrix.toDatum,
        .record [.list (h.dims.map .number)],
        .list (TypeTree.listToDatum members) ]

def TypeTree.listToDatum : List TypeTree → List Datum
  | [] => []
  | t :: ts => t.toDatum :: TypeTree.listToDatum ts

end

def TypeHead.ofDatum (d : Datum) : TypeHead where
  typeName? := toOption toText (d.field 0)
  memberName? := toOption toText (d.field 1)
  shape := .ofDatum (d.field 2)
  scalar := .ofDatum (d.field 3)
  vectorSize := ((d.field 4).field 0).toNumber
  matrix := .ofDatum (d.field 5)
  dims := (((d.field 6).field 0).toItems).map toNumber

mutual

def TypeTree.ofDatum : Datum → TypeTree
  | .record [a, b, c, d, e, f, g, .list ms] =>
    .node (TypeHead.ofDatum (.record [a, b, c, d, e, f, g])) (TypeTree.listOfDatum ms)
  | d => .node (TypeHead.ofDatum d) []

def TypeTree.listOfDatum : List Datum → List TypeTree
  | [] => []
  | d :: ds => TypeTree.ofDatum d :: TypeTree.listOfDatum ds

end

/-! ## Reflections -/

def Slot.toDatum (s : Slot) : Datum :=
  .record
    [ .text s.name, .number s.location, ofOption .number s.component?, ofOption .text s.builtIn?, s.format.toDatum,
      ofOption TypeTree.toDatum s.type? ]

def Slot.ofDatum (d : Datum) : Slot where
  name := (d.field 0).toText
  location := (d.field 1).toNumber
  component? := toOption toNumber (d.field 2)
  builtIn? := toOption toText (d.field 3)
  format := .ofDatum (d.field 4)
  type? := toOption TypeTree.ofDatum (d.field 5)

def Binding.toDatum (b : Binding) : Datum :=
  .record
    [ .text b.name, .number b.set, .number b.binding, b.kind.toDatum, .list (b.dims.map .number),
      ofOption .number b.attachmentIndex? ]

def Binding.ofDatum (d : Datum) : Binding where
  name := (d.field 0).toText
  set := (d.field 1).toNumber
  binding := (d.field 2).toNumber
  kind := .ofDatum (d.field 3)
  dims := (d.field 4).toItems.map toNumber
  attachmentIndex? := toOption toNumber (d.field 5)

def PushBlock.toDatum (b : PushBlock) : Datum := .record [.text b.name, .number b.offset, .number b.size]
def PushBlock.ofDatum (d : Datum) : PushBlock := ⟨(d.field 0).toText, (d.field 1).toNumber, (d.field 2).toNumber⟩

def Reflection.toDatum (r : Reflection) : Datum :=
  .record
    [ .text r.sourceName,
      r.stage.toDatum,
      .list (r.entryPoints.map EntryPoint.toDatum),
      .list (r.inputs.map Slot.toDatum),
      .list (r.outputs.map Slot.toDatum),
      .list (r.bindings.map Binding.toDatum),
      .list (r.pushBlocks.map PushBlock.toDatum) ]

def Reflection.ofDatum (d : Datum) : Reflection where
  sourceName := (d.field 0).toText
  stage := .ofDatum (d.field 1)
  entryPoints := (d.field 2).toItems.map EntryPoint.ofDatum
  inputs := (d.field 3).toItems.map Slot.ofDatum
  outputs := (d.field 4).toItems.map Slot.ofDatum
  bindings := (d.field 5).toItems.map Binding.ofDatum
  pushBlocks := (d.field 6).toItems.map PushBlock.ofDatum

/-! ## Layouts -/

def Requirement.toDatum (r : Requirement) : Datum :=
  .record
    [ .number r.set, .number r.binding, r.kind.toDatum, .number r.count, StageSet.toDatum r.stages,
      ofOption .number r.attachmentIndex? ]

def Requirement.ofDatum (d : Datum) : Requirement where
  set := (d.field 0).toNumber
  binding := (d.field 1).toNumber
  kind := .ofDatum (d.field 2)
  count := (d.field 3).toNumber
  stages := StageSet.ofDatum (d.field 4)
  attachmentIndex? := toOption toNumber (d.field 5)

def SetLayout.toDatum (s : SetLayout) : Datum := .record [.list (s.bindings.map Requirement.toDatum)]
def SetLayout.ofDatum (d : Datum) : SetLayout := ⟨(d.field 0).toItems.map Requirement.ofDatum⟩

def PushRange.toDatum (r : PushRange) : Datum := .record [StageSet.toDatum r.stages, .number r.offset, .number r.size]

def PushRange.ofDatum (d : Datum) : PushRange :=
  ⟨StageSet.ofDatum (d.field 0), (d.field 1).toNumber, (d.field 2).toNumber⟩

def PipelineLayout.toDatum (l : PipelineLayout) : Datum :=
  .record [.list (l.sets.map SetLayout.toDatum), .list (l.pushRanges.map PushRange.toDatum)]

def PipelineLayout.ofDatum (d : Datum) : PipelineLayout :=
  ⟨(d.field 0).toItems.map SetLayout.ofDatum, (d.field 1).toItems.map PushRange.ofDatum⟩

def Summary.toDatum (s : Summary) : Datum :=
  .record
    [ .text s.sourceName, s.stage.toDatum, .text s.entryPoint, .list (s.pipelineStages.map Stage.toDatum),
      s.layout.toDatum, IndexSet.toDatum s.attachments ]

def Summary.ofDatum (d : Datum) : Summary where
  sourceName := (d.field 0).toText
  stage := .ofDatum (d.field 1)
  entryPoint := (d.field 2).toText
  pipelineStages := (d.field 3).toItems.map Stage.ofDatum
  layout := .ofDatum (d.field 4)
  attachments := IndexSet.ofDatum (d.field 5)

/-! ## Codecs -/

/-- A type whose values are documents. -/
structure Codec (α : Type) where
  schema : Schema RecordName
  toDatum : α → Datum
  ofDatum : Datum → α

namespace Codec

def reflection : Codec Reflection := ⟨.record .reflection, Reflection.toDatum, Reflection.ofDatum⟩
def entryPoint : Codec EntryPoint := ⟨.record .entryPoint, EntryPoint.toDatum, EntryPoint.ofDatum⟩
def slot : Codec Slot := ⟨.record .slot, Slot.toDatum, Slot.ofDatum⟩
def typeTree : Codec TypeTree := ⟨.record .typeTree, TypeTree.toDatum, TypeTree.ofDatum⟩
def binding : Codec Binding := ⟨.record .binding, Binding.toDatum, Binding.ofDatum⟩
def pushBlock : Codec PushBlock := ⟨.record .pushBlock, PushBlock.toDatum, PushBlock.ofDatum⟩

def pipelineLayout : Codec PipelineLayout :=
  ⟨.record .pipelineLayout, PipelineLayout.toDatum, PipelineLayout.ofDatum⟩

def summary : Codec Summary := ⟨.record .summary, Summary.toDatum, Summary.ofDatum⟩
def stageSet : Codec StageSet := ⟨.stages, StageSet.toDatum, StageSet.ofDatum⟩
def stage : Codec Stage := ⟨.stage, Stage.toDatum, Stage.ofDatum⟩
def format : Codec Format := ⟨.format, Format.toDatum, Format.ofDatum⟩

variable {α : Type}

/-- Reads a document. -/
def load (c : Codec α) (text : String) : Except Json.LoadError α :=
  (Schema.load RecordName.spec c.schema text).map c.ofDatum

/-- Writes a document. -/
def render (c : Codec α) (a : α) : String := Schema.render RecordName.spec c.schema (c.toDatum a)

end Codec

end StageRig
