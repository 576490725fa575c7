/-
  StageRig.Glsl.Declaration — the declarations of a generated source, as data and as text.

  A struct declaration lists its members; an interface declaration places one variable
  at a location. Array bounds are dimensions in brackets, outermost first, where zero
  leaves the bracket empty (`bounds`).
-/

namespace StageRig.Glsl

/-- The array suffix of a dimension list. -/
def bounds (dims : List UInt32) : String :=
  String.join (dims.map fun n => if n = 0 then "[]" else s!"[{n.toNat}]")

structure MemberDecl where
  type : String
  name : String
  dims : List UInt32
  deriving DecidableEq, Repr

def MemberDecl.text (m : MemberDecl) : String := s!"    {m.type} {m.name}{bounds m.dims};\n"

structure StructDecl where
  name : String
  members : List MemberDecl
  deriving DecidableEq, Repr

/-- A declaration ends in a blank line. -/
def StructDecl.text (d : StructDecl) : String :=
  s!"struct {d.name} \x7b\n" ++ String.join (d.members.map MemberDecl.text) ++ "\x7d;\n\n"

structure SlotDecl where
  location : UInt32
  component? : Option UInt32
  qualifier : String
  type : String
  name : String
  dims : List UInt32
  deriving DecidableEq, Repr

def SlotDecl.layout (d : SlotDecl) : String :=
  match d.component? with
  | some c => s!"layout(location = {d.location.toNat}, component = {c.toNat})"
  | none => s!"layout(location = {d.location.toNat})"

def SlotDecl.text (d : SlotDecl) : String := s!"{d.layout} {d.qualifier} {d.type} {d.name}{bounds d.dims};"

end StageRig.Glsl
