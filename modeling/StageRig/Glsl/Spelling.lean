/-
  StageRig.Glsl.Spelling — from reflected types to GLSL type names.

  Two steps. `TypeHead.resolve` decides which type a head stands for; the members play
  no part in it. `Ty.spelling` writes it.

  A named head is a struct, whatever its shape. An array is resolved to its element,
  whose kind the reflector does not record: complete matrix traits win over vector
  traits, and only without either does the interface format decide. The component of a
  vector or matrix is the recorded one, else the format's, else float; integers have no
  matrices, so a matrix is of doubles or of floats.

  Two things cannot be spelled: an unnamed struct or unclassified type
  (`unsupported`), and an array that records no vector or matrix and has no format
  (`unknownElement`).
-/

import StageRig.TypeTree

namespace StageRig.Glsl

inductive Scalar where
  | bool
  | int
  | uint
  | float
  | double
  deriving DecidableEq, Repr

inductive Ty where
  | named (name : String)
  | scalar (scalar : Scalar)
  | vector (component : Scalar) (count : UInt32)
  | matrix (component : Scalar) (columns rows : UInt32)
  deriving DecidableEq, Repr

inductive SpellError where
  | unsupported (shape : Shape)
  | unknownElement (format : Format)
  deriving DecidableEq, Repr

def SpellError.message : SpellError → String
  | .unsupported shape => s!"no glsl spelling for type kind {shape.name}"
  | .unknownElement format => s!"can't infer array element type from format {format.name}"

/-! ## Spelling -/

def Scalar.spelling : Scalar → String
  | .bool => "bool"
  | .int => "int"
  | .uint => "uint"
  | .float => "float"
  | .double => "double"

/-- What the name of a vector of these starts with. -/
def Scalar.vectorStem : Scalar → String
  | .bool => "bvec"
  | .int => "ivec"
  | .uint => "uvec"
  | .float => "vec"
  | .double => "dvec"

def Scalar.matrixStem : Scalar → String
  | .double => "dmat"
  | _ => "mat"

/-- A square matrix has the short form, with its size once. -/
def Ty.spelling : Ty → String
  | .named name => name
  | .scalar s => s.spelling
  | .vector c n => s!"{c.vectorStem}{n.toNat}"
  | .matrix c cols rows =>
    if cols = rows then s!"{c.matrixStem}{cols.toNat}" else s!"{c.matrixStem}{cols.toNat}x{rows.toNat}"

/-! ## Formats as types -/

def Scalar.ofChannel : Channel → Scalar
  | .uint32 => .uint
  | .sint32 => .int
  | .float32 => .float
  | .float64 => .double

end StageRig.Glsl

namespace StageRig

open Glsl

/-- The scalar of a format's channels, however many it has. -/
def Format.scalar? : Format → Option Scalar
  | .undefined => none
  | .packed c _ => some (.ofChannel c)

/-- The type of a variable of which only the format is known. -/
def Format.type? : Format → Option Ty
  | .undefined => none
  | .packed c 0 => some (.scalar (.ofChannel c))
  | .packed c n => some (.vector (.ofChannel c) (n.val + 1).toUInt32)

namespace ScalarTraits

/-- The integer scalar of a signedness. -/
def intScalar (signedness : UInt32) : Scalar := if signedness = 0 then .uint else .int

/-- The floating-point scalar of a width in bits. -/
def floatScalar (width : UInt32) : Scalar := if width = 64 then .double else .float

def scalar? (s : ScalarTraits) : Option Scalar :=
  match s.component? with
  | none => none
  | some .bool => some .bool
  | some .int => some (intScalar s.signedness)
  | some .float => some (floatScalar s.width)

/-- The one-channel format of a scalar, which stands in for an interface format inside structs. -/
def format (s : ScalarTraits) : Format :=
  match s.component? with
  | some .float => if s.width = 64 then .single .float64 else .single .float32
  | some .int => if s.signedness = 0 then .single .uint32 else .single .sint32
  | some .bool | none => .undefined

end ScalarTraits

namespace TypeHead

def component (h : TypeHead) (format : Format) : Scalar :=
  (h.scalar.scalar?.or format.scalar?).getD .float

def vectorType (h : TypeHead) (format : Format) : Ty := .vector (h.component format) h.vectorSize

def matrixType (h : TypeHead) (format : Format) : Ty :=
  .matrix (if h.component format = .double then .double else .float) h.matrix.columns h.matrix.rows

def elementType (h : TypeHead) (format : Format) : Except SpellError Ty :=
  if 0 < h.matrix.columns ∧ 0 < h.matrix.rows then .ok (h.matrixType format)
  else if 0 < h.vectorSize then .ok (h.vectorType format)
  else match format.scalar? with
    | some s => .ok (.scalar s)
    | none => .error (.unknownElement format)

/-- The type that a head stands for, where `format` is the interface format of the variable. -/
def resolve (h : TypeHead) (format : Format) : Except SpellError Ty :=
  match h.structName? with
  | some name => .ok (.named name)
  | none =>
    match h.shape with
    | .bool => .ok (.scalar .bool)
    | .int => .ok (.scalar (ScalarTraits.intScalar h.scalar.signedness))
    | .float => .ok (.scalar (ScalarTraits.floatScalar h.scalar.width))
    | .vector => .ok (h.vectorType format)
    | .matrix => .ok (h.matrixType format)
    | .array => h.elementType format
    | shape => .error (.unsupported shape)

def spell (h : TypeHead) (format : Format) : Except SpellError String := (h.resolve format).map Ty.spelling

end TypeHead

end StageRig
