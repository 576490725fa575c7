/-
  StageRig.TypeTree — how a reflector describes a shader type.

  A type is a head and the types of its members. The head records the outermost
  structural kind (`Shape`) together with every numeric trait the reflector found, on
  whichever level: an array of vectors has the shape `array`, and the vector's size and
  component stay in its head. Only structs, and arrays of structs, have members.
-/

import StageRig.Format

namespace StageRig

inductive Shape where
  | bool
  | int
  | float
  | vector
  | matrix
  | array
  | struct
  | other
  deriving DecidableEq, Repr

def Shape.name : Shape → String
  | .bool => "Bool"
  | .int => "Int"
  | .float => "Float"
  | .vector => "Vector"
  | .matrix => "Matrix"
  | .array => "Array"
  | .struct => "Struct"
  | .other => "Other"

/-- What the numbers of a type are made of. -/
inductive Component where
  | bool
  | int
  | float
  deriving DecidableEq, Repr

structure ScalarTraits where
  component? : Option Component := none
  width : UInt32 := 0
  /-- Zero means unsigned. -/
  signedness : UInt32 := 0
  deriving DecidableEq, Repr, Inhabited

structure MatrixTraits where
  columns : UInt32 := 0
  rows : UInt32 := 0
  deriving DecidableEq, Repr, Inhabited

structure TypeHead where
  typeName? : Option String := none
  /-- The name of the member that has this type, when it is a member's type. -/
  memberName? : Option String := none
  shape : Shape
  scalar : ScalarTraits := {}
  vectorSize : UInt32 := 0
  matrix : MatrixTraits := {}
  /-- The array dimensions, outermost first; zero stands for an unsized one. -/
  dims : List UInt32 := []
  deriving DecidableEq, Repr

/-- The name of the struct. An empty name is no name: some reflectors report one. -/
def TypeHead.structName? (h : TypeHead) : Option String := h.typeName?.filter (· ≠ "")

def TypeHead.isArray (h : TypeHead) : Bool := h.shape = .array || !h.dims.isEmpty

inductive TypeTree where
  | node (head : TypeHead) (members : List TypeTree)
  deriving Repr

namespace TypeTree

def head : TypeTree → TypeHead
  | node h _ => h

def members : TypeTree → List TypeTree
  | node _ ms => ms

end TypeTree

end StageRig
