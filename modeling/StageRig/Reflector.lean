/-
  StageRig.Reflector — the records of a SPIR-V reflector.

  A reflector describes types, variables and descriptors with flag words and numbers of
  its own. Here are the parts of its records that matter, and what each becomes in the
  data model. A type's tree keeps its form; only the head of each node is read anew
  (`TypeNode.tree`). Flags of an element are set on an array as well, so the outermost
  kind wins (`TypeFacts.shape`).
-/

import StageRig.Reflection

namespace StageRig

/-- Why a module cannot be reflected. -/
inductive ReflectionError where
  | codeSize
  | magicNumber
  | endOfFile
  /-- The module has variables of its own, which are beyond this reader. -/
  | globals
  | untyped (name : String) (set binding : UInt32)
  deriving DecidableEq, Repr

def ReflectionError.message (e : ReflectionError) : String :=
  "spirv reflection failed: " ++ match e with
    | codeSize => "Invalid Code Size"
    | magicNumber => "Invalid Magic Number"
    | endOfFile => "Unexpected EOF"
    | globals => "module has variables"
    | untyped name set binding => s!"descriptor {name} at set {set.toNat} binding {binding.toNat} has no descriptor type"

namespace Reflector

/-! ## Types -/

/-- Whether all bits of `mask` are set. -/
def has (flags mask : UInt32) : Bool := flags &&& mask = mask

structure TypeFacts where
  typeName : String := ""
  memberName : String := ""
  flags : UInt32 := 0
  width : UInt32 := 0
  signedness : UInt32 := 0
  vectorSize : UInt32 := 0
  columns : UInt32 := 0
  rows : UInt32 := 0
  dims : List UInt32 := []
  deriving DecidableEq, Repr

inductive TypeNode where
  | node (facts : TypeFacts) (members : List TypeNode)
  deriving Repr

/-- The bits of a type's flags, the outermost kind first. -/
def kindBits : List (UInt32 × Shape) :=
  [ (0x20000000, .array), (0x10000000, .struct), (0x200, .matrix), (0x100, .vector),
    (0x8, .float), (0x4, .int), (0x2, .bool) ]

def componentBits : List (UInt32 × Component) := [(0x8, .float), (0x4, .int), (0x2, .bool)]

namespace TypeFacts

def shape (t : TypeFacts) : Shape := ((kindBits.find? (has t.flags ·.1)).map (·.2)).getD .other

def component? (t : TypeFacts) : Option Component := (componentBits.find? (has t.flags ·.1)).map (·.2)

/-- An empty name is no name. -/
def nonempty? (name : String) : Option String := if name = "" then none else some name

def head (t : TypeFacts) : TypeHead where
  typeName? := nonempty? t.typeName
  memberName? := nonempty? t.memberName
  shape := t.shape
  scalar :=
    { component? := t.component?
      width := t.width
      signedness := t.signedness }
  vectorSize := t.vectorSize
  matrix :=
    { columns := t.columns
      rows := t.rows }
  dims := t.dims

end TypeFacts

namespace TypeNode

def facts : TypeNode → TypeFacts
  | node f _ => f

def members : TypeNode → List TypeNode
  | node _ ms => ms

mutual

def tree : TypeNode → TypeTree
  | node f ms => .node f.head (trees ms)

def trees : List TypeNode → List TypeTree
  | [] => []
  | t :: ts => tree t :: trees ts

end

end TypeNode

/-! ## Variables -/

/-- The built-ins by number. -/
def builtInNames : List (Nat × String) :=
  [ (0, "Position"), (1, "PointSize"), (3, "ClipDistance"), (4, "CullDistance"), (5, "VertexId"), (6, "InstanceId"),
    (7, "PrimitiveId"), (8, "InvocationId"), (9, "Layer"), (10, "ViewportIndex"), (11, "TessLevelOuter"),
    (12, "TessLevelInner"), (13, "TessCoord"), (14, "PatchVertices"), (15, "FragCoord"), (16, "PointCoord"),
    (17, "FrontFacing"), (18, "SampleId"), (19, "SamplePosition"), (20, "SampleMask"), (22, "FragDepth"),
    (23, "HelperInvocation"), (24, "NumWorkgroups"), (25, "WorkgroupSize"), (26, "WorkgroupId"),
    (27, "LocalInvocationId"), (28, "GlobalInvocationId"), (29, "LocalInvocationIndex"), (42, "VertexIndex"),
    (43, "InstanceIndex") ]

/-- The name of a built-in; unknown numbers count as the first. -/
def builtInName (n : UInt32) : String := (builtInNames.lookup n.toNat).getD "Position"

structure Variable where
  name : String := ""
  location : UInt32 := 0
  /-- The reflector's formats have the device's constants as numbers. -/
  format : UInt32 := 0
  decorations : UInt32 := 0
  builtIn : UInt32 := 0
  type? : Option TypeNode := none
  deriving Repr

/-- The bit that marks a variable as a built-in. -/
def builtInBit : UInt32 := 16

/-- A format of 32-bit channels; others are left undefined. -/
def formatOf (code : UInt32) : Format :=
  (Format.all.find? fun f =>
    match f with
    | .undefined | .packed .float64 _ => false
    | _ => f.code = code).getD .undefined

/-- The component of a location is not reported. -/
def Variable.slot (v : Variable) : Slot where
  name := v.name
  location := v.location
  builtIn? := if has v.decorations builtInBit then some s!"ReflectBuiltIn({builtInName v.builtIn})" else none
  format := formatOf v.format
  type? := v.type?.map (·.tree)

/-! ## Resources -/

structure Descriptor where
  name : String := ""
  set : UInt32 := 0
  binding : UInt32 := 0
  /-- Zero on descriptors of other kinds than input attachments. -/
  attachmentIndex : UInt32 := 0
  kind? : Option DescriptorKind
  dims : List UInt32 := []
  deriving DecidableEq, Repr

/-- Fails on a descriptor whose kind the reflector could not tell. -/
def Descriptor.toBinding (d : Descriptor) : Except ReflectionError Binding :=
  match d.kind? with
  | none => .error (.untyped d.name d.set d.binding)
  | some kind => .ok
      { name := d.name
        set := d.set
        binding := d.binding
        kind
        dims := d.dims
        attachmentIndex? := if kind = .inputAttachment then some d.attachmentIndex else none }

structure Block where
  name : String := ""
  offset : UInt32 := 0
  /-- The offset from the start of the outermost block. -/
  absoluteOffset : UInt32 := 0
  size : UInt32 := 0
  paddedSize : UInt32 := 0
  deriving DecidableEq, Repr

def Block.pushBlock (b : Block) : PushBlock := ⟨b.name, b.offset, b.size⟩

end Reflector

end StageRig
