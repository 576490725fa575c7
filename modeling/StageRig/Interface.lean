/-
  StageRig.Interface — what a pipeline around a shader has to know of it.

  From a reflection: the sole entry point and its stage, the variables that are no
  built-ins by ascending location (`interfaceSlots`; variables at one location keep the
  reflector's order), the layout of descriptor sets and push constants, and the input
  attachments that the layout covers.

  Bindings that share a pair of set and binding become one requirement: the first one
  gives its kind and attachment, and its count is the largest of theirs (`merge`). Sets
  are laid out by position up to the last one in use (`setLayouts`).

  A shader may be skipped (`Skip`): that is an outcome and no failure. The one failure
  is a binding whose descriptor count does not fit into 32 bits (`descriptorCount?`).
-/

import StageRig.PipelineLayout
import StageRig.Traced

namespace StageRig

/-- Why no pipeline is built around a shader. -/
inductive Skip where
  | noEntryPoint
  | manyEntryPoints (n : Nat)
  | stage (stage : Stage)
  | descriptorSet (set : UInt32)
  deriving DecidableEq, Repr

def Skip.message : Skip → String
  | .noEntryPoint => "module has no entry point"
  | .manyEntryPoints n => s!"module has {n} entry points"
  | .stage s => s!"no pass-through stages for {s.label} shaders"
  | .descriptorSet n => s!"descriptor set {n.toNat} is past the last usable set index"

/-- A descriptor count past 32 bits. -/
inductive CountOverflow where
  | countOverflow
  deriving DecidableEq, Repr

structure Interface where
  stage : Stage
  entryPoint : String
  inputs : List Slot
  outputs : List Slot
  layout : PipelineLayout
  attachments : IndexSet

/-- Set indices below this can be used. -/
def setLimit : UInt32 := 32

/-! ## Variables -/

/-- The variables that are no built-ins, by location. -/
def interfaceSlots (slots : List Slot) : List Slot :=
  (slots.filter (!·.isBuiltIn)).mergeSort fun a b => a.location ≤ b.location

def builtInNotes (slots : List Slot) : List Note :=
  (slots.filter (·.isBuiltIn)).map fun s => ⟨.trace, s!"skipping built-in variable: {s.name}"⟩

/-! ## Descriptors -/

/-- The product of the dimensions, multiplied up from the left, or `none` once it passes 32 bits. -/
def descriptorCount? (dims : List UInt32) : Option UInt32 :=
  dims.foldlM (fun n d => if n.toNat * d.toNat < UInt32.size then some (n * d) else none) 1

namespace Requirement

/-- Whether two requirements have one pair of set and binding. -/
def shares (r q : Requirement) : Bool := r.set = q.set && r.binding = q.binding

/-- The order of requirements: by set, then by binding. -/
def precedes (r q : Requirement) : Bool := r.set < q.set || (r.set = q.set && r.binding < q.binding)

/-- One requirement for two that share a pair. -/
def merge (old new : Requirement) : Requirement :=
  { old with count := max old.count new.count, stages := old.stages.union new.stages }

/-- Adds a requirement to an ascending list. -/
def place (r : Requirement) : List Requirement → List Requirement
  | [] => [r]
  | q :: qs =>
    if r.shares q then q.merge r :: qs
    else if r.precedes q then r :: q :: qs
    else q :: place r qs

/-- The attachments that a requirement covers: from its index on as many as it counts, at least one,
ending below the largest index. -/
def attachments (r : Requirement) : List UInt32 :=
  match r.kind, r.attachmentIndex? with
  | .inputAttachment, some first =>
    let stop := min (first.toNat + max r.count.toNat 1) (UInt32.size - 1)
    (List.range (stop - first.toNat)).map fun i => (first.toNat + i).toUInt32
  | _, _ => []

end Requirement

def Binding.requirement (b : Binding) (stage : Stage) (count : UInt32) : Requirement where
  set := b.set
  binding := b.binding
  kind := b.kind
  count
  stages := .single stage
  attachmentIndex? := b.attachmentIndex?

/-- The requirements of the bindings, ascending, added to those already found. -/
def collect (stage : Stage) : List Binding → List Requirement → Traced CountOverflow (List Requirement)
  | [], found => pure found
  | b :: rest, found =>
    match descriptorCount? b.dims with
    | none => throw .countOverflow
    | some count => do
      let r := b.requirement stage count
      if found.any r.shares then
        Traced.note .debug s!"merging descriptor {b.name} at set {b.set.toNat} binding {b.binding.toNat}"
      collect stage rest (r.place found)

/-- The sets by position, up to the last one that a requirement names. -/
def setLayouts (rs : List Requirement) : List SetLayout :=
  match (rs.map (·.set.toNat)).max? with
  | none => []
  | some last => (List.range (last + 1)).map fun i => ⟨rs.filter (·.set.toNat = i)⟩

def PushBlock.range (b : PushBlock) (stage : Stage) : PushRange := ⟨.single stage, b.offset, b.size⟩

/-! ## The interface -/

/-- The sole entry point and a usable set index in every binding, or the reason to skip the shader. -/
def Reflection.entryPoint (r : Reflection) : Except Skip EntryPoint :=
  match r.entryPoints with
  | [] => .error .noEntryPoint
  | [e] =>
    match r.bindings.find? (setLimit ≤ ·.set) with
    | some b => .error (.descriptorSet b.set)
    | none => .ok e
  | es => .error (.manyEntryPoints es.length)

def Reflection.interface (r : Reflection) : Traced CountOverflow (Except Skip Interface) :=
  match r.entryPoint with
  | .error skip => pure (.error skip)
  | .ok entry => do
    let requirements ← collect entry.stage r.bindings []
    (builtInNotes r.inputs ++ builtInNotes r.outputs).forM fun n => Traced.note n.level n.text
    pure <| .ok
      { stage := entry.stage
        entryPoint := entry.name
        inputs := interfaceSlots r.inputs
        outputs := interfaceSlots r.outputs
        layout :=
          { sets := setLayouts requirements
            pushRanges := r.pushBlocks.map (·.range entry.stage) }
        attachments := .ofList ((requirements.flatMap (·.attachments)).mergeSort fun a b => a ≤ b) }

end StageRig
