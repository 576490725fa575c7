/-
  StageRig.Relay.Source — the text of a relay.

  The version comes first, then the structs, then the stage's layout line, one line a
  variable, and the main function. Which structs are needed only shows while the
  variables are written, so a mark is taken behind the version line and every struct
  declaration is put there as a patch.

  A struct is entered by name the first time its description is met, before its
  members are walked, and declared after them: what a member needs stands above the
  struct that contains it. A name that was entered before is never entered again.

  Variables are named after their location; from the second variable at a location on,
  a number tells them apart (`slotName`).
-/

import StageRig.Glsl.Declaration
import StageRig.Glsl.Draft
import StageRig.Glsl.Spelling
import StageRig.Reflection
import StageRig.Relay
import StageRig.Traced

namespace StageRig.Relay

open Glsl

/-! ## Structs -/

/-- A source being written: the draft, where struct declarations go, and the struct names entered. -/
structure Sheet where
  draft : Draft
  header : Nat
  entered : List String
  deriving DecidableEq, Repr

/-- The name of the member at `index`; one that has none is named by its position. -/
def memberName (h : TypeHead) (index : Nat) : String :=
  match h.memberName?.filter (· ≠ "") with
  | some name => name
  | none => s!"member_{index}"

def memberDecl (h : TypeHead) (index : Nat) : Except SpellError MemberDecl :=
  (h.spell h.scalar.format).map fun type => ⟨type, memberName h index, h.dims⟩

mutual

/-- Declares the structs that a description names, itself included, unless they were entered before. -/
def declare : TypeTree → Sheet → Traced SpellError Sheet
  | .node head members, s =>
    match head.structName? with
    | none => pure s
    | some name =>
      if name ∈ s.entered then pure s
      else do
        let (decls, s) ← declareMembers members 0 { s with entered := name :: s.entered }
        Traced.note .trace s!"declaring struct {name}"
        pure { s with draft := s.draft.insert s.header (StructDecl.mk name decls).text }

/-- Declares what each member needs and then spells the member. -/
def declareMembers : List TypeTree → Nat → Sheet → Traced SpellError (List MemberDecl × Sheet)
  | [], _, s => pure ([], s)
  | member :: rest, index, s => do
    let s ← declare member s
    let decl ← Traced.ofExcept (memberDecl member.head index)
    let (decls, s) ← declareMembers rest (index + 1) s
    pure (decl :: decls, s)

end

/-! ## Variables -/

def slotName (location : UInt32) (earlier : Nat) : String :=
  if earlier = 0 then s!"io_{location.toNat}" else s!"io_{location.toNat}_{earlier}"

/-- The array dimensions a variable is declared with. Relays of patches leave the outermost dimension
open; a vertex relay drops it where the tested stage counts vertices with it. -/
def slotDims (r : Relay) (tested : Stage) (slot : Slot) : List UInt32 :=
  match slot.type? with
  | none => []
  | some t =>
    if t.head.isArray then
      if r.perVertex then 0 :: t.head.dims.tail
      else if tested.hasPerVertexInputs then t.head.dims.tail
      else t.head.dims
    else []

/-- The type a variable is declared with. -/
def slotType (slot : Slot) : Except SpellError String :=
  match slot.type? with
  | some t => t.head.spell slot.format
  | none =>
    match slot.format.type? with
    | some ty => .ok ty.spelling
    | none => .error (.unsupported .other)

def slotDecl (r : Relay) (tested : Stage) (earlier : Nat) (slot : Slot) : Except SpellError SlotDecl :=
  (slotType slot).map fun type =>
    { location := slot.location
      component? := slot.component?
      qualifier := r.qualifier
      type
      name := slotName slot.location earlier
      dims := slotDims r tested slot }

/-- Writes the variables in order; `earlier` holds the locations of those written before. -/
def writeSlots (r : Relay) (tested : Stage) : List Slot → List UInt32 → Sheet → Traced SpellError Sheet
  | [], _, s => pure s
  | slot :: rest, earlier, s => do
    let s ← match slot.type? with
      | some t => declare t s
      | none => pure s
    let decl ← Traced.ofExcept (slotDecl r tested (earlier.count slot.location) slot)
    writeSlots r tested rest (slot.location :: earlier) { s with draft := s.draft.pushLine decl.text }

/-! ## The whole source -/

def version : String := "#version 450"

/-- The sheet before any variable is written. -/
def opening (r : Relay) : Sheet :=
  let head := (({} : Draft).pushLine version).pushLine ""
  { draft := match r.stageLayout? with
      | some line => (head.pushLine line).pushLine ""
      | none => head
    header := head.mark
    entered := [] }

/-- The main function at the end of a draft. -/
def closing (r : Relay) (d : Draft) : Draft :=
  (r.statements.foldl (fun d line => d.pushLine s!"    {line}") (d.pushLine "void main() \x7b")).pushLine "\x7d"

/-- The source of the relay `r` for a tested shader of stage `tested` with the variables `slots`. -/
def source (r : Relay) (tested : Stage) (slots : List Slot) : Traced SpellError String := do
  let s ← writeSlots r tested slots [] r.opening
  let draft := r.closing (if slots.isEmpty then s.draft else s.draft.pushLine "")
  Traced.note .debug s!"generated {r.stage.label} pass-through with {slots.length} variables"
  pure draft.text

/-- The stage a relay of patches stands next to: each of the two tessellation stages is tested beside the other. -/
def neighbour : Relay → Stage
  | vertex => .fragment
  | tessControl => .tessEval
  | tessEval => .tessControl

/-- The source of a relay beside its neighbour. -/
def sourceAlone (r : Relay) (slots : List Slot) : Traced SpellError String := r.source r.neighbour slots

end StageRig.Relay
