/-
  StageRig.Spirv.Module — the entry points of compiled modules.

  A module is a header of five words and a list of instructions, each of which begins
  with its own length. `reflect` reads the entry points of a module that has no
  variables; `skeleton` is a module that has entry points and nothing else. Reading
  fails on what is no module at all by the size and the first word alone.

  This stands in for a full reflector, which is a library of its own, so that the program
  can be run on files. Nothing is proved about it: every result about the program starts
  from a `Reflection`, whatever it was read from.
-/

import StageRig.Reflector
import StageRig.Spirv.Words
import StageRig.Text.Utf8

namespace StageRig.Spirv

structure Instruction where
  opcode : UInt32
  operands : List UInt32
  deriving DecidableEq, Repr

/-- An entry point by its name and the number of its execution model. -/
structure Entry where
  name : String
  model : UInt32
  deriving DecidableEq, Repr

def capabilityCode : UInt32 := 17
def memoryModelCode : UInt32 := 14
def entryPointCode : UInt32 := 15
def variableCode : UInt32 := 59

/-- Variables of this storage class are local to a function. -/
def functionClass : UInt32 := 7

/-! ## Writing -/

/-- A text ends with a zero byte, and zero bytes fill its last word. -/
def textWords (s : String) : List UInt32 :=
  let bs := Text.Utf8.encode s
  words (bs ++ List.replicate (4 - bs.length % 4) 0)

def Instruction.words (i : Instruction) : List UInt32 :=
  ((i.operands.length + 1).toUInt32 <<< 16 ||| i.opcode) :: i.operands

/-- A module with entry points and nothing else. -/
def skeleton (entries : List Entry) : List UInt32 :=
  let entry (e : Entry) (i : Nat) : Instruction := ⟨entryPointCode, e.model :: (i + 1).toUInt32 :: textWords e.name⟩
  let instructions : List Instruction :=
    ⟨capabilityCode, [1]⟩ :: ⟨memoryModelCode, [0, 1]⟩ :: entries.zipIdx.map fun (e, i) => entry e i
  [magic, 0x00010000, 0, (entries.length + 1).toUInt32, 0] ++ instructions.flatMap (·.words)

/-! ## Reading -/

/-- The instructions that words hold, or `none` when the last one is cut off. -/
def instructions? : List UInt32 → Option (List Instruction)
  | [] => some []
  | w :: rest =>
    let length := (w >>> 16).toNat - 1
    let operands := rest.take length
    if w >>> 16 = 0 ∨ operands.length < length then none
    else (instructions? (rest.drop length)).map fun is => ⟨w &&& 0xffff, operands⟩ :: is
termination_by ws => ws.length
decreasing_by simp only [List.length_drop, List.length_cons]; omega

/-- The bytes of a text up to its zero byte. -/
def textBytes? : List UInt32 → Option (List UInt8)
  | [] => none
  | w :: rest =>
    if 0 ∈ wordBytes w then some ((wordBytes w).takeWhile (· ≠ 0))
    else (textBytes? rest).map (wordBytes w ++ ·)

def modelStage (model : UInt32) : Stage :=
  match model.toNat with
  | 0 => .vertex
  | 1 => .tessControl
  | 2 => .tessEval
  | 3 => .geometry
  | 4 => .fragment
  | 5 => .compute
  | _ => .other

/-- The entry point that an instruction declares, if it declares one. -/
def Instruction.entryPoint? (i : Instruction) : Option EntryPoint :=
  if i.opcode = entryPointCode then
    match i.operands with
    | model :: _ :: text => (textBytes? text).map fun bs => ⟨Text.Utf8.decode bs, modelStage model⟩
    | _ => none
  else none

/-- Whether an instruction declares a variable of the whole module. -/
def Instruction.isGlobal (i : Instruction) : Bool := i.opcode = variableCode && i.operands[2]? ≠ some functionClass

/-- Reads a module in place of a full reflector. It is here only to run the program, and no result is about it.
The stage of a module is that of its first entry point. -/
def reflect (sourceName : String) (content : List UInt8) : Except ReflectionError Reflection :=
  if content.length % 4 ≠ 0 ∨ content.length < 24 then .error .codeSize
  else
    let ws := words content
    if ws.head? ≠ some magic then .error .magicNumber
    else
      match instructions? (ws.drop 5) with
      | none => .error .endOfFile
      | some is =>
        if is.any (·.isGlobal) then .error .globals
        else
          let entryPoints := is.filterMap (·.entryPoint?)
          .ok
            { sourceName
              stage := (entryPoints.head?.map (·.stage)).getD .other
              entryPoints }

end StageRig.Spirv
