/-
  StageRig.Format — the vertex-interface formats.

  A format is undefined, or one to four channels of one kind. Its name spells the
  channels out (`name`), its number is a device's constant (`code`): the 32-bit formats
  come in groups of three (unsigned, signed, float) by channel count, the 64-bit floats
  in groups whose third member they are.
-/

namespace StageRig

inductive Channel where
  | uint32
  | sint32
  | float32
  | float64
  deriving DecidableEq, Repr

inductive Format where
  | undefined
  /-- One channel and `more` further ones. -/
  | packed (channel : Channel) (more : Fin 4)
  deriving DecidableEq, Repr

def Channel.bits : Channel → String
  | .float64 => "64"
  | _ => "32"

def Channel.numeric : Channel → String
  | .uint32 => "UINT"
  | .sint32 => "SINT"
  | .float32 | .float64 => "SFLOAT"

namespace Format

/-- The format of one channel. -/
def single (c : Channel) : Format := packed c ⟨0, by decide⟩

/-- Every format: the undefined one, the 32-bit ones by channel count, the 64-bit ones. -/
def all : List Format :=
  undefined ::
    ([0, 1, 2, 3].flatMap fun n => [packed .uint32 n, packed .sint32 n, packed .float32 n]) ++
    [0, 1, 2, 3].map (packed .float64)

def name : Format → String
  | undefined => "Undefined"
  | packed c n => String.join ((["R", "G", "B", "A"].take (n + 1)).map (· ++ c.bits)) ++ "_" ++ c.numeric

def code : Format → UInt32
  | undefined => 0
  | packed .uint32 n => 98 + 3 * n.val.toUInt32
  | packed .sint32 n => 99 + 3 * n.val.toUInt32
  | packed .float32 n => 100 + 3 * n.val.toUInt32
  | packed .float64 n => 112 + 3 * n.val.toUInt32

end Format

end StageRig
