/-
  StageRig.Spirv.Words — words as bytes.

  A file of words holds four bytes a word. Words are written with the lowest byte first;
  `read` takes either byte order and tells it by the magic number, the first word of
  every module.
-/

namespace StageRig.Spirv

/-- The bytes of a word, the lowest first. -/
def wordBytes (w : UInt32) : List UInt8 := [w.toUInt8, (w >>> 8).toUInt8, (w >>> 16).toUInt8, (w >>> 24).toUInt8]

def bytes (words : List UInt32) : List UInt8 := words.flatMap wordBytes

def word (a b c d : UInt8) : UInt32 := a.toUInt32 ||| b.toUInt32 <<< 8 ||| c.toUInt32 <<< 16 ||| d.toUInt32 <<< 24

/-- The words of the bytes; up to three bytes that fill no word are left out. -/
def words : List UInt8 → List UInt32
  | a :: b :: c :: d :: rest => word a b c d :: words rest
  | _ => []

/-- The word with its bytes in the other order. -/
def swap (w : UInt32) : UInt32 := word (w >>> 24).toUInt8 (w >>> 16).toUInt8 (w >>> 8).toUInt8 w.toUInt8

def magic : UInt32 := 0x07230203

inductive WordsError where
  | length
  | magic
  deriving DecidableEq, Repr

def WordsError.message : WordsError → String
  | length => "input length not divisible by 4"
  | magic => "input missing SPIR-V magic number"

/-- The words of a module in either byte order. -/
def read (content : List UInt8) : Except WordsError (List UInt32) :=
  if content.length % 4 ≠ 0 then .error .length
  else
    match words content with
    | [] => .error .magic
    | w :: ws =>
      if w = magic then .ok (w :: ws)
      else if swap w = magic then .ok (magic :: ws.map swap)
      else .error .magic

end StageRig.Spirv
