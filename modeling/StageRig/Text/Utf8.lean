/-
  StageRig.Text.Utf8 — texts as bytes.

  `encode` writes UTF-8. `decode` reads any bytes: each longest run that begins a
  character and does not finish it becomes one replacement character, and so does each
  byte that begins none.
-/

namespace StageRig.Text.Utf8

def encode (s : String) : List UInt8 := s.toList.flatMap String.utf8EncodeChar

/-- Stands for bytes that are no text. -/
def replacement : Char := '\ufffd'

/-- What the first byte of a character says: its share of the value, the range of the
second byte, and how many bytes follow. -/
structure Start where
  value : Nat
  low : UInt8
  high : UInt8
  more : Nat
  deriving DecidableEq, Repr

/-- The ranges leave out overlong forms, surrogates and values past the last character. -/
def start? (b : UInt8) : Option Start :=
  if b < 0x80 then some ⟨b.toNat, 0x80, 0xbf, 0⟩
  else if b < 0xc2 then none
  else if b < 0xe0 then some ⟨b.toNat % 32, 0x80, 0xbf, 1⟩
  else if b = 0xe0 then some ⟨0, 0xa0, 0xbf, 2⟩
  else if b = 0xed then some ⟨13, 0x80, 0x9f, 2⟩
  else if b < 0xf0 then some ⟨b.toNat % 16, 0x80, 0xbf, 2⟩
  else if b = 0xf0 then some ⟨0, 0x90, 0xbf, 3⟩
  else if b < 0xf4 then some ⟨b.toNat % 8, 0x80, 0xbf, 3⟩
  else if b = 0xf4 then some ⟨4, 0x80, 0x8f, 3⟩
  else none

/-- Reads `n` further bytes of a character, the next one from `low` to `high`. -/
def finish (value : Nat) (low high : UInt8) : Nat → List UInt8 → Char × List UInt8
  | 0, rest => (Char.ofNat value, rest)
  | _ + 1, [] => (replacement, [])
  | n + 1, b :: rest =>
    if low ≤ b ∧ b ≤ high then finish (value * 64 + b.toNat % 64) 0x80 0xbf n rest
    else (replacement, b :: rest)

/-- One character and the bytes after it. -/
def next (b : UInt8) (rest : List UInt8) : Char × List UInt8 :=
  match start? b with
  | none => (replacement, rest)
  | some s => finish s.value s.low s.high s.more rest

theorem finish_length (n value : Nat) (low high : UInt8) (bs : List UInt8) :
    (finish value low high n bs).2.length ≤ bs.length := by
  induction n generalizing value low high bs with
  | zero => simp [finish]
  | succ n ih =>
    cases bs with
    | nil => simp [finish]
    | cons b rest =>
      simp only [finish]
      split
      · exact Nat.le_succ_of_le (ih ..)
      · exact Nat.le_refl _

theorem next_length (b : UInt8) (rest : List UInt8) : (next b rest).2.length ≤ rest.length := by
  unfold next
  split
  · exact Nat.le_refl _
  · exact finish_length ..

def decodeChars : List UInt8 → List Char
  | [] => []
  | b :: rest =>
    have := next_length b rest
    (next b rest).1 :: decodeChars (next b rest).2
termination_by bs => bs.length
decreasing_by simp only [List.length_cons]; omega

def decode (bs : List UInt8) : String := String.ofList (decodeChars bs)

end StageRig.Text.Utf8
