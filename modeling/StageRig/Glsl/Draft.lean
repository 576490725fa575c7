/-
  StageRig.Glsl.Draft — a source text under construction.

  Lines are appended at the end. A mark taken at any moment is the number of bytes
  written so far, and text given for a mark later (a patch) is kept aside until the
  draft is finished. Finishing cuts the body at the marks, in the order of their
  offsets, and puts the patches in between; patches at one offset keep the order in
  which they were given.

  Texts are UTF-8, so an offset counts bytes. `splitBytes` cuts between characters
  only: a character that would straddle the cut stays behind it. No mark of a draft
  ever lies inside a character (`splitBytes_byteSize`).
-/

namespace StageRig.Glsl

/-- The length of a text in UTF-8. -/
def byteSize : List Char → Nat
  | [] => 0
  | c :: cs => c.utf8Size + byteSize cs

/-- The longest part of a text that fits into `n` bytes, and the rest. -/
def splitBytes : Nat → List Char → List Char × List Char
  | _, [] => ([], [])
  | n, c :: cs =>
    if c.utf8Size ≤ n then
      let (front, rest) := splitBytes (n - c.utf8Size) cs
      (c :: front, rest)
    else ([], c :: cs)

structure Patch where
  offset : Nat
  text : String
  deriving DecidableEq, Repr

structure Draft where
  body : String := ""
  /-- The patches, in the order in which they were given. -/
  patches : List Patch := []
  deriving DecidableEq, Repr, Inhabited

namespace Draft

def pushLine (d : Draft) (line : String) : Draft := { d with body := d.body ++ line ++ "\n" }

/-- The mark of the current end of the body. -/
def mark (d : Draft) : Nat := byteSize d.body.toList

def insert (d : Draft) (mark : Nat) (text : String) : Draft := { d with patches := d.patches ++ [⟨mark, text⟩] }

/-- Puts patches, by ascending offset, into `rest`, which is the body from `cursor` on. -/
def splice (cursor : Nat) (rest : List Char) : List Patch → List Char
  | [] => rest
  | p :: ps =>
    let (front, back) := splitBytes (p.offset - cursor) rest
    front ++ p.text.toList ++ splice p.offset back ps

/-- The finished text. -/
def text (d : Draft) : String :=
  String.ofList (splice 0 d.body.toList (d.patches.mergeSort fun p q => p.offset ≤ q.offset))

end Draft

/-! ## Cuts -/

@[simp] theorem byteSize_nil : byteSize [] = 0 := rfl

@[simp] theorem byteSize_cons (c : Char) (cs : List Char) : byteSize (c :: cs) = c.utf8Size + byteSize cs := rfl

@[simp] theorem byteSize_append (a b : List Char) : byteSize (a ++ b) = byteSize a + byteSize b := by
  induction a with
  | nil => simp
  | cons c cs ih => simp [ih, Nat.add_assoc]

/-- A cut after the bytes of a whole number of characters falls between characters. -/
theorem splitBytes_byteSize (a b : List Char) : splitBytes (byteSize a) (a ++ b) = (a, b) := by
  induction a with
  | nil =>
    cases b with
    | nil => rfl
    | cons c cs =>
      have := c.utf8Size_pos
      simp [splitBytes, show ¬ c.utf8Size ≤ 0 by omega]
  | cons c cs ih => simp [splitBytes, ih]

end StageRig.Glsl
