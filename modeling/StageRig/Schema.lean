/-
  StageRig.Schema — what JSON documents of a known form look like.

  A schema says what a value is made of: numbers of 32 bits, texts, one of several named
  variants, values that may be null, lists, and records. Records refer to each other by
  name, so a record may contain itself. A field may have a value to fall back on when it
  is missing, and may be left out when it has nothing to say.

  A `Datum` is such a value with its names stripped: a variant is a position in the list
  of names, a record is the list of its fields in declared order.
-/

namespace StageRig

inductive Datum where
  | number (n : UInt32)
  | text (s : String)
  | variant (index : Nat)
  | absent
  | list (items : List Datum)
  | record (fields : List Datum)
  deriving Repr, Inhabited

/-- Nothing, or a list of nothing. -/
def Datum.isBlank : Datum → Bool
  | absent | list [] => true
  | _ => false

/-- Schemas whose records are named by `ρ`. -/
inductive Schema (ρ : Type) where
  | number
  | text
  | variant (names : List String)
  | optional (s : Schema ρ)
  | list (s : Schema ρ)
  | record (r : ρ)
  deriving DecidableEq, Repr

structure FieldSpec (ρ : Type) where
  key : String
  schema : Schema ρ
  /-- What the field holds when it is missing; without it the field is needed. -/
  fallback? : Option Datum := none
  /-- Whether the field is not written when it is blank. -/
  quiet : Bool := false

structure RecordSpec (ρ : Type) where
  title : String
  fields : List (FieldSpec ρ)

namespace Schema

variable {ρ : Type}

/-- The variants of a schema that has some. -/
def names : Schema ρ → List String
  | variant ns => ns
  | optional s => s.names
  | _ => []

/-- The schema of a list's items. -/
def item : Schema ρ → Schema ρ
  | list s => s
  | optional s => s.item
  | s => s

/-- The fields of a record's schema. -/
def fields (env : ρ → RecordSpec ρ) : Schema ρ → List (FieldSpec ρ)
  | record r => (env r).fields
  | optional s => s.fields env
  | _ => []

end Schema

end StageRig
