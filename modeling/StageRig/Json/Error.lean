/-
  StageRig.Json.Error — why a text is not the document it should be.

  The text may end too early (`truncated`), be no JSON (`malformed`), or be JSON that
  does not describe what was asked for (`data`). Only the last comes with a message.
-/

import StageRig.Text.Quoted

namespace StageRig.Json

/-- What stands where something else was expected. -/
inductive Found where
  | null
  | bool (b : Bool)
  | integer (n : Int)
  /-- A number written with a fraction or an exponent, or too large for an integer. -/
  | float (text : String)
  | text (s : String)
  | sequence
  | map
  deriving DecidableEq, Repr

def Found.show : Found → String
  | .null => "null"
  | .bool b => s!"boolean `{b}`"
  | .integer n => s!"integer `{n}`"
  | .float t => s!"floating point `{t}`"
  | .text s => "string " ++ Text.quoted ['"'] s
  | .sequence => "sequence"
  | .map => "map"

inductive DataError where
  | missingField (key : String)
  | duplicateField (key : String)
  | unknownVariant (name : String) (variants : List String)
  | wrongType (found : Found) (expected : String)
  | outOfRange (n : Int)
  /-- A record given as a list that ends after `length` fields, before one that is needed. -/
  | tooShort (length : Nat) (title : String) (fields : Nat)
  deriving DecidableEq, Repr

def DataError.message : DataError → String
  | .missingField key => s!"missing field `{key}`"
  | .duplicateField key => s!"duplicate field `{key}`"
  | .unknownVariant name variants =>
    s!"unknown variant `{name}`, expected one of " ++ ", ".intercalate (variants.map fun v => s!"`{v}`")
  | .wrongType found expected => s!"invalid type: {found.show}, expected {expected}"
  | .outOfRange n => s!"invalid value: integer `{n}`, expected u32"
  | .tooShort length title fields =>
    s!"invalid length {length}, expected struct {title} with {fields} element" ++ if fields = 1 then "" else "s"

inductive LoadError where
  | truncated
  | malformed
  | data (e : DataError)
  deriving DecidableEq, Repr

end StageRig.Json
