/-
  StageRig.Schema.Reader — JSON text to data, by schema.

  The text is read once, from the front, and the first fault in text order is the
  answer. What a schema expects is decided at the first character of a value, so a
  value of another kind is reported before anything inside it.

  Fields of a record may come in any order. A second occurrence of a field is a fault
  as soon as its key is read; a missing one is noticed at the closing brace, the first in
  declared order counting. Fields that the record does not have are passed over. A
  record may also be a list of its fields in declared order (`readList`), of which only
  those at the end that can fall back may be missing.

  A variant is its name, or an object with the name as its key and null as its value.

  Lists, records and such objects may nest `depthLimit` deep; deeper ones are malformed.
  What is passed over may nest without limit.

  Every step passes at least one character, so the length of the whole text bounds the
  steps of each list and record in it (`load`).
-/

import StageRig.Json.Scan
import StageRig.Schema

namespace StageRig.Schema

open Json

/-- How many containers may be open at once. -/
def depthLimit : Nat := 127

/-- Reads a value by its schema. -/
abbrev Reader (ρ : Type) := Schema ρ → Rest → Scan Datum

variable {ρ : Type}

/-! ## Values without parts -/

def readNumber (cs : Rest) : Scan Datum :=
  let number (f : Found) (cs : Rest) : Scan Datum :=
    match f with
    | .integer n => if 0 ≤ n ∧ n.toNat < UInt32.size then .ok (.number n.toNat.toUInt32, cs) else .error (.data (.outOfRange n))
    | f => .error (.data (.wrongType f "u32"))
  match skipBlanks cs with
  | [] => .error .truncated
  | '-' :: cs => (scanNumber true cs).bind fun (f, cs) => number f cs
  | c :: cs =>
    if c.isDigit then (scanNumber false (c :: cs)).bind fun (f, cs) => number f cs
    else .error (unexpected "u32" (c :: cs))

def readText (cs : Rest) : Scan Datum :=
  match skipBlanks cs with
  | [] => .error .truncated
  | '"' :: cs => (scanString cs).map fun (s, cs) => (.text (String.ofList s), cs)
  | cs => .error (unexpected "a string" cs)

def readNull (cs : Rest) : Except LoadError Rest :=
  match skipBlanks cs with
  | [] => .error .truncated
  | 'n' :: cs => expectWord ['u', 'l', 'l'] cs
  | cs => .error (unexpected "unit" cs)

/-- Reads a variant's name, behind its quote, to its position among the names. -/
def readName (names : List String) (cs : Rest) : Except LoadError (Nat × Rest) := do
  let (name, cs) ← scanString cs
  match names.idxOf? (String.ofList name) with
  | some i => .ok (i, cs)
  | none => .error (.data (.unknownVariant (String.ofList name) names))

/-- Reads a variant; `nested` says whether another container may be opened. -/
def readVariant (nested : Bool) (names : List String) (cs : Rest) : Except LoadError (Datum × Rest) :=
  match skipBlanks cs with
  | [] => .error .truncated
  | '"' :: cs => (readName names cs).map fun (i, cs) => (.variant i, cs)
  | '\x7b' :: cs =>
    if !nested then .error .malformed
    else match skipBlanks cs with
      | [] => .error .truncated
      | '"' :: cs => do
        let (i, cs) ← readName names cs
        let cs ← readNull (← expectColon cs)
        match skipBlanks cs with
        | [] => .error .truncated
        | '\x7d' :: cs => .ok (.variant i, cs)
        | _ => .error .malformed
      | _ => .error .malformed
  | _ => .error .malformed

/-! ## Lists -/

/-- The items of a list behind its bracket, or behind an item when `first` is false, up to and past the closing
bracket. -/
def readItems (item : Rest → Scan Datum) : Nat → Bool → Rest → Except LoadError (List Datum × Rest)
  | 0, _, _ => .error .truncated
  | steps + 1, first, cs =>
    let next (cs : Rest) : Except LoadError (List Datum × Rest) := do
      let (d, cs) ← item cs
      let (ds, cs) ← readItems item steps false cs
      .ok (d :: ds, cs)
    match skipBlanks cs with
    | [] => .error .truncated
    | ']' :: cs => .ok ([], cs)
    | c :: cs =>
      if first then next (c :: cs)
      else if c ≠ ',' then .error .malformed
      else match skipBlanks cs with
        | [] => .error .truncated
        | ']' :: _ => .error .malformed
        | cs => next cs

/-! ## Records as lists -/

/-- The rest of a record's fields given by position; `i` of them were read before. -/
def readPositions (read : Reader ρ) (spec : RecordSpec ρ) :
    Nat → List (FieldSpec ρ) → Rest → Except LoadError (List Datum × Rest)
  | _, [], cs => .ok ([], cs)
  | i, f :: fs, cs =>
    let next (cs : Rest) : Except LoadError (List Datum × Rest) := do
      let (d, cs) ← read f.schema cs
      let (ds, cs) ← readPositions read spec (i + 1) fs cs
      .ok (d :: ds, cs)
    match skipBlanks cs with
    | [] => .error .truncated
    | ']' :: _ =>
      match f.fallback? with
      | some d => do
        let (ds, cs) ← readPositions read spec (i + 1) fs cs
        .ok (d :: ds, cs)
      | none => .error (.data (.tooShort i spec.title spec.fields.length))
    | c :: cs =>
      if i = 0 then next (c :: cs)
      else if c ≠ ',' then .error .malformed
      else match skipBlanks cs with
        | [] => .error .truncated
        | ']' :: _ => .error .malformed
        | cs => next cs

/-- A record given by position, behind its bracket. -/
def readList (read : Reader ρ) (spec : RecordSpec ρ) (cs : Rest) : Except LoadError (Datum × Rest) := do
  let (ds, cs) ← readPositions read spec 0 spec.fields cs
  match skipBlanks cs with
  | [] => .error .truncated
  | ']' :: cs => .ok (.record ds, cs)
  | _ => .error .malformed

/-! ## Records as objects -/

/-- The fields of a record with those of `values` that were read; the first that is needed and missing is a fault. -/
def complete : List (FieldSpec ρ) → List (Option Datum) → Except LoadError (List Datum)
  | [], _ => .ok []
  | f :: fs, values =>
    match values.head?.join, f.fallback? with
    | some d, _ | none, some d => (complete fs values.tail).map (d :: ·)
    | none, none => .error (.data (.missingField f.key))

/-- The members of an object behind its brace, or behind a member when `first` is false, up to and past the closing
brace. `values` holds the fields that were read. -/
def readMembers (read : Reader ρ) (fields : List (FieldSpec ρ)) :
    Nat → Bool → List (Option Datum) → Rest → Except LoadError (List Datum × Rest)
  | 0, _, _, _ => .error .truncated
  | steps + 1, first, values, cs =>
    let member (cs : Rest) : Except LoadError (List Datum × Rest) := do
      let (key, cs) ← scanString cs
      match fields.findIdx? (·.key = String.ofList key), fields.find? (·.key = String.ofList key) with
      | some i, some f =>
        if (values[i]?.join).isSome then throw (.data (.duplicateField f.key))
        let (d, cs) ← read f.schema (← expectColon cs)
        readMembers read fields steps false (values.set i (some d)) cs
      | _, _ => do readMembers read fields steps false values (← skipValue steps (← expectColon cs))
    match skipBlanks cs with
    | [] => .error .truncated
    | '\x7d' :: cs => (complete fields values).map fun ds => (ds, cs)
    | c :: cs =>
      if first then (if c = '"' then member cs else .error .malformed)
      else if c ≠ ',' then .error .malformed
      else match skipBlanks cs with
        | [] => .error .truncated
        | '"' :: cs => member cs
        | _ => .error .malformed

def readObject (read : Reader ρ) (fields : List (FieldSpec ρ)) (steps : Nat) (cs : Rest) : Scan Datum :=
  (readMembers read fields steps true (fields.map fun _ => none) cs).map fun (ds, cs) => (.record ds, cs)

/-! ## Any value -/

/-- Reads a value where `inner` reads the values inside a container that is opened here, if one may be. -/
def readWith (env : ρ → RecordSpec ρ) (steps : Nat) (inner? : Option (Reader ρ)) : Reader ρ
  | .number, cs => readNumber cs
  | .text, cs => readText cs
  | .variant names, cs => readVariant inner?.isSome names cs
  | .optional s, cs =>
    match skipBlanks cs with
    | 'n' :: cs => (expectWord ['u', 'l', 'l'] cs).map fun cs => (.absent, cs)
    | cs => readWith env steps inner? s cs
  | .list s, cs =>
    match skipBlanks cs, inner? with
    | [], _ => .error .truncated
    | '[' :: cs, some inner => (readItems (inner s) steps true cs).map fun (ds, cs) => (.list ds, cs)
    | '[' :: _, none => .error .malformed
    | cs, _ => .error (unexpected "a sequence" cs)
  | .record r, cs =>
    match skipBlanks cs, inner? with
    | [], _ => .error .truncated
    | '[' :: cs, some inner => readList inner (env r) cs
    | '\x7b' :: cs, some inner => readObject inner (env r).fields steps cs
    | '[' :: _, none | '\x7b' :: _, none => .error .malformed
    | cs, _ => .error (unexpected s!"struct {(env r).title}" cs)

/-- Reads a value in which at most `depth` containers are open at once. -/
def read (env : ρ → RecordSpec ρ) (steps : Nat) : Nat → Reader ρ
  | 0 => readWith env steps none
  | depth + 1 => readWith env steps (some (read env steps depth))

/-- Reads a whole text: one value and blanks around it. -/
def load (env : ρ → RecordSpec ρ) (s : Schema ρ) (text : String) : Except LoadError Datum :=
  match read env text.length depthLimit s text.toList with
  | .error e => .error e
  | .ok (d, cs) =>
    match skipBlanks cs with
    | [] => .ok d
    | _ => .error .malformed

end StageRig.Schema
