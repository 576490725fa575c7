/-
  StageRig.Schema.Printer — data to JSON text, by schema.

  A list or record with anything in it has one line an item, indented by two spaces a
  level. Strings keep every character that need not be escaped. A blank quiet field of
  a record is not written.
-/

import StageRig.Json.Scan
import StageRig.Schema

namespace StageRig.Schema

open Json

variable {ρ : Type}

def lowerHex (n : Nat) : Char := if n < 10 then Char.ofNat ('0'.toNat + n) else Char.ofNat ('a'.toNat + n - 10)

/-- The written form of a character in a string. -/
def escape (c : Char) : List Char :=
  if c = '"' then ['\\', '"']
  else if c = '\\' then ['\\', '\\']
  else if c = '\x08' then ['\\', 'b']
  else if c = '\x0c' then ['\\', 'f']
  else if c = '\n' then ['\\', 'n']
  else if c = '\r' then ['\\', 'r']
  else if c = '\t' then ['\\', 't']
  else if c < ' ' then ['\\', 'u', '0', '0', lowerHex (c.toNat / 16), lowerHex (c.toNat % 16)]
  else [c]

def printString (s : String) : List Char := '"' :: s.toList.flatMap escape ++ ['"']

/-- A new line at a level. -/
def newline (level : Nat) : List Char := '\n' :: List.replicate (2 * level) ' '

/-- A container at a level with its items, each of which is already written. -/
def bracket (opening closing : Char) (level : Nat) (items : List (List Char)) : List Char :=
  if items.isEmpty then [opening, closing]
  else
    opening :: [','].intercalate (items.map (newline (level + 1) ++ ·)) ++ newline level ++ [closing]

mutual

/-- A value at a level. -/
def print (env : ρ → RecordSpec ρ) (level : Nat) : Datum → Schema ρ → List Char
  | .absent, _ => ['n', 'u', 'l', 'l']
  | .number n, _ => n.toNat.repr.toList
  | .text s, _ => printString s
  | .variant i, s => printString (s.names.getD i "")
  | .list ds, s => bracket '[' ']' level (printItems env (level + 1) ds s.item)
  | .record ds, s => bracket '\x7b' '\x7d' level (printFields env (level + 1) ds (s.fields env))

def printItems (env : ρ → RecordSpec ρ) (level : Nat) : List Datum → Schema ρ → List (List Char)
  | [], _ => []
  | d :: ds, s => print env level d s :: printItems env level ds s

def printFields (env : ρ → RecordSpec ρ) (level : Nat) : List Datum → List (FieldSpec ρ) → List (List Char)
  | d :: ds, f :: fs =>
    if f.quiet && d.isBlank then printFields env level ds fs
    else (printString f.key ++ [':', ' '] ++ print env level d f.schema) :: printFields env level ds fs
  | _, _ => []

end

/-- The whole text of a document. -/
def render (env : ρ → RecordSpec ρ) (s : Schema ρ) (d : Datum) : String := String.ofList (print env 0 d s)

end StageRig.Schema
