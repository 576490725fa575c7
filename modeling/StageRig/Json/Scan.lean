/-
  StageRig.Json.Scan — the pieces of JSON text, read from the front.

  Every scanner takes the text that is left and answers with what it read and the text
  behind it, or with the first fault. `truncated` means that the text ended inside the
  piece; anything else that is wrong is `malformed`.

  `scanString` reads a string behind its opening quote. Characters outside the basic
  plane may be escaped as a pair of surrogates; a surrogate without its partner is a
  fault. An escape by number needs four bytes, so fewer than four left are a text that
  ends too early, whatever they are.

  `scanNumber` reads a number. What it stands for is an integer, or the text of the
  64-bit floating-point number that it denotes.

  `skipValue` passes over a value of any depth without looking at what it says: numbers
  may have any size and strings may hold lone surrogates. Its numbers are faulty, and
  never truncated, when the text ends before a digit that is due.
-/

import StageRig.Decimal.Binary64
import StageRig.Json.Error

namespace StageRig.Json

/-- The text that is left to read. -/
abbrev Rest := List Char

abbrev Scan (α : Type) := Except LoadError (α × Rest)

/-! ## Blanks and words -/

def isBlank (c : Char) : Bool := c = ' ' || c = '\n' || c = '\t' || c = '\r'

def skipBlanks (cs : Rest) : Rest := cs.dropWhile isBlank

/-- Passes over the given characters. -/
def expectWord : List Char → Rest → Except LoadError Rest
  | [], cs => .ok cs
  | _ :: _, [] => .error .truncated
  | w :: ws, c :: cs => if c = w then expectWord ws cs else .error .malformed

/-- Passes over blanks and one colon. -/
def expectColon (cs : Rest) : Except LoadError Rest :=
  match skipBlanks cs with
  | [] => .error .truncated
  | ':' :: cs => .ok cs
  | _ => .error .malformed

/-! ## Strings -/

def hexDigit? (c : Char) : Option Nat :=
  if '0' ≤ c ∧ c ≤ '9' then some (c.toNat - '0'.toNat)
  else if 'a' ≤ c ∧ c ≤ 'f' then some (c.toNat - 'a'.toNat + 10)
  else if 'A' ≤ c ∧ c ≤ 'F' then some (c.toNat - 'A'.toNat + 10)
  else none

/-- The value of four hexadecimal digits. -/
def hex4? (a b c d : Char) : Option Nat := do
  let a ← hexDigit? a
  let b ← hexDigit? b
  let c ← hexDigit? c
  let d ← hexDigit? d
  some (((a * 16 + b) * 16 + c) * 16 + d)

/-- The fault of a text that should start with four hexadecimal digits and does not. -/
def hexFault (cs : Rest) : LoadError :=
  if (cs.take 4).foldl (fun n c => n + c.utf8Size) 0 < 4 then .truncated else .malformed

/-- The character of an escape by letter. -/
def escaped? : Char → Option Char
  | '"' => some '"'
  | '\\' => some '\\'
  | '/' => some '/'
  | 'b' => some '\x08'
  | 'f' => some '\x0c'
  | 'n' => some '\n'
  | 'r' => some '\r'
  | 't' => some '\t'
  | _ => none

def isLeadSurrogate (n : Nat) : Bool := 0xD800 ≤ n && n ≤ 0xDBFF

def isTrailSurrogate (n : Nat) : Bool := 0xDC00 ≤ n && n ≤ 0xDFFF

/-- The character of a surrogate pair. -/
def ofSurrogates (lead trail : Nat) : Char :=
  Char.ofNat ((lead - 0xD800) * 0x400 + (trail - 0xDC00) + 0x10000)

def push (c : Char) (r : Scan (List Char)) : Scan (List Char) := r.map fun (s, rest) => (c :: s, rest)

/-- The characters of a string, up to and past its closing quote. -/
def scanString : Rest → Scan (List Char)
  | [] => .error .truncated
  | '"' :: cs => .ok ([], cs)
  | ['\\'] => .error .truncated
  | '\\' :: 'u' :: cs =>
    match cs with
    | a :: b :: c :: d :: cs' =>
      match hex4? a b c d with
      | none => .error (hexFault cs)
      | some n =>
        if isTrailSurrogate n then .error .malformed
        else if isLeadSurrogate n then
          match cs' with
          | [] => .error .truncated
          | ['\\'] => .error .truncated
          | '\\' :: 'u' :: ds =>
            match ds with
            | a :: b :: c :: d :: ds' =>
              match hex4? a b c d with
              | none => .error (hexFault ds)
              | some m => if isTrailSurrogate m then push (ofSurrogates n m) (scanString ds') else .error .malformed
            | _ => .error (hexFault ds)
          | _ => .error .malformed
        else push (Char.ofNat n) (scanString cs')
    | _ => .error (hexFault cs)
  | '\\' :: c :: cs =>
    match escaped? c with
    | some e => push e (scanString cs)
    | none => .error .malformed
  | c :: cs => if c < ' ' then .error .malformed else push c (scanString cs)

/-! ## Numbers -/

/-- A run of digits, which may be empty. -/
def scanDigits (cs : Rest) : List Char × Rest := (cs.takeWhile Char.isDigit, cs.dropWhile Char.isDigit)

/-- The integer part: a lone zero, or digits of which the first is not zero. -/
def scanWhole : Rest → Scan (List Char)
  | [] => .error .truncated
  | '0' :: cs => if (scanDigits cs).1 = [] then .ok (['0'], cs) else .error .malformed
  | c :: cs => if c.isDigit then .ok (c :: (scanDigits cs).1, (scanDigits cs).2) else .error .malformed

/-- At least one digit. -/
def scanDigits1 (cs : Rest) : Scan (List Char) :=
  match scanDigits cs with
  | ([], []) => .error .truncated
  | ([], _ :: _) => .error .malformed
  | digits => .ok digits

/-- The sign of an exponent; none is a plus. -/
def scanSign : Rest → Bool × Rest
  | '+' :: cs => (false, cs)
  | '-' :: cs => (true, cs)
  | cs => (false, cs)

/-- A number as written. -/
structure Numeral where
  negative : Bool
  whole : List Char
  fraction? : Option (List Char)
  /-- Whether the exponent is negative, and its digits. -/
  exponent? : Option (Bool × List Char)
  deriving DecidableEq, Repr

def digitsValue (cs : List Char) : Nat := cs.foldl (fun n c => 10 * n + (c.toNat - '0'.toNat)) 0

/-- Reads digits into a 64-bit significand; the digits from the first that does not fit are left. -/
def absorb : Nat → List Char → Nat × List Char
  | n, [] => (n, [])
  | n, c :: cs =>
    let n' := 10 * n + (c.toNat - '0'.toNat)
    if n' < UInt64.size then absorb n' cs else (n, c :: cs)

namespace Numeral

def float? (m : Numeral) : Option Found :=
  let (n, dropped) := absorb 0 m.whole
  let (n, unused) := absorb n (m.fraction?.getD [])
  let shift : Int := dropped.length - ((m.fraction?.getD []).length - unused.length : Nat)
  match m.exponent? with
  | none => (Decimal.Binary64.scale? n shift).map fun x => .float (x.text m.negative)
  | some (down, digits) =>
    let e := digitsValue digits
    if UInt32.size / 2 ≤ e then
      if n = 0 ∨ down then some (.float (Decimal.Binary64.zero.text m.negative)) else none
    else (Decimal.Binary64.scale? n (if down then shift - e else shift + e)).map fun x => .float (x.text m.negative)

/-- What a numeral stands for, or `none` past the largest number. -/
def found? (m : Numeral) : Option Found :=
  match m.fraction?, m.exponent? with
  | none, none =>
    let n := digitsValue m.whole
    if m.negative then
      if 0 < n ∧ n ≤ UInt64.size / 2 then some (.integer (-n)) else m.float?
    else if n < UInt64.size then some (.integer n) else m.float?
  | _, _ => m.float?

end Numeral

def scanFraction : Rest → Scan (Option (List Char))
  | '.' :: cs => (scanDigits1 cs).map fun (digits, cs) => (some digits, cs)
  | cs => .ok (none, cs)

def scanExponent (cs : Rest) : Scan (Option (Bool × List Char)) :=
  match cs with
  | c :: cs' =>
    if c = 'e' ∨ c = 'E' then
      let (down, cs'') := scanSign cs'
      (scanDigits1 cs'').map fun (digits, cs) => (some (down, digits), cs)
    else .ok (none, cs)
  | [] => .ok (none, cs)

/-- A number behind its sign. -/
def scanNumeral (negative : Bool) (cs : Rest) : Except LoadError (Numeral × Rest) := do
  let (whole, cs) ← scanWhole cs
  let (fraction?, cs) ← scanFraction cs
  let (exponent?, cs) ← scanExponent cs
  .ok (⟨negative, whole, fraction?, exponent?⟩, cs)

def scanNumber (negative : Bool) (cs : Rest) : Except LoadError (Found × Rest) := do
  let (m, cs) ← scanNumeral negative cs
  match m.found? with
  | some f => .ok (f, cs)
  | none => .error .malformed

/-! ## What stands here -/

/-- What the text starts with, for a message; of a list or map only the bracket is looked at. -/
def scanFound : Rest → Scan Found
  | [] => .error .truncated
  | 'n' :: cs => (expectWord ['u', 'l', 'l'] cs).map fun cs => (.null, cs)
  | 't' :: cs => (expectWord ['r', 'u', 'e'] cs).map fun cs => (.bool true, cs)
  | 'f' :: cs => (expectWord ['a', 'l', 's', 'e'] cs).map fun cs => (.bool false, cs)
  | '-' :: cs => scanNumber true cs
  | '"' :: cs => (scanString cs).map fun (s, cs) => (.text (String.ofList s), cs)
  | '[' :: cs => .ok (.sequence, cs)
  | '{' :: cs => .ok (.map, cs)
  | c :: cs => if c.isDigit then scanNumber false (c :: cs) else .error .malformed

/-- The fault of a text that should go on with something else than it does. -/
def unexpected (expected : String) (cs : Rest) : LoadError :=
  match scanFound cs with
  | .error e => e
  | .ok (f, _) => .data (.wrongType f expected)

/-! ## Passing over values -/

/-- Passes over a string behind its opening quote. -/
def skipString : Rest → Except LoadError Rest
  | [] => .error .truncated
  | '"' :: cs => .ok cs
  | ['\\'] => .error .truncated
  | '\\' :: 'u' :: cs =>
    match cs with
    | a :: b :: c :: d :: cs' => if (hex4? a b c d).isSome then skipString cs' else .error (hexFault cs)
    | _ => .error (hexFault cs)
  | '\\' :: c :: cs => if (escaped? c).isSome then skipString cs else .error .malformed
  | c :: cs => if c < ' ' then .error .malformed else skipString cs

/-- Passes over a number behind its sign. A missing digit is a fault even at the end of the text. -/
def skipNumber (cs : Rest) : Except LoadError Rest :=
  match scanNumeral false cs with
  | .ok (_, cs) => .ok cs
  | .error _ => .error .malformed

inductive Bracket where
  | list
  | map
  deriving DecidableEq, Repr

/-- Passes over a key, its colon, and the blanks around them. -/
def skipKey (cs : Rest) : Except LoadError Rest :=
  match skipBlanks cs with
  | [] => .error .truncated
  | '"' :: cs => do expectColon (← skipString cs)
  | _ => .error .malformed

mutual

/-- Passes over a value and then over the rest of the brackets that are open around it, innermost first. -/
def skipFrom : Nat → List Bracket → Rest → Except LoadError Rest
  | 0, _, _ => .error .truncated
  | fuel + 1, stack, cs =>
    match skipBlanks cs with
    | [] => .error .truncated
    | '[' :: cs =>
      match skipBlanks cs with
      | [] => .error .truncated
      | ']' :: cs => skipAfter fuel stack cs
      | cs => skipFrom fuel (.list :: stack) cs
    | '{' :: cs =>
      match skipBlanks cs with
      | [] => .error .truncated
      | '}' :: cs => skipAfter fuel stack cs
      | cs => do skipFrom fuel (.map :: stack) (← skipKey cs)
    | 'n' :: cs => do skipAfter fuel stack (← expectWord ['u', 'l', 'l'] cs)
    | 't' :: cs => do skipAfter fuel stack (← expectWord ['r', 'u', 'e'] cs)
    | 'f' :: cs => do skipAfter fuel stack (← expectWord ['a', 'l', 's', 'e'] cs)
    | '"' :: cs => do skipAfter fuel stack (← skipString cs)
    | '-' :: cs => do skipAfter fuel stack (← skipNumber cs)
    | c :: cs => if c.isDigit then do skipAfter fuel stack (← skipNumber (c :: cs)) else .error .malformed

/-- Goes on behind a value: to the next one, or out of the innermost bracket. -/
def skipAfter : Nat → List Bracket → Rest → Except LoadError Rest
  | _, [], cs => .ok cs
  | 0, _ :: _, _ => .error .truncated
  | fuel + 1, bracket :: stack, cs =>
    match skipBlanks cs, bracket with
    | [], _ => .error .truncated
    | ',' :: cs, .list => skipFrom fuel (.list :: stack) cs
    | ',' :: cs, .map => do skipFrom fuel (.map :: stack) (← skipKey cs)
    | ']' :: cs, .list => skipAfter fuel stack cs
    | '}' :: cs, .map => skipAfter fuel stack cs
    | _ :: _, _ => .error .malformed

end

/-- Passes over one value. Each step passes at least one character, so `steps` need not exceed their number. -/
def skipValue (steps : Nat) (cs : Rest) : Except LoadError Rest := skipFrom steps [] cs

end StageRig.Json
