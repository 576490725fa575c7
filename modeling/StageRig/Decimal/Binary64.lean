/-
  StageRig.Decimal.Binary64 — 64-bit floating-point numbers, from and to decimal.

  A nonnegative finite number is a mantissa below 2^53 and a power of two. Arithmetic is
  exact up to one rounding to the nearest number, ties to the even mantissa (`round?`);
  a result past the largest number is `none`.

  `scale?` takes a significand times a power of ten the fast way: one multiplication or
  division by the nearest number to that power, in steps of 10^308. It is not always
  the nearest number to the decimal.

  `shortest` gives the fewest decimal digits that read back as the number, and of those
  the nearest; `text` writes them positionally from 10^-5 up to 10^16 and with a signed
  exponent elsewhere, and always shows a point or an exponent.
-/

namespace StageRig.Decimal

/-- The number `mantissa * 2 ^ exponent`. -/
structure Binary64 where
  mantissa : Nat
  exponent : Int
  deriving DecidableEq, Repr, Inhabited

/-- The numerator and denominator of `n * b ^ e`. -/
def powRatio (b : Nat) (n : Nat) (e : Int) : Nat × Nat :=
  if 0 ≤ e then (n * Nat.pow b e.toNat, 1) else (n, Nat.pow b (-e).toNat)

namespace Binary64

def zero : Binary64 := ⟨0, 0⟩

/-- The smallest mantissa of a number whose exponent is not the least, 2^52. -/
def leading : Nat := 0x10000000000000

/-- The integer nearest to `num / den`, ties to even. -/
def nearest (num den : Nat) : Nat :=
  let q := num / den
  let r := num % den
  if den < 2 * r ∨ (2 * r = den ∧ q % 2 = 1) then q + 1 else q

/-- The floor of the binary logarithm of `num / den`. -/
def log2Ratio (num den : Nat) : Int :=
  let e : Int := num.log2 - den.log2
  let (p, q) := powRatio 2 den e
  if p ≤ num * q then e else e - 1

/-- The number nearest to `num / den`. -/
def round? (num den : Nat) : Option Binary64 :=
  if num = 0 then some zero
  else
    let e := max (log2Ratio num den - 52) (-1074)
    let (p, q) := powRatio 2 den e
    let m := nearest (num * q) p
    let x : Binary64 := if m = 2 * leading then ⟨leading, e + 1⟩ else ⟨m, e⟩
    if 971 < x.exponent then none else some x

/-- The number nearest to a power of ten that is in range. -/
def tenTo (k : Nat) : Binary64 := (round? (Nat.pow 10 k) 1).getD zero

def mul? (x y : Binary64) : Option Binary64 :=
  let (p, q) := powRatio 2 (x.mantissa * y.mantissa) (x.exponent + y.exponent)
  round? p q

def div (x y : Binary64) : Binary64 :=
  let (p, q) := powRatio 2 x.mantissa (x.exponent - y.exponent)
  (round? p (q * y.mantissa)).getD zero

/-- Divides by a power of ten, at most 308 places at a time. -/
def shrink (x : Binary64) (k : Nat) : Binary64 :=
  if x.mantissa = 0 then x
  else if k ≤ 308 then x.div (tenTo k)
  else shrink (x.div (tenTo 308)) (k - 308)
termination_by k

/-- A significand times a power of ten, or `none` past the largest number. -/
def scale? (significand : Nat) (exponent : Int) : Option Binary64 := do
  let x ← round? significand 1
  if exponent < 0 then some (x.shrink (-exponent).toNat)
  else if exponent ≤ 308 then x.mul? (tenTo exponent.toNat)
  else if x.mantissa = 0 then some x
  else none

/-! ## Shortest decimal -/

/-- The multiple of `10 ^ k` that reads back as the number: the nearer of its two neighbours, if in range. -/
def onGrid? (x : Binary64) (k : Int) : Option Nat :=
  -- in units of a quarter of the last place: the number and the ends of the range that rounds to it
  let mid := 4 * x.mantissa
  let low := if x.mantissa = leading ∧ -1074 < x.exponent then mid - 1 else mid - 2
  let high := mid + 2
  let (unit, unitDen) := powRatio 2 1 (x.exponent - 2)
  let (grid, gridDen) := powRatio 10 1 k
  let at4 (n : Nat) : Nat := n * unit * gridDen
  let atGrid (c : Nat) : Nat := c * grid * unitDen
  let inRange (c : Nat) : Bool :=
    if x.mantissa % 2 = 0 then at4 low ≤ atGrid c ∧ atGrid c ≤ at4 high
    else at4 low < atGrid c ∧ atGrid c < at4 high
  let below := at4 mid / (grid * unitDen)
  let above := below + 1
  match decide (0 < below) && inRange below, inRange above with
  | true, true =>
    let down := at4 mid - atGrid below
    let up := atGrid above - at4 mid
    some (if down < up ∨ (down = up ∧ below % 2 = 0) then below else above)
  | true, false => some below
  | false, true => some above
  | false, false => none

/-- The digits and the power of ten of the shortest decimal of a positive number. -/
def shortest (x : Binary64) : Nat × Int :=
  ((List.range 640).findSome? fun (i : Nat) =>
    let k := 310 - (i : Int)
    (x.onGrid? k).map fun n => (n, k)).getD (0, 0)

def text (negative : Bool) (x : Binary64) : String :=
  let sign := if negative then "-" else ""
  if x.mantissa = 0 then sign ++ "0.0"
  else
    let (n, k) := x.shortest
    let digits := n.repr.toList
    let point : Int := digits.length + k
    let zeros (n : Int) : List Char := List.replicate n.toNat '0'
    let body :=
      if 0 ≤ k ∧ point ≤ 16 then digits ++ zeros k ++ ['.', '0']
      else if 0 < point ∧ point ≤ 16 then digits.take point.toNat ++ '.' :: digits.drop point.toNat
      else if -5 < point ∧ point ≤ 0 then '0' :: '.' :: zeros (-point) ++ digits
      else
        let exponent := 'e' :: (if 0 < point then '+' else '-') :: (point - 1).natAbs.repr.toList
        match digits with
        | [d] => d :: exponent
        | d :: ds => d :: '.' :: ds ++ exponent
        | [] => exponent
    sign ++ String.ofList body

end Binary64

end StageRig.Decimal
