
namespace AbiBuild

-- A finite value is mantissa * 2 ^ exponent, with mantissa < 2 ^ 53 and exponent between -1074 and
-- 971; the mantissa is at least 2 ^ 52 unless the exponent is -1074.
inductive Binary64
  | nan
  | infinite (negative : Bool)
  | finite (negative : Bool) (mantissa : Nat) (exponent : Int)
  deriving DecidableEq, Repr

namespace Binary64

-- Powers with a negative exponent count as one.
def pow2 (k : Int) : Nat := Nat.pow 2 k.toNat

def pow10 (k : Int) : Nat := Nat.pow 10 k.toNat

def roundDiv (num den : Nat) : Nat :=
  let q := num / den
  let r := num % den
  if 2 * r < den then q
  else if den < 2 * r then q + 1
  else if q % 2 = 0 then q else q + 1

-- num / den * 2 ^ -shift as a fraction of naturals.
def scaled (num den : Nat) (shift : Int) : Nat × Nat :=
  (num * pow2 (-shift), den * pow2 shift)

def zero (negative : Bool) : Binary64 := .finite negative 0 (-1074)

def ofRatio (negative : Bool) (num den : Nat) : Binary64 :=
  if num = 0 then zero negative
  else
    let guess : Int := Int.ofNat num.log2 - Int.ofNat den.log2 - 53
    let (n, d) := scaled num den guess
    let exponent := max (-1074) (if n < d * pow2 53 then guess else guess + 1)
    let (n, d) := scaled num den exponent
    let mantissa := roundDiv n d
    let (mantissa, exponent) :=
      if mantissa < pow2 53 then (mantissa, exponent) else (mantissa / 2, exponent + 1)
    if 971 < exponent then .infinite negative else .finite negative mantissa exponent

def ofDyadic (value exponent : Int) : Binary64 :=
  let (num, den) := scaled value.natAbs 1 (-exponent)
  ofRatio (value < 0) num den

def ofInt (value : Int) : Binary64 := ofDyadic value 0

-- The value digits * 10 ^ exponent. Magnitudes beyond every finite number are settled first, so no
-- huge power is ever computed.
def ofDecimal (negative : Bool) (digits : Nat) (exponent : Int) : Binary64 :=
  let size : Int := Int.ofNat (Nat.toDigits 10 digits).length + exponent
  if digits = 0 then zero negative
  else if 310 < size then .infinite negative
  else if size < -330 then zero negative
  else ofRatio negative (digits * pow10 exponent) (pow10 (-exponent))

def negate : Binary64 → Binary64
  | .nan => .nan
  | .infinite s => .infinite (!s)
  | .finite s m e => .finite (!s) m e

def isZero : Binary64 → Bool
  | .finite _ 0 _ => true
  | _ => false

def signed (negative : Bool) (m : Nat) : Int := if negative then -Int.ofNat m else Int.ofNat m

def add : Binary64 → Binary64 → Binary64
  | .nan, _ => .nan
  | _, .nan => .nan
  | .infinite s, .infinite t => if s = t then .infinite s else .nan
  | .infinite s, .finite .. => .infinite s
  | .finite .., .infinite t => .infinite t
  | .finite s m e, .finite t n f =>
    let low := min e f
    let sum := signed s m * pow2 (e - low) + signed t n * pow2 (f - low)
    if sum = 0 then zero (s && t) else ofDyadic sum low

def mul : Binary64 → Binary64 → Binary64
  | .nan, _ => .nan
  | _, .nan => .nan
  | .infinite s, .infinite t => .infinite (s != t)
  | .infinite s, .finite t n _ => if n = 0 then .nan else .infinite (s != t)
  | .finite s m _, .infinite t => if m = 0 then .nan else .infinite (s != t)
  | .finite s m e, .finite t n f =>
    if m = 0 ∨ n = 0 then zero (s != t) else ofDyadic (signed s m * signed t n) (e + f)

def truncate? : Binary64 → Option Int
  | .finite s m e =>
    some (signed s (m * pow2 e / pow2 (-e)))
  | _ => none

def isInt (x : Binary64) (n : Int) : Bool :=
  match x with
  | .finite s m e =>
    signed s m * pow2 e == n * pow2 (-e)
  | _ => false

-- Numerical equality, where both zeros are equal and nothing equals a nan but itself as a value.
def same (x y : Binary64) : Bool := x == y || (x.isZero && y.isZero)

end Binary64

end AbiBuild
