import AbiBuild.Number.Binary64

namespace AbiBuild.Binary64

-- The numbers that round to mantissa * 2 ^ exponent, as a closed or open interval of
-- quarter units: bounds are multiples of 2 ^ (exponent - 2).
structure Neighbourhood where
  low : Nat
  high : Nat
  closed : Bool

def neighbourhood (mantissa : Nat) (exponent : Int) : Neighbourhood where
  low := if mantissa = pow2 52 ∧ -1074 < exponent then 4 * mantissa - 1 else 4 * mantissa - 2
  high := 4 * mantissa + 2
  closed := mantissa % 2 = 0

def Neighbourhood.holds (r : Neighbourhood) (quarter : Int) (digits : Nat) (grid : Int) : Bool :=
  let left := digits * pow10 grid * pow2 (-quarter)
  let scale := pow2 quarter * pow10 (-grid)
  if r.closed then r.low * scale ≤ left && left ≤ r.high * scale
  else r.low * scale < left && left < r.high * scale

-- The decimal exponent of num / den: the greatest k with 10 ^ k ≤ num / den, from an estimate that
-- is never too small by more than one.
def decimalExponent (num den : Nat) : Int :=
  let fits (k : Int) : Bool := den * pow10 k ≤ num * pow10 (-k)
  let guess : Int := (Int.ofNat num.log2 - Int.ofNat den.log2) * 30103 / 100000
  if fits (guess + 1) then guess + 1 else if fits guess then guess
  else if fits (guess - 1) then guess - 1 else guess - 2

-- Of the two grid points around the value, the admissible one that is nearer; a tie goes to the even.
def nearestOnGrid (r : Neighbourhood) (quarter : Int) (num den : Nat) (grid : Int) : Option Nat :=
  let n := num * pow10 (-grid)
  let d := den * pow10 grid
  let below := n / d
  let okBelow := below ≠ 0 && r.holds quarter below grid
  let okAbove := r.holds quarter (below + 1) grid
  if okBelow && okAbove then some (roundDiv n d)
  else if okBelow then some below
  else if okAbove then some (below + 1)
  else none

def searchDigits (r : Neighbourhood) (quarter : Int) (num den : Nat) (top : Int) :
    Nat → Nat → Nat × Int
  | 0, count => (num * pow10 (-(top - count)) / (den * pow10 (top - count)), top - count)
  | fuel + 1, count =>
    match nearestOnGrid r quarter num den (top - count) with
    | some digits => (digits, top - count)
    | none => searchDigits r quarter num den top fuel (count + 1)

-- Seventeen digits always suffice.
def shortest (mantissa : Nat) (exponent : Int) : Nat × Int :=
  let num := mantissa * pow2 exponent
  let den := pow2 (-exponent)
  searchDigits (neighbourhood mantissa exponent) (exponent - 2) num den (decimalExponent num den) 17 0

def dropZeros : Nat → Nat → Int → Nat × Int
  | 0, digits, grid => (digits, grid)
  | fuel + 1, digits, grid =>
    if digits ≠ 0 ∧ digits % 10 = 0 then dropZeros fuel (digits / 10) (grid + 1) else (digits, grid)

def zeros (n : Nat) : String := String.ofList (List.replicate n '0')

-- Numbers from 10 ^ -4 up to 10 ^ 16 are written positionally, with a point and at least one digit on
-- each side of it; all others have an exponent of at least two digits with its sign.
def layout (digits : String) (point : Int) : String :=
  let count := digits.length
  if -4 < point ∧ point ≤ 16 then
    if point ≤ 0 then "0." ++ zeros (-point).toNat ++ digits
    else if count ≤ point.toNat then digits ++ zeros (point.toNat - count) ++ ".0"
    else String.ofList (digits.toList.take point.toNat) ++ "." ++
      String.ofList (digits.toList.drop point.toNat)
  else
    let exponent := point - 1
    let size := toString exponent.natAbs
    let first := String.ofList (digits.toList.take 1)
    let rest := String.ofList (digits.toList.drop 1)
    first ++ (if rest.isEmpty then "" else "." ++ rest) ++ "e" ++
      (if exponent < 0 then "-" else "+") ++ (if size.length < 2 then "0" ++ size else size)

def text : Binary64 → String
  | .nan => "nan"
  | .infinite s => if s then "-inf" else "inf"
  | .finite s m e =>
    let sign := if s then "-" else ""
    if m = 0 then sign ++ "0.0"
    else
      let (digits, grid) := shortest m e
      let (digits, grid) := dropZeros 20 digits grid
      let shown := toString digits
      sign ++ layout shown (Int.ofNat shown.length + grid)

-- One digit after the point, rounded from the exact value.
def tenths : Binary64 → String
  | .nan => "nan"
  | .infinite s => if s then "-inf" else "inf"
  | .finite s m e =>
    let scaledUp := roundDiv (m * pow2 e * 10) (pow2 (-e))
    (if s then "-" else "") ++ toString (scaledUp / 10) ++ "." ++ toString (scaledUp % 10)

end AbiBuild.Binary64
