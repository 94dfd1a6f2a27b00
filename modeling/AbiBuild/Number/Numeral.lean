import AbiBuild.Number.Binary64
import AbiBuild.Text.Blank
import AbiBuild.Text.Digits
import AbiBuild.Text.Quoted

namespace AbiBuild.Numeral
open AbiBuild.Text

-- A numeral in ASCII: digits of other scripts become ASCII digits, and wide blanks become spaces.
def plain (s : String) : List Char :=
  s.toList.map fun c =>
    if c.toNat < 127 then c
    else match digitValue? c with
      | some d => Char.ofNat (48 + d)
      | none => if isBlank c then ' ' else c

def isPadding (c : Char) : Bool :=
  c = ' ' || c = '\t' || c = '\n' || c = '\r' || c.toNat = 0x0B || c.toNat = 0x0C

def unpad (cs : List Char) : List Char :=
  ((cs.dropWhile isPadding).reverse.dropWhile isPadding).reverse

def takeSign : List Char → Bool × List Char
  | '-' :: rest => (true, rest)
  | '+' :: rest => (false, rest)
  | cs => (false, cs)

def digitIn (base : Nat) (c : Char) : Option Nat :=
  let value :=
    if '0' ≤ c ∧ c ≤ '9' then some (c.toNat - 48)
    else if 'a' ≤ c ∧ c ≤ 'z' then some (c.toNat - 87)
    else if 'A' ≤ c ∧ c ≤ 'Z' then some (c.toNat - 55)
    else none
  value.filter (· < base)

-- A run of digits, each underscore standing between two of them; also gives what follows the run.
structure Run where
  value : Nat
  count : Nat
  rest : List Char
  deriving DecidableEq, Repr

-- `digitBefore` says whether the last character read was a digit; a run that ends otherwise is none.
def runFrom (base : Nat) (digitBefore : Bool) (value count : Nat) : List Char → Option Run
  | [] => if digitBefore then some ⟨value, count, []⟩ else none
  | c :: rest =>
    match digitIn base c with
    | some d => runFrom base true (value * base + d) (count + 1) rest
    | none =>
      if c = '_' then if digitBefore then runFrom base false value count rest else none
      else if digitBefore then some ⟨value, count, c :: rest⟩ else none

inductive IntegerFault
  | malformed (base : Nat) (shown : String)
  | tooManyDigits (count : Nat)
  deriving DecidableEq, Repr

-- Decimal numerals of more digits than this are refused.
def digitLimit : Nat := 4300

-- The quoted numeral is cut after two hundred characters.
def IntegerFault.message : IntegerFault → String
  | .malformed base shown =>
    s!"invalid literal for int() with base {base}: " ++ String.ofList (shown.toList.take 200)
  | .tooManyDigits count =>
    s!"Exceeds the limit ({digitLimit} digits) for integer string conversion: value has {count} " ++
      "digits; use sys.set_int_max_str_digits() to increase the limit"

-- The mark that may stand before the digits of a base, and an underscore that may follow it.
def dropMark (base : Nat) : List Char → List Char
  | '0' :: c :: rest =>
    if (base = 16 ∧ (c = 'x' ∨ c = 'X')) ∨ (base = 8 ∧ (c = 'o' ∨ c = 'O')) ∨
        (base = 2 ∧ (c = 'b' ∨ c = 'B')) then
      match rest with
      | '_' :: digits => digits
      | digits => digits
    else '0' :: c :: rest
  | cs => cs

-- Bases that are powers of two have no digit limit.
def integerIn (base : Nat) (s : String) (shown : String) : Except IntegerFault Int :=
  let (negative, cs) := takeSign ((plain s).dropWhile isPadding)
  match runFrom base false 0 0 (dropMark base cs) with
  | none => .error (.malformed base shown)
  | some run =>
    if base = 10 ∧ digitLimit < run.count then .error (.tooManyDigits run.count)
    else if run.rest.all isPadding then .ok (Binary64.signed negative run.value)
    else .error (.malformed base shown)

def integer (s : String) : Except IntegerFault Int := integerIn 10 s (quoted s)

def lowerWord (cs : List Char) : List Char := cs.map Char.toLower

-- The exponent part: none where there is none, a failure where it is spoilt.
def exponentPart : List Char → Option Int
  | [] => some 0
  | c :: rest =>
    if c = 'e' ∨ c = 'E' then
      let (negative, cs) := takeSign rest
      match runFrom 10 false 0 0 cs with
      | some ⟨value, _, []⟩ => some (Binary64.signed negative value)
      | _ => none
    else none

-- Digits, or a point with digits on at least one side, then an exponent.
def decimalPart (negative : Bool) (cs : List Char) : Option Binary64 := do
  let startsWithDigit := (cs.head?.bind (digitIn 10)).isSome
  let whole ← if startsWithDigit then runFrom 10 false 0 0 cs else some ⟨0, 0, cs⟩
  match whole.rest with
  | '.' :: rest =>
    let hasDigits := (rest.head?.bind (digitIn 10)).isSome
    let part ← if hasDigits then runFrom 10 false whole.value 0 rest else some ⟨whole.value, 0, rest⟩
    if !startsWithDigit && !hasDigits then none
    let exponent ← exponentPart part.rest
    some (Binary64.ofDecimal negative part.value (exponent - Int.ofNat part.count))
  | rest =>
    if !startsWithDigit then none
    let exponent ← exponentPart rest
    some (Binary64.ofDecimal negative whole.value exponent)

def double? (s : String) : Option Binary64 :=
  let (negative, cs) := takeSign (unpad (plain s))
  let word := String.ofList (lowerWord cs)
  if word = "inf" ∨ word = "infinity" then some (.infinite negative)
  else if word = "nan" then some .nan
  else decimalPart negative cs

end AbiBuild.Numeral
