import AbiBuild.Number.Numeral
import AbiBuild.Text.Split

namespace AbiBuild.Version
open AbiBuild.Text

inductive Fault
  | malformed (text : String)
  | tooManyDigits (count : Nat)
  deriving DecidableEq, Repr

def Fault.message : Fault → String
  | malformed text => "Invalid version format: " ++ text
  | tooManyDigits count => (Numeral.IntegerFault.tooManyDigits count).message

-- Blanks around a version and any number of leading `v` are left aside.
def bare (s : String) : List Char := (trim s.toList).dropWhile (· = 'v')

def isComponent (cs : List Char) : Bool := !cs.isEmpty && cs.all isDigit

def digitsValue (cs : List Char) : Nat :=
  cs.foldl (fun n c => 10 * n + (digitValue? c).getD 0) 0

def number (cs : List Char) : Except Fault Nat :=
  if Numeral.digitLimit < cs.length then .error (.tooManyDigits cs.length) else .ok (digitsValue cs)

def parse (s : String) : Except Fault (List Nat) :=
  let parts := pieces '.' (bare s)
  if parts.all isComponent then parts.mapM number
  else .error (.malformed (String.ofList (bare s)))

-- Component by component, the shorter version going on with zeros.
def order : List Nat → List Nat → Ordering
  | [], [] => .eq
  | a :: as, [] => (compare a 0).then (order as [])
  | [], b :: bs => (compare 0 b).then (order [] bs)
  | a :: as, b :: bs => (compare a b).then (order as bs)

def compareTexts (s t : String) : Except Fault Ordering := do
  return order (← parse s) (← parse t)

-- A shorter version is the lesser where it is the beginning of a longer one.
def listedBefore : List Nat → List Nat → Bool
  | [], [] => false
  | [], _ :: _ => true
  | _ :: _, [] => false
  | a :: as, b :: bs => a < b || (a == b && listedBefore as bs)

end AbiBuild.Version
