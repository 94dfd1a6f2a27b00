import AbiBuild.Number.Numeral
import AbiBuild.Value

namespace AbiBuild

inductive NotWhole
  | numeral (fault : Numeral.IntegerFault)
  | nan
  | infinite
  | kind (name : String)
  deriving DecidableEq, Repr

def NotWhole.message : NotWhole → String
  | numeral fault => fault.message
  | nan => "cannot convert float NaN to integer"
  | infinite => "cannot convert float infinity to integer"
  | kind name =>
    "int() argument must be a string, a bytes-like object or a real number, not " ++ Text.quoted name

-- Bytes beyond ASCII spell nothing.
def asciiText (b : Text.Bytes) : String :=
  String.ofList (b.map fun x => if x < 0x80 then Char.ofNat x.toNat else '?')

def Value.whole : Value → Except NotWhole Int
  | .bool b => .ok (if b then 1 else 0)
  | .int n => .ok n
  | .double .nan => .error .nan
  | .double x =>
    match x.truncate? with
    | some n => .ok n
    | none => .error .infinite
  | .text s => (Numeral.integer s).mapError .numeral
  | .bytes b => (Numeral.integerIn 10 (asciiText b) (Text.quotedBytes b)).mapError .numeral
  | v => .error (.kind v.kind)

end AbiBuild
