import AbiBuild.Text.Quoted

namespace AbiBuild.Markup.Implicit

def standardStem : String := "tag:yaml.org,2002:"

def standard (name : String) : String := standardStem ++ name

def nullTag : String := standard "null"
def boolTag : String := standard "bool"
def intTag : String := standard "int"
def floatTag : String := standard "float"
def timestampTag : String := standard "timestamp"
def mergeTag : String := standard "merge"
def valueTag : String := standard "value"
def indicatorTag : String := standard "yaml"
def textTag : String := standard "str"
def sequenceTag : String := standard "seq"
def mappingTag : String := standard "map"
def setTag : String := standard "set"
def orderedTag : String := standard "omap"
def pairsTag : String := standard "pairs"
def binaryTag : String := standard "binary"

def boolWords : List String :=
  ["yes", "Yes", "YES", "no", "No", "NO", "true", "True", "TRUE", "false", "False", "FALSE",
   "on", "On", "ON", "off", "Off", "OFF"]

def nullWords : List String := ["~", "null", "Null", "NULL", ""]

def isDecimal (c : Char) : Bool := '0' ≤ c && c ≤ '9'

def isOctal (c : Char) : Bool := '0' ≤ c && c ≤ '7'

def isHex (c : Char) : Bool := isDecimal c || ('a' ≤ c && c ≤ 'f') || ('A' ≤ c && c ≤ 'F')

def isSpaced (p : Char → Bool) (c : Char) : Bool := p c || c = '_'

def dropSign : List Char → List Char
  | '-' :: rest => rest
  | '+' :: rest => rest
  | cs => cs

def someOf (p : Char → Bool) (cs : List Char) : Bool := !cs.isEmpty && cs.all p

def parts : List Char → List (List Char)
  | [] => [[]]
  | ':' :: rest => [] :: parts rest
  | c :: rest =>
    match parts rest with
    | [] => [[c]]
    | first :: others => (c :: first) :: others

def isSixtieth : List Char → Bool
  | [a] => isDecimal a
  | [a, b] => '0' ≤ a && a ≤ '5' && isDecimal b
  | _ => false

def isSpacedNumber (first : Char → Bool) : List Char → Bool
  | c :: rest => first c && rest.all (isSpaced isDecimal)
  | [] => false

def isPositive (c : Char) : Bool := '1' ≤ c && c ≤ '9'

def isUnsignedInt (cs : List Char) : Bool :=
  (match cs with
    | '0' :: 'b' :: digits => someOf (fun c => c = '0' || c = '1' || c = '_') digits
    | '0' :: 'x' :: digits => someOf (isSpaced isHex) digits
    | '0' :: digits => digits.all (isSpaced isOctal)
    | _ => false) ||
    isSpacedNumber isPositive cs ||
    match parts cs with
    | first :: second :: others =>
      isSpacedNumber isPositive first && (second :: others).all isSixtieth
    | _ => false

def isInt (cs : List Char) : Bool := isUnsignedInt (dropSign cs)

def isExponent : List Char → Bool
  | [] => true
  | e :: sign :: digits =>
    (e = 'e' || e = 'E') && (sign = '-' || sign = '+') && someOf isDecimal digits
  | _ => false

def isFraction (cs : List Char) : Bool := isExponent (cs.dropWhile (isSpaced isDecimal))

def isPointed (cs : List Char) : Bool :=
  isSpacedNumber isDecimal (cs.takeWhile (· ≠ '.')) &&
    match cs.dropWhile (· ≠ '.') with
    | _ :: rest => isFraction rest
    | [] => false

def isBarePointed : List Char → Bool
  | '.' :: c :: rest => isDecimal c && isFraction rest
  | _ => false

def isSexagesimal (cs : List Char) : Bool :=
  let whole := cs.takeWhile (· ≠ '.')
  match cs.dropWhile (· ≠ '.'), parts whole with
  | _ :: fraction, first :: second :: others =>
    isSpacedNumber isDecimal first && (second :: others).all isSixtieth &&
      fraction.all (isSpaced isDecimal)
  | _, _ => false

def isInfinity (cs : List Char) : Bool :=
  String.ofList cs ∈ [".inf", ".Inf", ".INF"]

def isNan (cs : List Char) : Bool := String.ofList cs ∈ [".nan", ".NaN", ".NAN"]

def isFloat (cs : List Char) : Bool :=
  let bare := dropSign cs
  isPointed bare || isBarePointed cs || isSexagesimal bare || isInfinity bare || isNan cs

def digits (lengths : List Nat) (cs : List Char) : Option (List Char × List Char) :=
  let run := cs.takeWhile isDecimal
  (lengths.find? fun n => n = run.length).map fun n => (cs.take n, cs.drop n)

def upTo (most : Nat) (cs : List Char) : Option (List Char × List Char) :=
  let run := (cs.take most).takeWhile isDecimal
  if run.isEmpty then none else some (run, cs.drop run.length)

def char (c : Char) : List Char → Option (List Char)
  | d :: rest => if c = d then some rest else none
  | [] => none

def isGap (c : Char) : Bool := c = ' ' || c = '\t'

structure Stamp where
  year : List Char
  month : List Char
  day : List Char
  time : Option (List Char × List Char × List Char)
  fraction : List Char
  zone : Option (Bool × List Char × List Char)
  isUniversal : Bool

def zone (stamp : Stamp) (cs : List Char) : Option Stamp :=
  match cs.dropWhile isGap with
  | [] => if cs.isEmpty then some stamp else none
  | ['Z'] => some { stamp with isUniversal := true }
  | sign :: rest =>
    if sign = '+' ∨ sign = '-' then do
      let (hour, rest) ← upTo 2 rest
      match rest with
      | [] => some { stamp with zone := some (sign = '-', hour, []) }
      | ':' :: minute =>
        if minute.length = 2 ∧ minute.all isDecimal then
          some { stamp with zone := some (sign = '-', hour, minute) }
        else none
      | _ => none
    else none

def dayTime (stamp : Stamp) (cs : List Char) : Option Stamp := do
  let rest ← match cs with
    | 'T' :: rest => some rest
    | 't' :: rest => some rest
    | c :: rest => if isGap c then some (rest.dropWhile isGap) else none
    | [] => none
  let (hour, rest) ← upTo 2 rest
  let (minute, rest) ← (char ':' rest).bind (digits [2])
  let rest ← char ':' rest
  let second := rest.take 2
  if second.length ≠ 2 ∨ !second.all isDecimal then none
  let rest := rest.drop 2
  let stamp := { stamp with time := some (hour, minute, second) }
  match rest with
  | '.' :: rest =>
    zone { stamp with fraction := rest.takeWhile isDecimal } (rest.dropWhile isDecimal)
  | rest => zone stamp rest

def stamp? (cs : List Char) : Option Stamp := do
  let (year, rest) ← digits [4] cs
  let (month, rest) ← (char '-' rest).bind (digits [1, 2])
  let rest ← char '-' rest
  let (day, rest) ← upTo 2 rest
  let stamp : Stamp := ⟨year, month, day, none, [], none, false⟩
  if rest.isEmpty then some stamp else dayTime stamp rest

-- A date alone has two digits for the month and two for the day.
def isTimestamp (cs : List Char) : Bool :=
  match stamp? cs with
  | some s => s.time.isSome || (s.month.length = 2 && s.day.length = 2)
  | none => false

def dropLineEnd (cs : List Char) : List Char :=
  if cs.getLast? = some '\n' then cs.dropLast else cs

def tagOf (text : String) : String :=
  let cs := dropLineEnd text.toList
  let bare := String.ofList cs
  if bare ∈ boolWords then boolTag
  else if isFloat cs then floatTag
  else if isInt cs then intTag
  else if bare = "<<" then mergeTag
  else if bare ∈ nullWords && !(text = "\n") then nullTag
  else if isTimestamp cs then timestampTag
  else if bare = "=" then valueTag
  else if bare ∈ ["!", "&", "*"] then indicatorTag
  else textTag

end AbiBuild.Markup.Implicit
