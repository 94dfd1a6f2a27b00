import AbiBuild.Calendar
import AbiBuild.Number.Numeral
import AbiBuild.Number.Shortest
import AbiBuild.Text.Quoted
import AbiBuild.Text.Utf8

namespace AbiBuild
open AbiBuild.Text

-- `enclosing` is a container met again inside itself.
inductive Value
  | null
  | bool (b : Bool)
  | int (n : Int)
  | double (x : Binary64)
  | text (s : String)
  | bytes (b : Bytes)
  | date (d : Date)
  | instant (t : Instant)
  | list (items : List Value)
  | tuple (items : List Value)
  | map (entries : List (Value × Value))
  | set (members : List Value)
  | enclosing (isMap : Bool)
  deriving Repr, Inhabited

namespace Value

def boolText (b : Bool) : String := if b then "True" else "False"

def bracketed (left right : String) (shown : List String) : String :=
  left ++ ", ".intercalate shown ++ right

def tupleText : List String → String
  | [one] => "(" ++ one ++ ",)"
  | shown => bracketed "(" ")" shown

def setText (shown : List String) : String :=
  if shown.isEmpty then "set()" else bracketed "\x7b" "\x7d" shown

mutual

def literal : Value → String
  | null => "None"
  | bool b => boolText b
  | int n => toString n
  | double x => x.text
  | text s => quoted s
  | bytes b => quotedBytes b
  | date d => d.literal
  | instant t => t.literal
  | list items => bracketed "[" "]" (literals items)
  | tuple items => tupleText (literals items)
  | map entries => bracketed "\x7b" "\x7d" (entryLiterals entries)
  | set members => setText (literals members)
  | enclosing isMap => if isMap then "\x7b...\x7d" else "[...]"

def literals : List Value → List String
  | [] => []
  | v :: rest => v.literal :: literals rest

def entryLiterals : List (Value × Value) → List String
  | [] => []
  | (k, v) :: rest => (k.literal ++ ": " ++ v.literal) :: entryLiterals rest

end

mutual

-- Integers of more digits than a numeral may have are not written, and nothing that holds one is.
def isWritable : Value → Bool
  | int n => n.natAbs < Nat.pow 10 Numeral.digitLimit
  | list items => allWritable items
  | tuple items => allWritable items
  | map entries => entriesWritable entries
  | set members => allWritable members
  | _ => true

def allWritable : List Value → Bool
  | [] => true
  | v :: rest => v.isWritable && allWritable rest

def entriesWritable : List (Value × Value) → Bool
  | [] => true
  | (k, v) :: rest => k.isWritable && v.isWritable && entriesWritable rest

end

def display : Value → String
  | text s => s
  | date d => d.text
  | instant t => t.text
  | v => v.literal

-- What counts as no value: nothing, zero, and whatever is empty.
def isBlank : Value → Bool
  | null => true
  | bool b => !b
  | int n => n == 0
  | double x => x.isZero
  | text s => s.isEmpty
  | bytes b => b.isEmpty
  | list items => items.isEmpty
  | tuple items => items.isEmpty
  | map entries => entries.isEmpty
  | set members => members.isEmpty
  | date _ => false
  | instant _ => false
  | enclosing _ => false

def kind : Value → String
  | null => "NoneType"
  | bool _ => "bool"
  | int _ => "int"
  | double _ => "float"
  | text _ => "str"
  | bytes _ => "bytes"
  | date _ => "datetime.date"
  | instant _ => "datetime.datetime"
  | list _ => "list"
  | tuple _ => "tuple"
  | map _ => "dict"
  | set _ => "set"
  | enclosing isMap => if isMap then "dict" else "list"

-- Only values that cannot change serve as keys.
def isKey : Value → Bool
  | list _ => false
  | map _ => false
  | set _ => false
  | enclosing _ => false
  | _ => true

-- Truth values count as the integers one and zero.
def asInt? : Value → Option Int
  | bool b => some (if b then 1 else 0)
  | int n => some n
  | _ => none

-- Sameness of keys: numbers of any kind by their value, everything else kind by kind.
def sameKey (v w : Value) : Bool :=
  match v.asInt?, w.asInt? with
  | some m, some n => m == n
  | some m, none => match w with
    | double y => y.isInt m
    | _ => false
  | none, some n => match v with
    | double x => x.isInt n
    | _ => false
  | none, none => match v, w with
    | null, null => true
    | double x, double y => x.same y
    | text s, text t => s == t
    | bytes a, bytes b => a == b
    | date d, date e => d == e
    | instant t, instant u => t.same u
    | _, _ => false

-- The key that is already there stays; its value is replaced.
def insert (key value : Value) : List (Value × Value) → List (Value × Value)
  | [] => [(key, value)]
  | (k, v) :: rest =>
    if k.sameKey key then (k, value) :: rest else (k, v) :: insert key value rest

def ofEntries (entries : List (Value × Value)) : List (Value × Value) :=
  entries.foldl (fun done entry => insert entry.1 entry.2 done) []

def lookup (key : String) (entries : List (Value × Value)) : Option Value :=
  (entries.find? fun entry => entry.1.sameKey (text key)).map Prod.snd

end Value

end AbiBuild
