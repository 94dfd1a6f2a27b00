import AbiBuild.Text.Blank
import AbiBuild.Text.Case
import AbiBuild.Value

namespace AbiBuild

inductive Variant
  | debug
  | release
  deriving DecidableEq, Repr, Inhabited

inductive Profile
  | debug
  | release
  deriving DecidableEq, Repr, Inhabited

namespace Variant

def all : List Variant := [debug, release]

def text : Variant → String
  | debug => "debug"
  | release => "release"

def suffix : Variant → String
  | debug => "Debug"
  | release => "Release"

inductive Fault
  | unmapped (name : String)
  | badProfile (key profile : Value)
  | notAName (profile : Value)
  | stated (name : String) (text : String)
  deriving Repr

def Fault.name : Fault → String
  | unmapped name => name
  | badProfile _ profile => profile.display
  | notAName profile => profile.display
  | stated name _ => name

def unmappedText (name : String) : String :=
  s!"Unsupported build variant: {Text.quoted name} (use debug or release)"

def Fault.message : Fault → String
  | unmapped name => unmappedText name
  | badProfile key profile =>
    s!"build_types.{key.display}: unknown native build type {profile.literal} (use debug or release)"
  | notAName profile => "unhashable type: " ++ Text.quoted profile.kind
  | stated name text => if text.isEmpty then unmappedText name else text

def named? (s : String) : Option Variant := all.find? fun v => v.text = s

-- Neither blanks around a name nor its case count.
def parse (name : Value) : Except Fault Variant :=
  match named? (Text.lower (Text.strip name.display)) with
  | some v => .ok v
  | none => .error (.unmapped name.display)

end Variant

namespace Profile

def all : List Profile := [debug, release]

def key : Profile → String
  | debug => "debug"
  | release => "release"

def outputDir : Profile → String := key

def name : Profile → String
  | debug => "dev"
  | release => "release"

def arguments : Profile → List String
  | debug => []
  | release => ["--release"]

def optLevel : Profile → Nat
  | debug => 0
  | release => 3

def debugSymbols : Profile → Bool
  | debug => true
  | release => false

def named? (s : String) : Option Profile := all.find? fun p => p.key = s

def ofValue (key profile : Value) : Except Variant.Fault Profile :=
  match profile with
  | .text s =>
    match named? s with
    | some p => .ok p
    | none => .error (.badProfile key profile)
  | _ => if profile.isKey then .error (.badProfile key profile) else .error (.notAName profile)

end Profile

structure ProfileTable where
  debug : Profile
  release : Profile
  deriving DecidableEq, Repr

namespace ProfileTable

def standard : ProfileTable := ⟨.debug, .release⟩

def get (t : ProfileTable) : Variant → Profile
  | .debug => t.debug
  | .release => t.release

def set (t : ProfileTable) (v : Variant) (p : Profile) : ProfileTable :=
  match v with
  | .debug => { t with debug := p }
  | .release => { t with release := p }

-- Later entries win, also over entries that spell the same variant differently.
def override (t : ProfileTable) : List (Value × Value) → Except Variant.Fault ProfileTable
  | [] => .ok t
  | (key, profile) :: rest => do
    let v ← Variant.parse key
    let p ← Profile.ofValue key profile
    override (t.set v p) rest

end ProfileTable

-- The variant's own name is checked before the overrides are.
def Variant.profile (name : Value) (overrides : List (Value × Value)) : Except Variant.Fault Profile := do
  let v ← Variant.parse name
  let table ← ProfileTable.standard.override overrides
  return table.get v

end AbiBuild
