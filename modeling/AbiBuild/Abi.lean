import AbiBuild.Text.Blank
import AbiBuild.Value

namespace AbiBuild

inductive Abi
  | x86
  | x86_64
  | arm
  | arm64
  deriving DecidableEq, Repr, Inhabited

namespace Abi

def all : List Abi := [x86, x86_64, arm, arm64]

def text : Abi → String
  | x86 => "x86"
  | x86_64 => "x86_64"
  | arm => "armeabi-v7a"
  | arm64 => "arm64-v8a"

def shortName : Abi → String
  | x86 => "x86"
  | x86_64 => "x86_64"
  | arm => "arm"
  | arm64 => "arm64"

def triple : Abi → String
  | x86 => "i686-linux-android"
  | x86_64 => "x86_64-linux-android"
  | arm => "armv7-linux-androideabi"
  | arm64 => "aarch64-linux-android"

-- Only for 32-bit ARM does the clang wrapper's name differ from the triple.
def clangName : Abi → String
  | x86 => "i686-linux-android"
  | x86_64 => "x86_64-linux-android"
  | arm => "armv7a-linux-androideabi"
  | arm64 => "aarch64-linux-android"

def machine : Abi → Nat
  | x86 => 3
  | arm => 40
  | x86_64 => 62
  | arm64 => 183

def named? (s : String) : Option Abi := all.find? fun a => a.text = s || a.shortName = s

def knownNames : String := "arm, arm64, arm64-v8a, armeabi-v7a, x86, x86_64"

inductive Fault
  | unmapped (declared : Value)
  | noneDeclared
  | stated (name : String) (text : String)
  deriving Repr

def Fault.name : Fault → String
  | unmapped declared => declared.display
  | noneDeclared => ""
  | stated name _ => name

def Fault.message : Fault → String
  | unmapped declared => s!"Unknown architecture: {declared.literal}. Use one of: {knownNames}"
  | noneDeclared => "No target architectures declared"
  | stated name text => if text.isEmpty then "Unknown architecture: " ++ Text.quoted name else text

-- Blanks around a name do not count; its case does.
def parse (declared : Value) : Except Fault Abi :=
  match named? (Text.strip declared.display) with
  | some abi => .ok abi
  | none => .error (.unmapped declared)

def distinct (found : List Abi) : List Abi → List Abi
  | [] => found
  | a :: rest => distinct (if found.contains a then found else found ++ [a]) rest

def resolve (declared : List Value) : Except Fault (List Abi) :=
  if declared.isEmpty then .error .noneDeclared
  else (declared.mapM parse).map (distinct [])

theorem named?_text (a : Abi) : named? a.text = some a := by cases a <;> rfl

theorem named?_shortName (a : Abi) : named? a.shortName = some a := by cases a <;> rfl

end Abi

end AbiBuild
