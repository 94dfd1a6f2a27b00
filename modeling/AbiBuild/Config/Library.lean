import AbiBuild.Failure

namespace AbiBuild.Config
open AbiBuild.Text

def librarySuffix : List Char := ".so".toList

def isPathMark (c : Char) : Bool := c = '/' || c = backslash

def isLibraryName (s : String) : Bool :=
  librarySuffix.isSuffixOf s.toList && !s.toList.any isPathMark && s.toList ≠ librarySuffix

def libraryName (before : List String) : Value → Except Fault String
  | .text s =>
    if !librarySuffix.isSuffixOf s.toList then .error (.notLibraryName (.text s))
    else if s.toList.any isPathMark || s.toList = librarySuffix then .error (.libraryInPath s)
    else if s ∈ before then .error (.libraryTwice s)
    else .ok s
  | v => .error (.notLibraryName v)

def libraryNamesFrom (before : List String) : List Value → Except Fault (List String)
  | [] => .ok before
  | v :: rest => do
    let name ← libraryName before v
    libraryNamesFrom (before ++ [name]) rest

def libraryNames (declared : List Value) : Except Fault (List String) :=
  if declared.isEmpty then .error .noLibraries else libraryNamesFrom [] declared

end AbiBuild.Config
