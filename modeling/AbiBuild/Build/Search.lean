import AbiBuild.FileTree.Access
import AbiBuild.Table

namespace AbiBuild.Build

-- A name that ends in a slash, or in a dot behind one, can only lead to a directory.
def namesDirectory (name : List Char) : Bool :=
  match name.reverse with
  | '/' :: _ => true
  | '.' :: '/' :: _ => true
  | _ => false

def isProgram (t : FileTree) (name : String) : Bool :=
  if namesDirectory name.toList then false
  else
    match t.probe (.ofText name) with
    | .ok (some (.file _ executable)) => executable
    | _ => false

-- An empty directory stands for the current one.
def inDirectory (dir name : String) : String :=
  if dir.isEmpty then name
  else if dir.toList.getLast? = some '/' then dir ++ name
  else dir ++ "/" ++ name

def systemPath : String := "/bin:/usr/bin"

def findProgram (t : FileTree) (searchPath name : String) : Option String :=
  if '/' ∈ name.toList then if isProgram t name then some name else none
  else if searchPath.isEmpty then none
  else
    (((Text.pieces ':' searchPath.toList).map String.ofList).map (inDirectory · name)).find? (isProgram t)

end AbiBuild.Build
