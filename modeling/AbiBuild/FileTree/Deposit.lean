import AbiBuild.FileTree.Access

namespace AbiBuild.FileTree

def settle (t : FileTree) (p : FilePath) (n : Node) : FileTree :=
  match n with
  | .directory => (t.ensureDirectory p).tree
  | .file content executable =>
    match t.locate true p with
    | .ok l => if (t.node? l).any Node.isDirectory then t else t.put l (.file content executable)
    | .error _ => t
  | .link target =>
    match t.locate false p with
    | .ok l => if (t.node? l).isSome then t else t.put l (.link target)
    | .error _ => t

def deposit (t : FileTree) (item : FilePath × Node) : FileTree :=
  ((t.ensureDirectory item.1.parent).tree).settle item.1 item.2

def depositAll (t : FileTree) (items : List (FilePath × Node)) : FileTree := items.foldl deposit t

end AbiBuild.FileTree
