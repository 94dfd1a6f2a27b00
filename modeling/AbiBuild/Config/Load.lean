import AbiBuild.Config.Resolve
import AbiBuild.Markup.Fault

namespace AbiBuild.Config

inductive ReadFault
  | file (fault : FileFault)
  | markup (fault : Markup.Fault)
  deriving Repr

-- The value in a file; an empty document, or one that holds no value to speak of, is an empty mapping.
def readDocument (reader : Markup.Reader) (t : FileTree) (path : FilePath) : Except ReadFault Value :=
  match t.readText path with
  | .error fault => .error (.file fault)
  | .ok text =>
    match reader text with
    | .error fault => .error (.markup fault)
    | .ok none => .ok (.map [])
    | .ok (some v) => .ok (if v.isBlank then .map [] else v)

def readFailure (path : FilePath) : ReadFault → Failure
  | .file fault =>
    if fault.isSystem then .config (.unreadable path fault.message) else .mishap (.file fault)
  | .markup (.malformed _) => .config (.unreadable path "malformed document")
  | .markup (.scalar fault) => .mishap fault.mishap

-- Paths are taken from the base directory, or from the file's own where none is given.
def load (reader : Markup.Reader) (t : FileTree) (path : FilePath) (base : Option FilePath) :
    Except Failure Config := do
  if !(← Failure.ofFile (t.isFile path)) then throw (.config (.notFound path))
  match ← (readDocument reader t path).mapError (readFailure path) with
  | .map entries => resolve t (some (base.getD path.parent)) entries
  | _ => throw (.config (.notMapping path))

end AbiBuild.Config
