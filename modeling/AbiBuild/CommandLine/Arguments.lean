import AbiBuild.CommandLine.Word
import AbiBuild.FileTree.Walk

namespace AbiBuild.CommandLine

inductive Halt
  | help
  | refused (complaint : Complaint)
  | broken (cause : FileFault)
  deriving DecidableEq, Repr

-- What has been taken so far. `argument` is the name of the plain argument still to come.
structure Arguments where
  argument : Option String
  given : String
  config : Option FilePath
  projectRoot : Option FilePath
  verbose : Bool
  surplus : List String
  deriving DecidableEq, Repr

namespace Arguments

def expecting (argument : Option String) : Arguments := ⟨argument, "", none, none, false, []⟩

def give (a : Arguments) (text : String) : Arguments := { a with argument := none, given := text }

def leave (a : Arguments) (words : List String) : Arguments :=
  { a with surplus := a.surplus ++ words }

-- A path that cannot be one is refused; one that leads round in circles is no matter of arguments.
def path (t : FileTree) (s : Switch) (value : String) : Except Halt FilePath :=
  match t.resolve (.ofText value) with
  | .ok p => .ok p
  | .error .nulInPath => .error (.refused (.unusablePath s value))
  | .error fault => .error (.broken fault)

def flag (a : Arguments) : Switch → Except Halt Arguments
  | .help => .error .help
  | .verbose => .ok { a with verbose := true }
  | s => .error (.refused (.needsValue s))

-- The last value given for a switch counts.
def setting (t : FileTree) (a : Arguments) (s : Switch) (value : String) : Except Halt Arguments := do
  match s with
  | .config => return { a with config := some (← path t s value) }
  | .projectRoot => return { a with projectRoot := some (← path t s value) }
  | s => throw (.refused (.takesNoValue s value))

def request (t : FileTree) (a : Arguments) : Request → Except Halt Arguments
  | .flag s => a.flag s
  | .valued s value => setting t a s value
  | .wanting s => .error (.refused (.needsValue s))
  | .stray word => .ok (a.leave [word])

-- What stands behind the double dash, which itself is passed over only next to the plain argument.
def close (a : Arguments) : Option (List String) → Arguments
  | none => a
  | some [] => a.leave ["--"]
  | some (text :: rest) =>
    if a.argument.isSome then (a.give text).leave rest else a.leave ("--" :: text :: rest)

def follow (t : FileTree) (behind : Option (List String)) :
    List Word → Arguments → Except Halt Arguments
  | [], a => .ok (a.close behind)
  | .plain text :: rest, a =>
    if a.argument.isNone then follow t behind rest (a.leave [text])
    else if rest.isEmpty then .ok ((a.give text).leave (behind.getD []))
    else follow t behind rest (a.give text)
  | .switches [.wanting s] :: .plain value :: rest, a => do
    follow t behind rest (← setting t a s value)
  | .faulty complaint :: _, _ => .error (.refused complaint)
  | .switches requests :: rest, a => do follow t behind rest (← requests.foldlM (request t) a)

-- Words that stay unread are refused, but only after all the others have been taken.
def complete (a : Arguments) : Except Halt Arguments :=
  match a.argument, a.surplus with
  | some name, _ => .error (.refused (.missing name))
  | none, [] => .ok a
  | none, words => .error (.refused (.surplus words))

def beforeDashes (words : List String) : List String := words.takeWhile (· ≠ "--")

def behindDashes (words : List String) : Option (List String) := (words.dropWhile (· ≠ "--")).tail?

-- Every word before the double dash is read before any is followed.
def read (t : FileTree) (argument : Option String) (words : List String) : Except Halt Arguments := do
  let known ← ((beforeDashes words).mapM Word.read).mapError .refused
  let taken ← follow t (behindDashes words) known (expecting argument)
  taken.complete

end Arguments

end AbiBuild.CommandLine
