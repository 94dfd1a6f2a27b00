import AbiBuild.CommandLine.Verb
import AbiBuild.Markup.Content

namespace AbiBuild.Program
open AbiBuild.Build AbiBuild.Console

def placeText (l : Location) : String := "/" ++ "/".intercalate l

-- Links and whatever else is neither a directory nor a file are passed over; whether a file may be
-- executed cannot be told from here, and it is taken to be so.
partial def gather (l : Location) (t : FileTree) : IO FileTree := do
  let mut t := t.put l .directory
  for entry in ← (← IO.FS.realPath (placeText l)).readDir do
    let place := l ++ [entry.fileName]
    match (← entry.path.symlinkMetadata).type with
    | .dir => t ← gather place t
    | .file => t := t.put place (.file (← IO.FS.readBinFile entry.path).toList true)
    | _ => pure ()
  return t

def snapshot : IO FileTree := do
  let here := (FilePath.ofText (← IO.currentDir).toString).names
  let above : FileTree := ⟨here, (List.range here.length).map fun n => (here.take n, .directory)⟩
  gather here above

def removeGone (before after : FileTree) : IO Unit := do
  for (l, n) in before.entries do
    if (after.node? l).isNone && n.isFile then IO.FS.removeFile (placeText l)
  for (l, n) in before.entries.mergeSort fun a b => decide (b.1.length ≤ a.1.length) do
    if (after.node? l).isNone && n.isDirectory then IO.FS.removeDir (placeText l)

def writeNew (before after : FileTree) : IO Unit := do
  for (l, n) in after.entries.mergeSort fun a b => decide (a.1.length ≤ b.1.length) do
    if before.node? l != some n then
      match n with
      | .directory => IO.FS.createDirAll (placeText l)
      | .file content _ => IO.FS.writeBinFile (placeText l) ⟨content.toArray⟩
      | .link _ => pure ()

def environment : IO (Table String) := do
  let names := "PATH" :: Ndk.ndkVariables ++ Ndk.sdkVariables
  names.filterMapM fun name => return (← IO.getEnv name).map fun value => (name, value)

def severityText : Severity → String
  | .warning => "WARNING"
  | .error => "ERROR"

def noticeLine (n : Notice) : String := severityText n.severity ++ " " ++ n.text

def present (r : Run) : IO Unit := do
  for n in r.workshop.notices do IO.eprintln (noticeLine n)
  for line in r.printed.output do IO.println line
  for line in r.printed.errors do IO.eprintln line

def compiler : Compiler := .unavailable "no process can be started"

def exitCode : Ending → UInt32
  | .over => 0
  | .status code => UInt32.ofNat code
  | .broken _ => 1

def enter (words : List String) : IO UInt32 := do
  let before ← snapshot
  let r := CommandLine.enter compiler Markup.read (← environment) words (.opened before)
  removeGone before r.workshop.tree
  writeNew before r.workshop.tree
  present r
  match r.ending with
  | .broken cause => IO.eprintln cause.text
  | _ => pure ()
  return exitCode r.ending

end AbiBuild.Program

def main (args : List String) : IO UInt32 := AbiBuild.Program.enter args
