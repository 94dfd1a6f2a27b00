import AbiBuild.CommandLine.Arguments
import AbiBuild.Console

namespace AbiBuild.CommandLine
open AbiBuild.Build AbiBuild.Console

inductive Verb
  | build
  | validate
  | run
  | tasks
  deriving DecidableEq, Repr

namespace Verb

def all : List Verb := [build, validate, run, tasks]

def text : Verb → String
  | build => "build"
  | validate => "validate"
  | run => "run"
  | tasks => "tasks"

def named? (word : String) : Option Verb := all.find? fun v => v.text = word

def argument : Verb → Option String
  | build => some "variant"
  | validate => some "variant"
  | run => some "task"
  | tasks => none

def description : Verb → String
  | build => "Build native libraries for every configured ABI"
  | validate => "Validate jniLibs placement for a variant"
  | run => "Run a task and its native build prerequisites"
  | tasks => "List task dependency edges"

end Verb

def programName : String := "ndk-bridge"

def configName : String := "ndk-bridge.yaml"

def overview : List String :=
  ["Usage: ndk-bridge <command> [args...]",
   "Commands:",
   "  build <variant>     - cargo build every configured ABI, copy into jniLibs, validate",
   "  validate <variant>  - Check jniLibs/<variant>/<abi> holds every library",
   "  run <task>          - Run a task after its prerequisites (e.g. javaPreCompileRelease)",
   "  tasks               - List task dependency edges"]

def usageLine (v : Verb) : String :=
  "usage: " ++ programName ++ " [-h] [--config CONFIG] [--project-root PROJECT_ROOT] [-v]" ++
    ((v.argument.map (" " ++ ·)).getD "")

def helpLines (v : Verb) : List String := [usageLine v, "", v.description]

def complaintLines (v : Verb) (c : Complaint) : List String :=
  [usageLine v, programName ++ ": error: " ++ c.message]

-- Help counts as success, and arguments that are not understood give status two.
def halted (v : Verb) (w : Workshop) : Halt → Run
  | .help => .finish 0 (helpLines v) [] w
  | .refused complaint => .finish 2 [] (complaintLines v complaint) w
  | .broken fault => .fail [] (.mishap (.file fault)) w

-- Without a configuration of its own, a project has one under the usual name at its root, and the root
-- is the current directory unless given.
def source (reader : Markup.Reader) (t : FileTree) (a : Arguments) : Source where
  file := a.config.getD ((a.projectRoot.getD ⟨.single, t.here⟩).child configName)
  root := a.projectRoot
  reader := reader

def Verb.perform (v : Verb) (compiler : Compiler) (reader : Markup.Reader) (environ : Table String)
    (a : Arguments) (w : Workshop) : Run :=
  let s := source reader w.tree a
  match v with
  | .build => Console.build compiler environ [] s (.text a.given) w
  | .validate => Console.validate s (.text a.given) w
  | .run => Console.runTask compiler environ s a.given w
  | .tasks => Console.listTasks compiler environ s w

def helpWords : List String := ["-h", "--help", "help"]

def unknownVerbLine (word : String) : String := "Error: Unknown command: " ++ word

def enter (compiler : Compiler) (reader : Markup.Reader) (environ : Table String) (words : List String)
    (w : Workshop) : Run :=
  match words with
  | [] => .finish 1 [] overview w
  | word :: rest =>
    match Verb.named? word with
    | some v =>
      match Arguments.read w.tree v.argument rest with
      | .ok a => v.perform compiler reader environ a w
      | .error halt => halted v w halt
    | none =>
      if word ∈ helpWords then ⟨.over, ⟨[], overview⟩, w⟩
      else .finish 1 [] [unknownVerbLine word] w

end AbiBuild.CommandLine
