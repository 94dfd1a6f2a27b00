import AbiBuild.Failure
import AbiBuild.Table

namespace AbiBuild.Tasks

-- What each task directly needs, tasks in the order of their registration.
abbrev Needs := Table (List String)

structure Edge where
  before : String
  after : String
  deriving DecidableEq, Repr

def edges (needs : Needs) : List Edge :=
  needs.flatMap fun (task, before) => before.map fun b => ⟨b, task⟩

def needsOf (needs : Needs) (task : String) : Except Failure (List String) :=
  match needs.get? task with
  | some before => .ok before
  | none => .error (.mishap (.key (.noSuchTask task)))

-- The chain under way from its first `task` on, closed by `task` again.
def cycleFrom (task : String) (path : List String) : List String :=
  path.dropWhile (· ≠ task) ++ [task]

-- `path` leads from the wanted task down to this one, and `done` are the tasks ordered so far. A path
-- without a cycle is never longer than there are tasks, so `depth` need not exceed their number.
def visit (needs : Needs) : Nat → List String → List String → String → Except Failure (List String)
  | depth, path, done, task =>
    if task ∈ done then .ok done
    else if task ∈ path then .error (.cycle (cycleFrom task path))
    else
      match depth with
      | 0 => .ok done
      | depth + 1 => do
        let before ← needsOf needs task
        let done ← before.foldlM (visit needs depth (path ++ [task])) done
        return done ++ [task]

def order (needs : Needs) (name : String) : Except Failure (List String) :=
  visit needs (needs.length + 1) [] [] name

-- Adding a prerequisite that is there already changes nothing.
def addNeed (needs : Needs) (task before : String) : Except Failure Needs := do
  let present ← needsOf needs task
  return if before ∈ present then needs else needs.put task (present ++ [before])

end AbiBuild.Tasks
