import AbiBuild.Tasks.Order

namespace AbiBuild.Tasks

inductive Answer
  | nothing
  | flag (value : Bool)
  | names (list : List String)
  | edges (list : List Edge)
  deriving DecidableEq, Repr

inductive Question
  | contains (name : String)
  | tasks
  | edges
  | needs (task : String)
  | order (name : String)
  deriving DecidableEq, Repr

-- `σ` is the world that actions work on.
inductive Program (σ : Type) : Type
  | done (answer : Answer)
  | fail (cause : Failure)
  | perform (effect : σ → σ × Option Failure) (next : Option Failure → Program σ)
  | register (name : String) (action : Program σ) (next : Option Failure → Program σ)
  | addNeed (task before : String) (next : Option Failure → Program σ)
  | whenAdded (listener : String → Program σ) (next : Option Failure → Program σ)
  | ask (question : Question) (next : Except Failure Answer → Program σ)
  | run (name : String) (next : Except Failure (List String) → Program σ)
  | wire (variants : List Variant) (build : Variant → Program σ)
      (next : Except Failure Answer → Program σ)

namespace Program

-- Goes on after a step that succeeded, and fails where the step failed.
def orFail (next : Program σ) : Option Failure → Program σ
  | none => next
  | some cause => .fail cause

def skip : Program σ := .done .nothing

def answered : Except Failure Answer → Program σ
  | .ok answer => .done answer
  | .error cause => .fail cause

def andThen (first second : Program σ) : Program σ :=
  match first with
  | done _ => second
  | fail cause => fail cause
  | perform effect next => perform effect fun r => (next r).andThen second
  | register name action next => register name action fun r => (next r).andThen second
  | addNeed task before next => addNeed task before fun r => (next r).andThen second
  | whenAdded listener next => whenAdded listener fun r => (next r).andThen second
  | ask question next => ask question fun r => (next r).andThen second
  | run name next => run name fun r => (next r).andThen second
  | wire variants build next => wire variants build fun r => (next r).andThen second

def all (programs : List (Program σ)) : Program σ := programs.foldr andThen skip

end Program

end AbiBuild.Tasks
