
namespace AbiBuild

inductive Severity
  | warning
  | error
  deriving DecidableEq, Repr

inductive Origin
  | ndk
  | compilation
  | placement
  deriving DecidableEq, Repr

structure Notice where
  severity : Severity
  origin : Origin
  text : String
  deriving DecidableEq, Repr

def Notice.warning (origin : Origin) (text : String) : Notice := ⟨.warning, origin, text⟩

def Notice.error (origin : Origin) (text : String) : Notice := ⟨.error, origin, text⟩

end AbiBuild
