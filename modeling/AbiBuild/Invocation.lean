import AbiBuild.Failure

namespace AbiBuild

structure Invocation where
  variant : Variant
  profile : Profile
  architectures : List Abi
  result? : Abi → Option Compilation

namespace Invocation

def start (variant : Variant) (profile : Profile) (architectures : List Abi) : Invocation :=
  ⟨variant, profile, architectures, fun _ => none⟩

def record (i : Invocation) (c : Compilation) : Invocation :=
  { i with result? := fun a => if a = c.abi then some c else i.result? a }

def forget (i : Invocation) (abi : Abi) : Invocation :=
  { i with result? := fun a => if a = abi then none else i.result? a }

def pending (i : Invocation) : List Abi := i.architectures.filter fun a => (i.result? a).isNone

def results (i : Invocation) : List Compilation := i.architectures.filterMap i.result?

def failures (i : Invocation) : List Compilation := i.results.filter fun c => !c.ok

def succeeded (i : Invocation) : Bool := i.pending.isEmpty && i.failures.isEmpty

-- Anything pending comes before anything failed; every failure is attached either way.
def check (i : Invocation) : Except Failure Unit :=
  match i.pending, i.failures with
  | a :: _, failed => .error (.compilation (.known a) "compilation did not complete" failed)
  | [], first :: others =>
    .error (.compilation (.known first.abi) first.diagnostic (first :: others))
  | [], [] => .ok ()

end Invocation

end AbiBuild
