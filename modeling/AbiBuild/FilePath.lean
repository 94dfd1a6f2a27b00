import AbiBuild.Text.Quoted
import AbiBuild.Text.Split

namespace AbiBuild

inductive Root
  | relative
  | single
  | doubled
  deriving DecidableEq, Repr

structure FilePath where
  root : Root
  names : List String
  deriving DecidableEq, Repr

namespace FilePath

def rootOf : List Char → Root
  | '/' :: '/' :: '/' :: _ => .single
  | '/' :: '/' :: _ => .doubled
  | '/' :: _ => .single
  | _ => .relative

def isName (s : String) : Bool := s ≠ "" && s ≠ "."

def ofText (s : String) : FilePath where
  root := rootOf s.toList
  names := ((Text.pieces '/' s.toList).map String.ofList).filter isName

def Root.mark : Root → String
  | .relative => ""
  | .single => "/"
  | .doubled => "//"

def text (p : FilePath) : String :=
  if p.root = .relative ∧ p.names = [] then "."
  else Root.mark p.root ++ "/".intercalate p.names

def isAbsolute (p : FilePath) : Bool := p.root ≠ .relative

-- An absolute path replaces what stands before it.
def join (p q : FilePath) : FilePath :=
  if q.isAbsolute then q else ⟨p.root, p.names ++ q.names⟩

def child (p : FilePath) (s : String) : FilePath := p.join (ofText s)

def below (p : FilePath) (names : List String) : FilePath := names.foldl child p

def parent (p : FilePath) : FilePath := ⟨p.root, p.names.dropLast⟩

def hasNul (p : FilePath) : Bool := p.names.any fun name => name.toList.any fun c => c.toNat = 0

def literal (p : FilePath) : String := "PosixPath(" ++ Text.quoted p.text ++ ")"

end FilePath

end AbiBuild
