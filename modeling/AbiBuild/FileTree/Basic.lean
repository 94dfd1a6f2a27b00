import AbiBuild.Text.Utf8

namespace AbiBuild
open AbiBuild.Text

abbrev Location := List String

inductive Node
  | directory
  | file (content : Bytes) (executable : Bool)
  | link (target : String)
  deriving DecidableEq, Repr

def Node.isFile : Node → Bool
  | .file .. => true
  | _ => false

def Node.isDirectory : Node → Bool
  | .directory => true
  | _ => false

def Node.isLink : Node → Bool
  | .link _ => true
  | _ => false

structure FileTree where
  here : Location
  entries : List (Location × Node)
  deriving DecidableEq, Repr

namespace FileTree

def node? (t : FileTree) (l : Location) : Option Node :=
  if l = [] then some .directory else (t.entries.find? fun e => e.1 = l).map Prod.snd

def put (t : FileTree) (l : Location) (n : Node) : FileTree :=
  ⟨t.here, (l, n) :: t.entries.filter fun e => e.1 ≠ l⟩

def erase (t : FileTree) (l : Location) : FileTree :=
  ⟨t.here, t.entries.filter fun e => e.1 ≠ l⟩

def eraseBelow (t : FileTree) (l : Location) : FileTree :=
  ⟨t.here, t.entries.filter fun e => !(l.isPrefixOf e.1 && e.1 ≠ l)⟩

def eraseAll (t : FileTree) (l : Location) : FileTree := (t.eraseBelow l).erase l

-- The names directly below a location, in no particular order.
def children (t : FileTree) (l : Location) : List String :=
  t.entries.filterMap fun e => if e.1.dropLast = l then e.1.getLast? else none

-- Every location below another one, relative to it, in no particular order.
def descendants (t : FileTree) (l : Location) : List (Location × Node) :=
  t.entries.filterMap fun e =>
    if l.isPrefixOf e.1 && e.1.length ≠ l.length then some (e.1.drop l.length, e.2) else none

theorem find?_filter_ne {l m : Location} (h : m ≠ l) (es : List (Location × Node)) :
    (es.filter fun e => e.1 ≠ l).find? (fun e => e.1 = m) = es.find? fun e => e.1 = m := by
  induction es with
  | nil => rfl
  | cons e rest ih =>
    by_cases hl : e.1 = l
    · have hm : e.1 ≠ m := fun hm => h (hm.symm.trans hl)
      simp [hl, Ne.symm h] at ih ⊢
      exact ih
    · by_cases hm : e.1 = m <;> simp_all [List.find?]

theorem node?_put_self (t : FileTree) {l : Location} (h : l ≠ []) (n : Node) :
    (t.put l n).node? l = some n := by
  simp [node?, put, h]

theorem node?_put_of_ne (t : FileTree) {l m : Location} (h : m ≠ l) (n : Node) :
    (t.put l n).node? m = t.node? m := by
  have rest := find?_filter_ne h t.entries
  simp only [node?, put, List.find?, Ne.symm h, decide_false, rest]

theorem node?_erase_of_ne (t : FileTree) {l m : Location} (h : m ≠ l) :
    (t.erase l).node? m = t.node? m := by
  simp only [node?, erase, find?_filter_ne h t.entries]

theorem node?_erase_self (t : FileTree) {l : Location} (h : l ≠ []) :
    (t.erase l).node? l = none := by
  simp [node?, erase, h]

end FileTree

end AbiBuild
