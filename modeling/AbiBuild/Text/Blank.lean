
namespace AbiBuild.Text

-- The separators U+001C to U+001F are blank as well as the usual controls, and so are the next-line
-- control and every space of the space-separator, line-separator and paragraph-separator categories.
def blankPoints : List Nat :=
  [0x09, 0x0A, 0x0B, 0x0C, 0x0D, 0x1C, 0x1D, 0x1E, 0x1F, 0x20, 0x85, 0xA0, 0x1680,
   0x2000, 0x2001, 0x2002, 0x2003, 0x2004, 0x2005, 0x2006, 0x2007, 0x2008, 0x2009, 0x200A,
   0x2028, 0x2029, 0x202F, 0x205F, 0x3000]

def isBlank (c : Char) : Bool := blankPoints.contains c.toNat

def trimStart (cs : List Char) : List Char := cs.dropWhile isBlank

def trimEnd (cs : List Char) : List Char := (cs.reverse.dropWhile isBlank).reverse

def trim (cs : List Char) : List Char := trimEnd (trimStart cs)

def strip (s : String) : String := String.ofList (trim s.toList)

def isBlankText (s : String) : Bool := s.toList.all isBlank

theorem trim_eq_self {cs : List Char} (first : ∀ c, cs.head? = some c → isBlank c = false)
    (last : ∀ c, cs.getLast? = some c → isBlank c = false) : trim cs = cs := by
  have start : trimStart cs = cs := by
    cases cs with
    | nil => rfl
    | cons c rest => simp [trimStart, List.dropWhile, first c rfl]
  rw [trim, start, trimEnd]
  cases h : cs.reverse with
  | nil => simpa using h.symm
  | cons c rest =>
    have atEnd : cs.getLast? = some c := by rw [← List.head?_reverse, h]; rfl
    rw [List.dropWhile, last c atEnd, ← h, List.reverse_reverse]

end AbiBuild.Text
