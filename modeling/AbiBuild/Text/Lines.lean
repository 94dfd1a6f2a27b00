import AbiBuild.Text.Blank

namespace AbiBuild.Text

def breakPoints : List Nat :=
  [0x0A, 0x0B, 0x0C, 0x0D, 0x1C, 0x1D, 0x1E, 0x85, 0x2028, 0x2029]

def isBreak (c : Char) : Bool := breakPoints.contains c.toNat

-- `line` holds the characters of the line under way, last one first.
def linesFrom (line : List Char) : List Char → List (List Char)
  | [] => if line.isEmpty then [] else [line.reverse]
  | '\r' :: '\n' :: rest => line.reverse :: linesFrom [] rest
  | c :: rest => if isBreak c then line.reverse :: linesFrom [] rest else linesFrom (c :: line) rest

def lines (s : String) : List String := (linesFrom [] s.toList).map String.ofList

-- Every kind of line ending of a text file is read as one line feed.
def unifyNewlines : List Char → List Char
  | [] => []
  | '\r' :: '\n' :: rest => '\n' :: unifyNewlines rest
  | '\r' :: rest => '\n' :: unifyNewlines rest
  | c :: rest => c :: unifyNewlines rest

def joinLines (xs : List String) : String := "\n".intercalate xs

def inkedLines (s : String) : List String := (lines s).filter fun line => !isBlankText line

-- The last `n` of a list for positive `n`; zero keeps the whole, and a negative number drops so many
-- from the front.
def lastPart (n : Int) (xs : List α) : List α :=
  if 0 < n then xs.drop (xs.length - n.toNat) else xs.drop (-n).toNat

def tailLines (s : String) (n : Int) : String := joinLines (lastPart n (inkedLines s))

end AbiBuild.Text
