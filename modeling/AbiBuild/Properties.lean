import AbiBuild.Table
import AbiBuild.Text.Lines

namespace AbiBuild.Properties
open AbiBuild.Text

def isComment (cs : List Char) : Bool := cs.head? = some '#' || cs.head? = some '!'

-- The pair that a line sets. Only the first equals sign divides.
def pair? (line : List Char) : Option (String × String) :=
  let cs := trim line
  if isComment cs then none
  else
    match cs.span (· ≠ '=') with
    | (key, _ :: value) => some (String.ofList (trim key), String.ofList (trim value))
    | (_, []) => none

def ofLines (ls : List (List Char)) : Table String := Table.ofList (ls.filterMap pair?)

def parse (s : String) : Table String := ofLines (linesFrom [] s.toList)

end AbiBuild.Properties
