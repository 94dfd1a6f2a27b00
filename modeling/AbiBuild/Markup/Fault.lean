import AbiBuild.Failure

namespace AbiBuild.Markup

-- Where a malformed document is so: in its characters, its tokens, the way these make up nodes, what its
-- anchors and documents refer to, or the values of its nodes.
inductive Part
  | characters
  | tokens
  | nodes
  | references
  | content
  deriving DecidableEq, Repr

-- Why a scalar of a well-formed document has no value. Texts here are of whole characters, so an escaped
-- half of a surrogate pair has no place in one.
inductive ScalarFault
  | noTruthValue (word : String)
  | notWhole (fault : Numeral.IntegerFault)
  | notDouble (text : String)
  | tooManySixties
  | noDate (fault : CalendarFault)
  | notTimestamp
  | blankNumber
  | characterPoint
  | characterSize
  | halfPair
  deriving Repr

-- Nobody who reads a document deals with these, so each comes out as it was met.
def ScalarFault.mishap : ScalarFault → Mishap
  | .noTruthValue word => .key (.stated word)
  | .notWhole fault => .value (.numeral fault)
  | .notDouble text => .value (.notNumber text)
  | .tooManySixties => .overflow "int too large to convert to float"
  | .noDate fault => .value (.calendar fault)
  | .notTimestamp => .noAttribute "not a timestamp"
  | .blankNumber => .index "string index out of range"
  | .characterPoint => .value .characterPoint
  | .characterSize => .overflow "character number is too large"
  | .halfPair => .value .halfPair

inductive Fault
  | malformed (part : Part)
  | scalar (fault : ScalarFault)
  deriving Repr

-- What gives the value of the one document in a text, if there is one.
abbrev Reader := String → Except Fault (Option Value)

end AbiBuild.Markup
