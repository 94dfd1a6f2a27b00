import AbiBuild.Text.Digits
import AbiBuild.Text.Quoted

namespace AbiBuild.CommandLine

inductive Switch
  | help
  | config
  | projectRoot
  | verbose
  deriving DecidableEq, Repr

namespace Switch

def takesValue : Switch → Bool
  | help => false
  | config => true
  | projectRoot => true
  | verbose => false

def letters : List (Char × Switch) := [('h', help), ('v', verbose)]

def longNames : List (String × Switch) :=
  [("--help", help), ("--config", config), ("--project-root", projectRoot), ("--verbose", verbose)]

def ofLetter (c : Char) : Option Switch := letters.lookup c

def ofLongName (name : String) : Option Switch := longNames.lookup name

def longName : Switch → String
  | help => "--help"
  | config => "--config"
  | projectRoot => "--project-root"
  | verbose => "--verbose"

end Switch

inductive Complaint
  | ambiguous (word : String) (candidates : List String)
  | needsValue (s : Switch)
  | takesNoValue (s : Switch) (value : String)
  | unusablePath (s : Switch) (value : String)
  | missing (argument : String)
  | surplus (words : List String)
  deriving DecidableEq, Repr

def Complaint.message : Complaint → String
  | ambiguous word candidates =>
    "ambiguous option: " ++ word ++ " could match " ++ ", ".intercalate candidates
  | needsValue s => "argument " ++ s.longName ++ ": expected one argument"
  | takesNoValue s value =>
    "argument " ++ s.longName ++ ": ignored explicit argument " ++ Text.quoted value
  | unusablePath s value => "argument " ++ s.longName ++ ": invalid path value: " ++ Text.quoted value
  | missing argument => "the following arguments are required: " ++ argument
  | surplus words => "unrecognized arguments: " ++ " ".intercalate words

-- What one word asks for, a flag or a switch with its value, attached or still to come. A stray is a
-- part of a word that means nothing.
inductive Request
  | flag (s : Switch)
  | valued (s : Switch) (value : String)
  | wanting (s : Switch)
  | stray (word : String)
  deriving DecidableEq, Repr

-- A faulty word is known to be a switch, but something is attached to it that cannot be.
inductive Word
  | plain (text : String)
  | switches (requests : List Request)
  | faulty (complaint : Complaint)
  deriving DecidableEq, Repr

def Word.ofRequests : Except Complaint (List Request) → Word
  | .ok requests => .switches requests
  | .error complaint => .faulty complaint

def splitAtEquals : List Char → Option (List Char × List Char)
  | [] => none
  | '=' :: rest => some ([], rest)
  | c :: rest => (splitAtEquals rest).map fun (left, right) => (c :: left, right)

-- Letters behind one dash are flags, each asked for in turn; nothing can be attached to them.
def glued (s : Switch) : List Char → Except Complaint (List Request)
  | [] => .ok [.flag s]
  | c :: rest =>
    if c = '-' then .error (.takesNoValue s (String.ofList (c :: rest)))
    else
      match Switch.ofLetter c, rest with
      | none, _ => .ok [.flag s, .stray (String.ofList ('-' :: c :: rest))]
      | some next, '=' :: value => .error (.takesNoValue next (String.ofList value))
      | some next, _ => (glued next rest).map (Request.flag s :: ·)

def attach (s : Switch) : Option (List Char) → Except Complaint (List Request)
  | none => .ok [if s.takesValue then .wanting s else .flag s]
  | some value =>
    if s.takesValue then .ok [.valued s (String.ofList value)]
    else .error (.takesNoValue s (String.ofList value))

-- Minus and digits, with at most one point that has digits behind it. A final line end is let pass.
def isNegativeNumber : List Char → Bool
  | '-' :: body =>
    let body := if body.getLast? = some '\n' then body.dropLast else body
    let fraction := (body.dropWhile Text.isDigit).drop 1
    (!body.isEmpty && body.all Text.isDigit) ||
      ((body.dropWhile Text.isDigit).head? = some '.' && !fraction.isEmpty && fraction.all Text.isDigit)
  | _ => false

-- A word that only looks like a switch: a negative number, or a text with a space in it.
def unknown (word : List Char) : Word :=
  if isNegativeNumber word || word.contains ' ' then .plain (String.ofList word)
  else .switches [.stray (String.ofList word)]

def beginning (name : List Char) : List (String × Switch) :=
  Switch.longNames.filter fun entry => name.isPrefixOf entry.1.toList

-- A long switch by its whole name or by a beginning that no other has.
def long (word : List Char) : Except Complaint Word :=
  let (name, value) : List Char × Option (List Char) :=
    match splitAtEquals word with
    | some (left, right) => (left, some right)
    | none => (word, none)
  match Switch.ofLongName (String.ofList name), beginning name with
  | some s, _ => .ok (.ofRequests (attach s value))
  | none, [] => .ok (unknown word)
  | none, [(_, s)] => .ok (.ofRequests (attach s value))
  | none, candidates => .error (.ambiguous (String.ofList word) (candidates.map Prod.fst))

def short (letter : Char) (rest : List Char) : Word :=
  match Switch.ofLetter letter, rest with
  | none, _ => unknown ('-' :: letter :: rest)
  | some s, '=' :: value => .ofRequests (attach s (some value))
  | some s, _ => .ofRequests (glued s rest)

-- A lone dash is no switch. Only a beginning shared by several switches makes a word unreadable.
def Word.read (s : String) : Except Complaint Word :=
  match s.toList with
  | '-' :: '-' :: rest => long ('-' :: '-' :: rest)
  | '-' :: letter :: rest => .ok (short letter rest)
  | _ => .ok (.plain s)

end AbiBuild.CommandLine
