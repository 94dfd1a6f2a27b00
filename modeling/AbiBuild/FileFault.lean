import AbiBuild.FilePath
import AbiBuild.Text.Utf8

namespace AbiBuild

inductive Refusal
  | noEntry
  | alreadyThere
  | notDirectory
  | isDirectory
  | notEmpty
  | nameTooLong
  | tooManyLinks
  deriving DecidableEq, Repr

def Refusal.number : Refusal → Nat
  | .noEntry => 2
  | .alreadyThere => 17
  | .notDirectory => 20
  | .isDirectory => 21
  | .nameTooLong => 36
  | .notEmpty => 39
  | .tooManyLinks => 40

def Refusal.text : Refusal → String
  | .noEntry => "No such file or directory"
  | .alreadyThere => "File exists"
  | .notDirectory => "Not a directory"
  | .isDirectory => "Is a directory"
  | .nameTooLong => "File name too long"
  | .notEmpty => "Directory not empty"
  | .tooManyLinks => "Too many levels of symbolic links"

-- `shown` is the path as the message quotes it.
inductive FileFault
  | system (refusal : Refusal) (shown : String)
  | removalOfLink
  | nulInPath
  | linkLoop (path : String)
  | notText (cause : Text.Utf8Error)
  deriving DecidableEq, Repr

def FileFault.message : FileFault → String
  | .system refusal shown => s!"[Errno {refusal.number}] {refusal.text}: {shown}"
  | .removalOfLink => "Cannot call rmtree on a symbolic link"
  | .nulInPath => "embedded null byte"
  | .linkLoop path => "Symlink loop from " ++ Text.quoted path
  | .notText cause => cause.message

def FileFault.isSystem : FileFault → Bool
  | .system .. => true
  | .removalOfLink => true
  | .nulInPath => false
  | .linkLoop _ => false
  | .notText _ => false

end AbiBuild
