import CommentToggle.Text.Quoted

/-!
Why a file operation fails. A fault names the paths as they were handed to the
operation that failed. The system never sees a path with a null character in it;
the other causes are its own, and it has numbers for them.
-/
namespace CommentToggle

inductive FileCause
  | missing
  | notDirectory
  | isDirectory
  | present
  | tooManyLinks
  | nameTooLong
  | nullCharacter
  deriving DecidableEq, Repr

namespace FileCause

def number? : FileCause → Option Nat
  | missing => some 2
  | present => some 17
  | notDirectory => some 20
  | isDirectory => some 21
  | nameTooLong => some 36
  | tooManyLinks => some 40
  | nullCharacter => none

def text : FileCause → String
  | missing => "No such file or directory"
  | present => "File exists"
  | notDirectory => "Not a directory"
  | isDirectory => "Is a directory"
  | nameTooLong => "File name too long"
  | tooManyLinks => "Too many levels of symbolic links"
  | nullCharacter => "embedded null byte"

def isOfSystem (c : FileCause) : Bool := c.number?.isSome

end FileCause

structure FileFault where
  cause : FileCause
  path : Text
  /-- The second path of an operation on two. -/
  target : Option Text
  deriving DecidableEq, Repr

def FileFault.message (f : FileFault) : String :=
  match f.cause.number? with
  | none => f.cause.text
  | some n =>
    s!"[Errno {n}] " ++ f.cause.text ++ ": " ++ Text.toStr f.path.quoted ++
      match f.target with
      | none => ""
      | some t => " -> " ++ Text.toStr t.quoted

end CommentToggle
