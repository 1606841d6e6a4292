import CommentToggle.Style
import CommentToggle.Text.Lines

/-!
One physical line: its indentation, the content after it, and its terminator.
A line is blank when it has no content besides white space.
-/
namespace CommentToggle

structure Line where
  index : Nat
  indent : Text
  content : Text
  terminator : Text.Terminator
  /-- Set once a directive was read on this line. -/
  directive : Bool
  deriving DecidableEq, Repr

namespace Line

def ofBody (index : Nat) (body : Text) (terminator : Text.Terminator) : Line :=
  ⟨index, body.takeWhile Text.isBlank, Text.trimStart body, terminator, false⟩

def body (l : Line) : Text := l.indent ++ l.content

def isBlank (l : Line) : Bool := l.content.all Text.isBlank

/-- A line that carries text of its own: neither blank nor a directive. -/
def isOwnText (l : Line) : Bool := !l.directive && !l.isBlank

def ofText (t : Text) : List Line :=
  (Text.lines t).zipIdx.map fun (raw, i) => ofBody i raw.body raw.terminator

/-- Puts a body and a terminator of each line together; the shorter list ends it. -/
def render (bodies : List Text) (ls : List Line) : Text :=
  (bodies.zip ls).flatMap fun (body, l) => body ++ l.terminator.text

@[simp] theorem body_ofBody (i : Nat) (b : Text) (t : Text.Terminator) :
    (ofBody i b t).body = b := Text.trimStart_append_takeWhile b

end Line

end CommentToggle
