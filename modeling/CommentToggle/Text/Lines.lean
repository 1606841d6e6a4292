import CommentToggle.Text.Basic

/-!
A text is a sequence of lines, each with its own terminator. Only LF, CR LF and
CR end a line; the last line may have none. Nothing is lost: putting the pieces
back together gives the text again.
-/
namespace CommentToggle.Text

inductive Terminator
  | absent
  | lf
  | crlf
  | cr
  deriving DecidableEq, Repr

def Terminator.text : Terminator → Text
  | .absent => []
  | .lf => ['\n']
  | .crlf => ['\r', '\n']
  | .cr => ['\r']

structure RawLine where
  body : Text
  terminator : Terminator
  deriving DecidableEq, Repr

def RawLine.text (l : RawLine) : Text := l.body ++ l.terminator.text

/-- Reads on with the finished lines and the unfinished body at hand, both last first. -/
def linesOnto (done : List RawLine) (body : Text) : Text → List RawLine
  | [] => (if body.isEmpty then done else ⟨body.reverse, .absent⟩ :: done).reverse
  | '\r' :: '\n' :: rest => linesOnto (⟨body.reverse, .crlf⟩ :: done) [] rest
  | '\r' :: rest => linesOnto (⟨body.reverse, .cr⟩ :: done) [] rest
  | '\n' :: rest => linesOnto (⟨body.reverse, .lf⟩ :: done) [] rest
  | c :: rest => linesOnto done (c :: body) rest

def lines (t : Text) : List RawLine := linesOnto [] [] t

def ofLines (ls : List RawLine) : Text := ls.flatMap RawLine.text

/-- Line ends of all kinds become LF. -/
def plainBreaks : Text → Text
  | '\r' :: '\n' :: rest => '\n' :: plainBreaks rest
  | '\r' :: rest => '\n' :: plainBreaks rest
  | c :: rest => c :: plainBreaks rest
  | [] => []

theorem ofLines_linesOnto (done : List RawLine) (body t : Text) :
    ofLines (linesOnto done body t) = ofLines done.reverse ++ body.reverse ++ t := by
  fun_induction linesOnto done body t <;>
    simp_all [ofLines, RawLine.text, Terminator.text]
  rename_i done body
  cases body <;> simp [RawLine.text, Terminator.text]

theorem ofLines_lines (t : Text) : ofLines (lines t) = t := by
  rw [lines, ofLines_linesOnto]
  simp [ofLines]

end CommentToggle.Text
