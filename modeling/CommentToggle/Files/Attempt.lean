import CommentToggle.Files.Locate

/-!
What is asked of the system where files are read and replaced. Each attempt may be
refused for a reason of its own; a file that was being filled may then hold some of the
bytes already.
-/
namespace CommentToggle

inductive Attempt
  /-- Asks whether a file may be read, and does not read it. -/
  | access (path : Text)
  | read (path : Text)
  | create (temp : Path)
  | fill (temp : Path) (bytes : Bytes)
  | copyMode (target temp : Path)
  | swap (temp target : Path)
  deriving DecidableEq, Repr

structure Refusal where
  cause : FileCause
  /-- The number of bytes written in spite of it. -/
  written : Nat
  deriving DecidableEq, Repr

/-- The attempts that the system refuses. -/
abbrev Refusals := Attempt → Option Refusal

/-- Reads a file that the system lets be read. -/
def FileTree.read (t : FileTree) (refuses : Refusals) (path : Text) : Except FileFault Bytes :=
  match refuses (.read path) with
  | some r => .error ⟨r.cause, path, none⟩
  | none => t.readFile path

end CommentToggle
