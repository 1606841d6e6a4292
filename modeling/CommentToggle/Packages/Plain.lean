import CommentToggle.CommandLine.Reading
import CommentToggle.Config.Assignments
import CommentToggle.Config.Toml
import CommentToggle.Text.Lines

/-!
Readers for what is plainly written: options and arguments, documents of tables, texts, whole
numbers, truth values and lists, and files of assignments. A document in any other notation is
refused, and nothing is said of samples and of the calls behind an error.
-/
namespace CommentToggle.Packages

open Text

/-- The text of a file in UTF-8, its lines ending with LF. -/
def content (t : FileTree) (path : Text) : Except Error Text := do
  let raw ← (t.readFile path).mapError Error.file
  return plainBreaks (← (Utf8.decode raw).mapError Error.codec)

def plainDocument (t : FileTree) (path : Text) : Except Error Table := do
  (Toml.parse (← content t path)).mapError Error.document

def unreadRecord (line : Nat) : Record :=
  ⟨.warning, .other "dotenv.main", s!"Python-dotenv could not parse statement starting at line {line}"⟩

def proposeAll (e : Environment) (found : List (Text × Text)) : Except Error Environment :=
  found.foldlM (fun env (name, value) => (env.propose name value).mapError Error.binding) e

def plainBindings (t : FileTree) (e : Environment) (path : Text) : Logged Error Environment := do
  let read := Assignments.parse (← Logged.ofExcept (content t path))
  Logged.notes (read.unread.map unreadRecord)
  let found := Assignments.resolve e.get? read.assignments
  Logged.ofExcept (proposeAll e (Assignments.settle found))

@[reducible] def plain : Packages where
  parameters h _ t args := CommandLine.read h t args
  misuse := CommandLine.usageText true
  document := plainDocument
  bindings := plainBindings
  detection _ := []
  trace _ _ _ _ := ""

end CommentToggle.Packages
