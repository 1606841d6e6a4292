import CommentToggle.CommandLine.Parameters
import CommentToggle.Environment
import CommentToggle.Host

/-!
What the program takes from elsewhere: the readings of command lines, of configuration
documents and of files of variables, what is said where an encoding is guessed, and the
account of the calls behind an error. The program goes on with whatever they hand over.
-/
namespace CommentToggle

class Packages where
  /-- Reads the command line. It may look at the files that are named, and changes none. -/
  parameters : Host → Environment → FileTree → List Text →
    Except CommandLine.Ending CommandLine.Parameters
  /-- What is said of a wrong use, with the reason for it. -/
  misuse : String → String
  /-- Reads a configuration document. -/
  document : FileTree → Text → Except Error Table
  /-- Adds the variables of a file to the environment where they are not set. -/
  bindings : FileTree → Environment → Text → Logged Error Environment
  /-- What the detector of encodings says of a sample besides its guess. -/
  detection : Bytes → List Record
  /-- What is written behind the record of an error that came up with a path: the calls that
  led to it. -/
  trace : CommandLine.Job → Host → Text → Error → String

end CommentToggle
