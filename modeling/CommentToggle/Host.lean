import CommentToggle.Detect
import CommentToggle.Encoding.Reading
import CommentToggle.Files.Replace

/-!
What a run asks of the machine besides the files themselves: a guess at the encoding
of bytes, the lexer for a file name, what is refused in reading and writing, and a token
that makes the name of a temporary file new.
-/
namespace CommentToggle

structure Host where
  detector : Bytes → Reading.Guess
  lexers : Text → Option Detect.Lexer
  refuses : Refusals
  token : Text

end CommentToggle
