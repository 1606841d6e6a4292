import CommentToggle.CommandLine.Program
import CommentToggle.Packages.Plain

/-!
The program as it runs by itself: with readers for what is plainly written, and without
further encodings.
-/
namespace CommentToggle

instance : Charsets := .none

instance : Packages := .plain

end CommentToggle
