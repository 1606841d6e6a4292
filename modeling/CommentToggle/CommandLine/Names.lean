import CommentToggle.Text.Basic

/-!
Names on the command line: each value may hold several, separated by commas.
White space around a name does not count, and empty names are left out.
-/
namespace CommentToggle.CommandLine

def splitNames (values : List Text) : List Text :=
  values.flatMap fun value =>
    ((Text.splitAtChar ',' value).map Text.trim).filter (!·.isEmpty)

end CommentToggle.CommandLine
