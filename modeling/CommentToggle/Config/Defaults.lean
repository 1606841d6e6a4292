import CommentToggle.Config.Value

/-!
The configuration in force without any file: the comment styles by name, and the
file names and extensions that belong to each. Spaces at the end of a leader are
as a user would write them; they are not part of it.
-/
namespace CommentToggle.Config

private def words (ts : List String) : Value := .list (ts.map fun t => .text t.toList)

private def leader (name text : String) : Text × Value :=
  (name.toList, .table [("line_prefix".toList, .text text.toList)])

private def leaders (name : String) (ts : List String) : Text × Value :=
  (name.toList, .table [("line_prefix".toList, words ts)])

private def delimiters (name opener closer : String) : Text × Value :=
  (name.toList, .table [("block_delims".toList, words [opener, closer])])

private def named (name : String) (ts : List String) : Text × Value := (name.toList, words ts)

def defaultLogging : Table :=
  [("console_level".toList, .text "WARNING".toList),
   ("file".toList, .text []),
   ("file_level".toList, .text "DEBUG".toList),
   ("separate_error_log".toList, .bool false)]

def defaultComments : Table :=
  [leader "python" "# ", leader "ruby" "# ", leader "perl" "# ", leader "lua" "-- ",
   leader "javascript" "// ", leader "typescript" "// ", leaders "php" ["// ", "# "],
   delimiters "html" "<!--" "-->", delimiters "xml" "<!--" "-->", delimiters "css" "/*" "*/",
   leader "scss" "// ", leader "graphql" "# ", leader "c" "// ", leader "cpp" "// ",
   leader "csharp" "// ", leader "java" "// ", leader "go" "// ", leader "rust" "// ",
   leader "swift" "// ", leader "kotlin" "// ", leader "scala" "// ", leader "dart" "// ",
   leader "haskell" "-- ", leader "elixir" "# ", leader "erlang" "% ",
   leaders "clojure" [";;", ";"], leader "fsharp" "// ", delimiters "ocaml" "(*" "*)",
   leader "shell" "# ", leader "fish" "# ", leader "powershell" "# ", leader "dockerfile" "# ",
   leader "makefile" "# ", leaders "terraform" ["# ", "// "], leader "nix" "# ",
   leader "vim" "\" ", leader "assembly" "; ", leader "sql" "-- ", leader "yaml" "# ",
   leader "toml" "# ", leaders "ini" ["; ", "# "], leader "conf" "# ", leader "xdefaults" "! ",
   delimiters "markdown" "<!--" "-->", leader "latex" "% ", leader "r" "# ", leader "julia" "# ",
   leader "matlab" "% ", leader "nim" "# ", leader "crystal" "# ", leader "zig" "// ",
   leaders "bat" ["REM ", "::"], leaders "emacslisp" [";;", ";"], leader "json5" "// ",
   leader "jsonc" "// "]

def defaultFormats : Table :=
  [named "python" ["py", "pyw", "pyi"],
   named "ruby" ["rb", "rake", "gemspec", "Gemfile", "Rakefile"], named "perl" ["pl", "pm", "t"],
   named "lua" ["lua"], named "javascript" ["js", "mjs", "cjs", "jsx"],
   named "typescript" ["ts", "tsx", "mts", "cts"], named "php" ["php", "phtml"],
   named "html" ["html", "htm", "xhtml"],
   named "xml" ["xml", "xsd", "xsl", "xslt", "plist", "svg"], named "css" ["css"],
   named "scss" ["scss", "sass", "less"], named "graphql" ["graphql", "gql"],
   named "c" ["c", "h"], named "cpp" ["cpp", "cxx", "cc", "hpp", "hxx", "hh"],
   named "csharp" ["cs"], named "java" ["java"], named "go" ["go"], named "rust" ["rs"],
   named "swift" ["swift"], named "kotlin" ["kt", "kts"], named "scala" ["scala", "sc"],
   named "dart" ["dart"], named "haskell" ["hs"], named "elixir" ["ex", "exs"],
   named "erlang" ["erl", "hrl"], named "clojure" ["clj", "cljs", "edn"],
   named "fsharp" ["fs", "fsx"], named "ocaml" ["ml", "mli"],
   named "shell" ["sh", "bash", "zsh", "ksh", "dash", "ash", ".bashrc", ".bash_profile",
      ".bash_aliases", ".profile", ".zshrc", ".zshenv", ".zprofile", ".xinitrc", ".xprofile",
      "PKGBUILD"], named "fish" ["fish"], named "powershell" ["ps1", "psm1", "psd1"],
   named "dockerfile" ["Dockerfile", "dockerfile", "Containerfile"],
   named "makefile" ["Makefile", "makefile", "GNUmakefile", "mk", "mak"],
   named "terraform" ["tf", "tfvars", "hcl"], named "nix" ["nix"],
   named "vim" ["vim", ".vimrc", ".gvimrc", "vimrc"], named "assembly" ["asm", "s"],
   named "sql" ["sql"], named "yaml" ["yaml", "yml"], named "toml" ["toml"],
   named "ini" ["ini", "cfg", "desktop", "editorconfig", ".editorconfig"],
   named "conf" ["conf", "config", "rc", ".gitconfig", ".gitignore", ".tmux.conf", ".inputrc",
      "dunstrc", "picom.conf", "env", ".env"],
   named "xdefaults" [".Xresources", ".Xdefaults", "Xresources", "xresources"],
   named "markdown" ["md", "markdown"], named "latex" ["tex", "sty", "cls"], named "r" ["r"],
   named "julia" ["jl"], named "matlab" ["m"], named "nim" ["nim"], named "crystal" ["cr"],
   named "zig" ["zig"], named "bat" ["bat", "cmd"], named "emacslisp" ["el", ".emacs"],
   named "json5" ["json5"], named "jsonc" ["jsonc"]]

def default : Table :=
  [("logging".toList, .table defaultLogging),
   ("comments".toList, .table defaultComments),
   ("supported_formats".toList, .table defaultFormats)]

end CommentToggle.Config
