import CommentToggle.CommandLine.Options
import CommentToggle.Encoding.Utf8
import CommentToggle.Packages

/-!
From the options and arguments to the parameters of a run. A notice that is asked for comes
first; then the paths that are given must lead to no folder and to no file that may not be
read. The wrong use of the command line is told with a reminder of the usage.
-/
namespace CommentToggle.CommandLine

open Text

def version : String := "0.3.0"

def versionLine : String := "smartcomment, version " ++ version ++ "\n"

def usageLine : String := "Usage: smartcomment [OPTIONS] FILE [GROUPS]...\n"

def helpText : String :=
  usageLine ++ "\n" ++
  "  Comment and uncomment tagged groups of lines in FILE.\n\n" ++
  "  Lines between '<comment> smc:begin NAME' and '<comment> smc:end NAME' belong to\n" ++
  "  group NAME; sibling groups are exclusive, so activating one comments out the\n" ++
  "  others. 'smc:flag NAME' opens an independent group and 'smc:line NAME' tags just\n" ++
  "  the next line. Use '-' as FILE to filter standard input (requires --syntax or\n" ++
  "  --comment). Further files given with -f get the same selection; each one is\n" ++
  "  written on its own.\n\n" ++
  "Options:\n" ++
  "  -f, --file PATH           Another file to apply the same selection to. Repeatable.\n" ++
  "  -e, --enable NAME         Group to activate. Repeatable; comma-separated lists accepted.\n" ++
  "  -d, --disable NAME        Group to deactivate. Repeatable; comma-separated lists accepted.\n" ++
  "  --reset                   Deactivate every feature flag that is not enabled.\n" ++
  "  -s, --syntax NAME         Comment syntax to use (python, shell, css...). Required for stdin.\n" ++
  "  -c, --comment PREFIX      Explicit comment prefix; overrides --syntax and detection.\n" ++
  "  --closing-comment SUFFIX  Closing delimiter used with --comment, e.g. '*/'.\n" ++
  "  -o, --stdout              Print the result instead of rewriting the file.\n" ++
  "  -l, --list                List the groups of the file and their state.\n" ++
  "  --check                   Do not write; exit with status 1 if a file would change.\n" ++
  "  --config PATH             Configuration file (default: ~/.config/smartcomment/config.toml).\n" ++
  "  -v, --verbose             More output (-vv for debug).\n" ++
  "  --version                 Show the version and exit.\n" ++
  "  -h, --help                Show this message and exit.\n"

def usageText (reminds : Bool) (reason : String) : String :=
  (if reminds then usageLine ++ "Try 'smartcomment -h' for help.\n\n" else "") ++
    "Error: " ++ reason ++ "\n"

def UsageFault.ending (f : UsageFault) : Ending :=
  ⟨2, [], usageText f.remindsOfUsage f.message, none⟩

/-- The paths among the values of an option; of one that may be given once, the last. -/
def pathsOf (p : Parsed) : Flag → List Text
  | .moreFiles => p.values .moreFiles
  | .config => (p.value? .config).toList
  | _ => []

/-- The paths given, each with what it is given for: options before arguments, options
in the order of their first appearance. -/
def pathsGiven (p : Parsed) : List (String × Text) :=
  ((p.options.map (·.1)).eraseDups.flatMap fun f => (pathsOf p f).map (f.hint, ·)) ++
    (p.arguments.take 1).filterMap fun file => if file = ['-'] then none else some ("'FILE'", file)

/-- The end of the run for the first path that cannot be looked up, leads to a folder, or to
a file that may not be read. -/
def checkPaths (h : Host) (t : FileTree) : List (String × Text) → Except Ending Unit
  | [] => .ok ()
  | (hint, path) :: rest =>
    match t.find path with
    | .ok (_, .folder) => .error (UsageFault.isFolder hint path).ending
    | .ok _ =>
      if (h.refuses (.access path)).isSome then .error (UsageFault.notReadable hint path).ending
      else checkPaths h t rest
    | .error .nullCharacter => .error ⟨1, [], "", some (.file ⟨.nullCharacter, path, none⟩)⟩
    | .error _ => checkPaths h t rest

def firstNotice? (p : Parsed) : Option String :=
  p.options.findSome? fun (f, _) => match f with
    | .version => some versionLine
    | .help => some helpText
    | _ => none

def parametersOf (p : Parsed) (file : Text) (groups : List Text) : Parameters where
  file := file
  groups := groups
  moreFiles := p.values .moreFiles
  enable := p.values .enable
  disable := p.values .disable
  reset := p.has .reset
  styleName := p.value? .styleName
  leader := p.value? .leader
  closer := p.value? .closer
  toStdout := p.has .toStdout
  list := p.has .list
  check := p.has .check
  config := p.value? .config
  verbosity := (p.values .verbose).length

def read (h : Host) (t : FileTree) (args : List Text) : Except Ending Parameters :=
  match parse args with
  | .error f => .error f.ending
  | .ok p =>
    match firstNotice? p with
    | some notice => .error ⟨0, Utf8.encode notice.toList, "", none⟩
    | none => do
      checkPaths h t (pathsGiven p)
      match p.arguments with
      | [] => .error UsageFault.missingFile.ending
      | file :: groups => return parametersOf p file groups

end CommentToggle.CommandLine
