import CommentToggle.Config.Shape
import CommentToggle.Environment
import CommentToggle.Error
import CommentToggle.Files.Append
import CommentToggle.Log
import CommentToggle.Text.Case

/-!
Where records go. There is always a console handler; a log file and a separate file
for errors come with the configuration. A file that the system does not open is
complained about and left out. The root lets through what some handler may accept.
-/
namespace CommentToggle.Log

open Text

/-- A level as configured: a rank, the format of records, or the table of the styles in
which a format may be written. Only a rank can be put to use. -/
inductive LevelSetting
  | rank (n : Nat)
  | format
  | styles
  deriving DecidableEq, Repr

def formatWord : String := "%(levelname)s:%(name)s:%(message)s"

def levelNames : List (String × LevelSetting) :=
  [("NOTSET", .rank 0), ("DEBUG", .rank 10), ("INFO", .rank 20), ("WARN", .rank 30),
   ("WARNING", .rank 30), ("ERROR", .rank 40), ("FATAL", .rank 50), ("CRITICAL", .rank 50),
   ("BASIC_FORMAT", .format), ("_STYLES", .styles)]

/-- The style table as diagnostics show it. -/
def stylesShown : String :=
  "\x7b'%': (<class 'logging.PercentStyle'>, '" ++ formatWord ++ "'), " ++
    "'\x7b': (<class 'logging.StrFormatStyle'>, " ++
    "'\x7blevelname\x7d:\x7bname\x7d:\x7bmessage\x7d'), " ++
    "'$': (<class 'logging.StringTemplateStyle'>, " ++
    "'$\x7blevelname\x7d:$\x7bname\x7d:$\x7bmessage\x7d')\x7d"

/-- The word by which a level is looked up. -/
def wordOf (v : Value) : String := toStr (latinUpper v.display)

/-- An unknown level counts as the given one. -/
def levelOf (v : Value) (otherwise : Nat) : LevelSetting :=
  (levelNames.lookup (wordOf v)).getD (.rank otherwise)

def rankName (n : Nat) : String :=
  match n with
  | 0 => "NOTSET"
  | 10 => "DEBUG"
  | 20 => "INFO"
  | 30 => "WARNING"
  | 40 => "ERROR"
  | 50 => "CRITICAL"
  | _ => s!"Level {n}"

def loweredRank (verbosity : Int) (n : Nat) : Nat :=
  if verbosity < 1 then n else min n (if verbosity = 1 then 20 else 10)

/-- More verbosity lowers the level, never raises it. -/
def lowered (verbosity : Int) (l : LevelSetting) : Except LevelFault LevelSetting :=
  if verbosity < 1 then .ok l
  else match l with
    | .rank n => .ok (.rank (loweredRank verbosity n))
    | .format => .error (.incomparable "str")
    | .styles => .error (.incomparable "dict")

def LevelSetting.toRank : LevelSetting → Except LevelFault Nat
  | rank n => .ok n
  | format => .error (.unknown formatWord)
  | styles => .error (.noLevel stylesShown)

/-- A log file that starts anew when full, keeping so many old ones. -/
structure FileHandler where
  level : Nat
  path : Path
  maxBytes : Nat
  backups : Nat
  deriving DecidableEq, Repr

structure Setup where
  console : Nat
  file : Option FileHandler
  errors : Option FileHandler
  deriving DecidableEq, Repr

namespace Setup

/-- Errors alone never set the threshold. -/
def root (s : Setup) : Nat :=
  match s.file with
  | some f => min s.console f.level
  | none => s.console

def fileHandlers (s : Setup) : List FileHandler := s.file.toList ++ s.errors.toList

end Setup

/-- The file tree after a set-up, the complaints on the way, and its outcome. -/
structure SetupResult where
  tree : FileTree
  complaints : List String
  outcome : Except Error Setup

def complaint (name : Text) (f : FileFault) : String :=
  "Error setting up log file '" ++ toStr name ++ "': " ++ f.message ++ "."

/-- A way to open log files: it leaves a tree, and says where the file is or why it is not open. -/
abbrev Opening := FileTree → Text → FileTree × Except FileFault Path

/-- Opens a log file, in folders made for it where they are missing. -/
def openLog (t : FileTree) (name : Text) : FileTree × Except FileFault Path :=
  let above := FileTree.parentText name
  let (ready, fault) :=
    if above.isEmpty || t.isPresent above then (t, none) else t.makeFolders above
  match fault with
  | some f => (ready, .error f)
  | none =>
    match ready.openAppend name with
    | .ok opened => (opened, .ok (t.absolute name))
    | .error f => (ready, .error f)

def logFile (level : Nat) (path : Path) : FileHandler := ⟨level, path, 2097152, 5⟩

def mainLog (level : LevelSetting) (path : Path) : Except Error FileHandler := do
  return logFile (← level.toRank.mapError .level) path

def errorLog (path : Path) : FileHandler := ⟨Level.error.rank, path, 1048576, 3⟩

/-- Opens the file for errors beside a set-up that is otherwise complete. -/
def withErrors (opens : Opening) (t : FileTree) (complaints : List String) (s : Setup)
    (name : Text) : SetupResult :=
  match opens t name with
  | (made, .ok path) => ⟨made, complaints, .ok { s with errors := some (errorLog path) }⟩
  | (made, .error f) =>
    if f.cause.isOfSystem then ⟨made, complaints ++ [complaint name f], .ok s⟩
    else ⟨made, complaints, .error (.file f)⟩

/-- The log file for errors stands beside the other one. -/
def errorName (name : Text) : Text := name ++ ".error".toList

def withFiles (opens : Opening) (t : FileTree) (console : Nat) (name : Text)
    (level : LevelSetting) (separate : Bool) : SetupResult :=
  let finish (t : FileTree) (complaints : List String) (s : Setup) : SetupResult :=
    if separate then withErrors opens t complaints s (errorName name)
    else ⟨t, complaints, .ok s⟩
  match opens t name with
  | (made, .error f) =>
    if f.cause.isOfSystem then finish made [complaint name f] ⟨console, none, none⟩
    else ⟨made, [], .error (.file f)⟩
  | (made, .ok path) =>
    match mainLog level path with
    | .ok handler => finish made [] ⟨console, some handler, none⟩
    | .error e => ⟨made, [], .error e⟩

def setting (section_ : Table) (key : String) (absent : Value) : Value :=
  (Table.get? section_ key.toList).getD absent

def consoleLevel (section_ : Table) : Value :=
  setting section_ "console_level" (.text "WARNING".toList)

def fileLevel (section_ : Table) : Value := setting section_ "file_level" (.text "DEBUG".toList)

def separatesErrors (section_ : Table) : Bool :=
  (setting section_ "separate_error_log" (.bool false)).isSet

def consoleRank (section_ : Table) (verbosity : Int) : Except LevelFault Nat := do
  let level ← lowered verbosity (levelOf (consoleLevel section_) 30)
  level.toRank

/-- The name of the log file, empty for none. -/
def fileName (e : Environment) (section_ : Table) : Text :=
  let v := setting section_ "file" .null
  if v.isSet then e.expandHome v.display else []

def sectionOf (config : Table) : Value :=
  (Table.get? config "logging".toList).getD (.table [])

def setupWith (opens : Opening) (t : FileTree) (e : Environment) (config : Table)
    (verbosity : Int) : SetupResult :=
  match (sectionOf config).asSection with
  | .error f => ⟨t, [], .error (.shape f)⟩
  | .ok section_ =>
    match consoleRank section_ verbosity with
    | .error f => ⟨t, [], .error (.level f)⟩
    | .ok console =>
      let name := fileName e section_
      if name.isEmpty then ⟨t, [], .ok ⟨console, none, none⟩⟩
      else withFiles opens t console name (levelOf (fileLevel section_) 10)
        (separatesErrors section_)

def setup (t : FileTree) (e : Environment) (config : Table) (verbosity : Int) : SetupResult :=
  setupWith openLog t e config verbosity

def setupRecords (name : Text) (s : Setup) : List Record :=
  ⟨.debug, .program, "Logging setup complete. Root logger level: " ++ rankName s.root ++ "."⟩ ::
    match s.file with
    | some f => [⟨.debug, .program, "File logging to '" ++ toStr name ++ "' at level: " ++
        rankName f.level ++ "."⟩]
    | none => []

/-- A record as the console shows it. -/
def consoleLine (r : Record) : String :=
  toStr (padTo 8 r.level.name.toList) ++ " - " ++ toStr (padTo 20 r.channel.name.toList) ++
    " - " ++ r.message

end CommentToggle.Log
