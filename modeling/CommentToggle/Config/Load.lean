import CommentToggle.Config.Defaults
import CommentToggle.Config.Merge
import CommentToggle.Packages

/-!
What a run starts from: the variables that the user keeps beside the configuration,
and the configuration itself, the user's file laid over the defaults. A missing or
unreadable file leaves the defaults in force.
-/
namespace CommentToggle.Config

open Text

variable [Packages]

def environmentPath (e : Environment) : Except Error Text :=
  e.configFolder.map (Path.child · ".env".toList)

/-- Whether the system refused something. -/
def isOfSystem : Error → Bool
  | .file f => f.cause.isOfSystem
  | _ => false

/-- Whether a document that cannot be read is left aside. -/
def isPassedOver : Error → Bool
  | .document f => f.cause.isReported
  | e => isOfSystem e

def notLoaded (message : String) : Logged Error Unit :=
  Logged.note .warning .program ("Could not load environment file: " ++ message)

/-- The environment with the user's variables added where they are not set. -/
def loadEnvironment (t : FileTree) (e : Environment) : Logged Error Environment := do
  let path ← Logged.ofExcept (environmentPath e)
  match t.isFile path with
  | .error f =>
    notLoaded f.message
    return e
  | .ok false => return e
  | .ok true =>
    let loaded := Packages.bindings t e path
    Logged.notes loaded.records
    match loaded.outcome with
    | .ok found =>
      Logged.note .debug .program ("Loaded environment from " ++ toStr path)
      return found
    | .error fault =>
      if isOfSystem fault then
        notLoaded fault.message
        return e
      else Logged.fail fault

/-- The configuration file that was asked for. -/
def requested (e : Environment) (path : Option Text) : Option Text :=
  (path.filter (!·.isEmpty)).or ((e.get? "SMARTCOMMENT_CONFIG".toList).filter (!·.isEmpty))

def loadUserFile (t : FileTree) (path : Text) : Logged Error Table :=
  match Packages.document t path with
  | .ok user => do
    Logged.note .info .program ("Merged user config from " ++ toStr path)
    return Table.merge default user
  | .error e =>
    if isPassedOver e then do
      Logged.note .error .program
        ("Could not parse user config '" ++ toStr path ++ "': " ++ e.message ++ ". Using defaults.")
      return default
    else Logged.fail e

def load (t : FileTree) (e : Environment) (path : Option Text) : Logged Error Table := do
  Logged.note .debug .program "Loaded embedded default configuration."
  let wanted := requested e path
  let place ← Logged.ofExcept (match wanted with
    | some p => e.userPath p
    | none => e.configFolder.map (Path.child · "config.toml".toList))
  if ← Logged.ofExcept ((t.isFile place).mapError Error.file) then
    loadUserFile t place
  else do
    if wanted.isSome then
      Logged.note .warning .program
        ("Config file '" ++ toStr place ++ "' does not exist. Using defaults.")
    return default

end CommentToggle.Config
