import CommentToggle.Config.Shape
import CommentToggle.Config.Toml.Fault
import CommentToggle.Encoding.Fault
import CommentToggle.Fault
import CommentToggle.Files.Fault

/-!
All that can go wrong in a run. Faults of the text, of the request and of the file
system are diagnostics, reported per file; the rest ends the run.
-/
namespace CommentToggle

/-- A log level that is no number but belongs to the logging format. -/
inductive LevelFault
  | unknown (word : String)
  | noLevel (shown : String)
  | incomparable (kind : String)
  deriving DecidableEq, Repr

def LevelFault.message : LevelFault → String
  | unknown word => "Unknown level: '" ++ word ++ "'"
  | noLevel shown => "Level not an integer or a valid string: " ++ shown
  | incomparable kind => "'<' not supported between instances of 'int' and '" ++ kind ++ "'"

/-- A variable that the environment cannot hold. -/
inductive VariableFault
  | nullCharacter
  | badName
  deriving DecidableEq, Repr

def VariableFault.message : VariableFault → String
  | nullCharacter => "embedded null byte"
  | badName => "illegal environment variable name"

inductive Error
  | fault (f : Fault)
  | file (f : FileFault)
  | codec (f : CodecFault)
  | shape (f : ShapeFault)
  | document (f : Toml.Fault)
  | level (f : LevelFault)
  | binding (f : VariableFault)
  | noHome
  deriving DecidableEq, Repr

namespace Error

def message : Error → String
  | fault f => f.message
  | file f => f.message
  | codec f => f.message
  | shape f => f.message
  | document f => f.message
  | level f => f.message
  | binding f => f.message
  | noHome => "Could not determine home directory."

def isDiagnostic : Error → Bool
  | fault (.tooFewLayers ..) => false
  | fault (.noLeader _) => false
  | fault _ => true
  | file f => f.cause.isOfSystem
  | _ => false

end Error

end CommentToggle
