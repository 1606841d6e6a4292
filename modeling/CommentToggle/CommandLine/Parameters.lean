import CommentToggle.CommandLine.Names
import CommentToggle.Config.Value
import CommentToggle.Encoding.Fault
import CommentToggle.Error
import CommentToggle.Selection

/-!
What a run is asked for. The reading of a command line yields parameters, or it ends the
run: with a notice that was asked for, or because the command line cannot be used. Together
with the configuration the parameters make the job that is done with each file.
-/
namespace CommentToggle.CommandLine

structure Parameters where
  file : Text
  groups : List Text
  moreFiles : List Text
  enable : List Text
  disable : List Text
  reset : Bool
  styleName : Option Text
  leader : Option Text
  closer : Option Text
  toStdout : Bool
  list : Bool
  check : Bool
  config : Option Text
  verbosity : Nat
  deriving DecidableEq, Repr

namespace Parameters

/-- The files to be worked on, in order. -/
def paths (p : Parameters) : List Text := p.file :: p.moreFiles

def several (p : Parameters) : Bool := 1 < p.paths.length

def request (p : Parameters) : Request :=
  ⟨splitNames p.groups ++ splitNames p.enable, splitNames p.disable, p.reset⟩

end Parameters

/-- What a run does with each of its files. -/
structure Job where
  styleName : Option Text
  leader : Option Text
  closer : Option Text
  request : Request
  list : Bool
  toStdout : Bool
  check : Bool
  /-- Several files are worked on, so each is named. -/
  several : Bool
  config : Table

def Parameters.job (p : Parameters) (config : Table) : Job where
  styleName := p.styleName
  leader := p.leader
  closer := p.closer
  request := p.request
  list := p.list
  toStdout := p.toStdout
  check := p.check
  several := p.several
  config := config

/-- What is left of a run that ends with its command line. -/
structure Ending where
  exit : Nat
  stdout : Bytes
  stderr : String
  /-- The error that ended the reading early. -/
  failure : Option Error

end CommentToggle.CommandLine
