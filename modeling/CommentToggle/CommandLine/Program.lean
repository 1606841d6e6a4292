import CommentToggle.CommandLine.Job
import CommentToggle.Config.Load
import CommentToggle.Log.Setup

/-!
A whole run. The command line is read, then the user's variables and configuration,
then records are directed to where they go, and the files are worked on one after
the other. Every failure is reported at the end; the exit status is one when there
was any, or when a check found a file that would change, and two for a command line
that cannot be used. An error that is no diagnostic ends the run at once.
-/
namespace CommentToggle.CommandLine

open Text

variable [Charsets] [Packages]

structure Outcome where
  exit : Nat
  stdout : Bytes
  stderr : String
  tree : FileTree
  /-- The error that ended the run early. -/
  failure : Option Error

structure Invocation where
  arguments : List Text
  environment : Environment
  stdin : Bytes

/-- Before records are directed anywhere, warnings and worse appear by themselves. -/
def earlyLines (records : List Record) : String :=
  String.join ((records.filter fun r => Level.warning.rank ≤ r.level.rank).map (·.message ++ "\n"))

def consoleLines (threshold : Nat) (records : List Record) : String :=
  String.join ((records.filter fun r => threshold ≤ r.level.rank).map
    fun r => Log.consoleLine r ++ "\n")

/-- What the files worked on so far have left. -/
structure Progress where
  tree : FileTree
  printed : Bytes
  records : List Record
  /-- Diagnostics, each with the path it is about. -/
  faults : List (Text × Error)
  changed : List Text
  failure : Option Error

def Progress.start (t : FileTree) : Progress := ⟨t, [], [], [], [], none⟩

def Job.givingUp (j : Job) (h : Host) (path : Text) (e : Error) : Record :=
  ⟨.debug, .commandLine, "Giving up on '" ++ toStr path ++ "'." ++ Packages.trace j h path e⟩

def Progress.add (p : Progress) (j : Job) (h : Host) (path : Text) (r : FileReport) : Progress :=
  let next : Progress :=
    { p with tree := r.tree, printed := p.printed ++ r.printed, records := p.records ++ r.records }
  match r.outcome with
  | .ok changed => if changed then { next with changed := p.changed ++ [path] } else next
  | .error e =>
    if e.isDiagnostic then
      { next with
        records := next.records ++ [j.givingUp h path e]
        faults := p.faults ++ [(path, e)] }
    else { next with failure := some e }

def work (j : Job) (h : Host) (stdin : Bytes) (p : Progress) : List Text → Progress
  | [] => p
  | path :: rest =>
    let next := p.add j h path (j.process h stdin p.tree path)
    if next.failure.isSome then next else work j h stdin next rest

def faultLine (several : Bool) (path : Text) (e : Error) : String :=
  "Error: " ++ (if several then toStr path ++ ": " else "") ++ e.message ++ "\n"

def wouldChange (path : Text) : String := toStr path ++ ": would change\n"

def conclude (j : Job) (early : String) (threshold : Nat) (p : Progress) : Outcome :=
  let told := early ++ consoleLines threshold p.records
  match p.failure with
  | some e => ⟨1, p.printed, told, p.tree, some e⟩
  | none =>
    if !p.faults.isEmpty then
      let lines := String.join (p.faults.map fun (path, e) => faultLine j.several path e)
      ⟨1, p.printed, told ++ lines, p.tree, none⟩
    else if j.check && !p.changed.isEmpty then
      ⟨1, p.printed, told ++ String.join (p.changed.map wouldChange), p.tree, none⟩
    else ⟨0, p.printed, told, p.tree, none⟩

def logNameOf (e : Environment) (config : Table) : Text :=
  match (Table.get? config "logging".toList).getD (.table []) with
  | .table section_ => Log.fileName e section_
  | _ => []

/-- What stands when the files are begun with. -/
structure Started where
  tree : FileTree
  config : Table
  log : Log.Setup
  /-- What was said on the way. -/
  told : String

/-- Variables, configuration and logging; or the end of the run, when one of them fails. -/
def startUp (e : Environment) (t : FileTree) (p : Parameters) : Except Outcome Started :=
  let start := Config.loadEnvironment t e
  match start.outcome with
  | .error fault => .error ⟨1, [], earlyLines start.records, t, some fault⟩
  | .ok env =>
    let loaded := Config.load t env p.config
    let early := earlyLines (start.records ++ loaded.records)
    match loaded.outcome with
    | .error fault => .error ⟨1, [], early, t, some fault⟩
    | .ok config =>
      let set := Log.setup t env config p.verbosity
      let complained := early ++ String.join (set.complaints.map (· ++ "\n"))
      match set.outcome with
      | .error fault => .error ⟨1, [], complained, set.tree, some fault⟩
      | .ok log =>
        .ok ⟨set.tree, config, log,
          complained ++ consoleLines log.console (Log.setupRecords (logNameOf env config) log)⟩

def dashWithOthers : String := "'-' cannot be combined with other files."

/-- The run once configuration and logging stand. -/
def runFiles (h : Host) (stdin : Bytes) (p : Parameters) (s : Started) : Outcome :=
  if p.several && p.paths.contains ['-'] then
    ⟨2, [], s.told ++ Packages.misuse dashWithOthers, s.tree, none⟩
  else conclude (p.job s.config) s.told s.log.console
    (work (p.job s.config) h stdin (.start s.tree) p.paths)

def run (h : Host) (i : Invocation) (t : FileTree) : Outcome :=
  match Packages.parameters h i.environment t i.arguments with
  | .error ended => ⟨ended.exit, ended.stdout, ended.stderr, t, ended.failure⟩
  | .ok p =>
    match startUp i.environment t p with
    | .error ended => ended
    | .ok s => runFiles h i.stdin p s

end CommentToggle.CommandLine
