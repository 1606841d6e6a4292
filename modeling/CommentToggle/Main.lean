import CommentToggle.CommandLine.Run

/-!
The program on a real machine. The files that a run may look at are read into a tree
first; the run itself is the pure one; then the files that differ are written, and
what is to be printed is printed. No lexers and no encoding detector are at hand here.
-/
namespace CommentToggle.Main

def host : Host where
  detector _ := ⟨none, none⟩
  lexers _ := none
  refuses _ := none
  token := "new".toList

def realPath? (p : Path) : IO (Option Path) := do
  try
    let real ← IO.FS.realPath (Path.text p).toStr
    return some (Path.tidyParts real.toString.toList)
  catch _ => return none

def readNode (p : Path) : IO Node := do
  try
    let bytes ← IO.FS.readBinFile (Path.text p).toStr
    return .file bytes.toList FileTree.commonMode
  catch _ => return .folder

/-- Takes what is found on the way along a path into the tree. -/
partial def observe (t : FileTree) (before : Path) : List Text → IO FileTree
  | [] => return t
  | name :: rest => do
    let p := before ++ [name]
    match ← realPath? p with
    | none => return t
    | some real =>
      if real = p then
        let seen ← if (t.get? p).isSome then pure t else pure (t.put p (← readNode p))
        observe seen p rest
      else
        let linked := t.put p (.link (Path.text real))
        observe linked [] (real ++ rest)

def observeAll (t : FileTree) (paths : List Text) : IO FileTree :=
  paths.foldlM (fun t path => observe t [] (t.absolute path)) t

def knownVariables : IO (List (Text × Text)) := do
  let names := ["HOME", "XDG_CONFIG_HOME", "SMARTCOMMENT_CONFIG"]
  let mut found := []
  for name in names do
    if let some v ← IO.getEnv name then found := found ++ [(name.toList, v.toList)]
  return found

partial def readAll (input : IO.FS.Stream) (done : ByteArray) : IO ByteArray := do
  let chunk ← input.read 65536
  if chunk.isEmpty then return done else readAll input (done ++ chunk)

/-- The paths that the command line names. -/
def namedPaths (args : List Text) : List Text :=
  match CommandLine.parse args with
  | .error _ => []
  | .ok p => p.arguments.take 1 ++ p.values .moreFiles ++ p.values .config

/-- The tree with all that the run may look at. -/
def gather (args : List Text) (e : Environment) (t : FileTree) : IO FileTree := do
  let started ← observeAll t ((Config.environmentPath e).toOption.toList ++ namedPaths args)
  let .ok env := (Config.loadEnvironment started e).outcome | return started
  let wanted := (Config.requested env none).bind fun p => (env.userPath p).toOption
  let usual := (env.configFolder.map (Path.child · "config.toml".toList)).toOption
  let configured ← observeAll started (wanted.toList ++ usual.toList)
  let asked := match CommandLine.parse args with
    | .ok p => p.value? .config
    | .error _ => none
  let .ok config := (Config.load configured env asked).outcome | return configured
  let log := CommandLine.logNameOf env config
  if log.isEmpty then return configured
  else observeAll configured [log, log ++ ".error".toList]

/-- Writes what is new or differs. -/
def store (before after : FileTree) : IO Unit := do
  for (p, n) in after.entries do
    if before.get? p ≠ some n then
      match n with
      | .folder => IO.FS.createDirAll (Path.text p).toStr
      | .file bytes _ => IO.FS.writeBinFile (Path.text p).toStr (ByteArray.mk bytes.toArray)
      | .link _ => pure ()

def start (args : List Text) : IO UInt32 := do
  let e : Environment := ⟨← knownVariables, fun _ => none⟩
  let here ← IO.FS.realPath "."
  let before ← gather args e ⟨Path.tidyParts here.toString.toList, []⟩
  let stdin ← if args.contains ['-'] then readAll (← IO.getStdin) .empty else pure .empty
  let done := CommandLine.run host ⟨args, e, stdin.toList⟩ before
  store before done.tree
  let out ← IO.getStdout
  out.write (ByteArray.mk done.stdout.toArray)
  out.flush
  let err ← IO.getStderr
  err.putStr done.stderr
  if let some f := done.failure then err.putStrLn f.message
  return done.exit.toUInt32

end CommentToggle.Main

def main (args : List String) : IO UInt32 :=
  CommentToggle.Main.start (args.map String.toList)
