import CommentToggle.Files.Tree

/-!
Finding what a path leads to. Links on the way are followed, at most forty of them;
a link at the end is followed too. A path may lead to a place that is still vacant
in a folder that exists. The real path of a path is where it leads with all links
resolved, whether or not anything is there.
-/
namespace CommentToggle.FileTree

inductive Place
  | node (path : Path) (n : Node)
  | vacant (path : Path)
  deriving Repr

def nameLimit : Nat := 255

def pathLimit : Nat := 4095

def linkLimit : Nat := 40

def byteCount (t : Text) : Nat := t.foldl (· + ·.utf8Size) 0

/-- Goes from the folder `now` along the parts that are left; `jump` goes on where a link
leads. -/
def walkBy (t : FileTree) (jump : Path → List Text → Except FileCause Place) (now : Path) :
    List Text → Except FileCause Place
  | [] => .ok (.node now .folder)
  | part :: rest =>
    if Path.isIdle part then walkBy t jump now rest
    else if Path.isUp part then walkBy t jump now.dropLast rest
    else if nameLimit < byteCount part then .error .nameTooLong
    else match t.get? (now ++ [part]) with
      | none => if rest.isEmpty then .ok (.vacant (now ++ [part])) else .error .missing
      | some .folder => walkBy t jump (now ++ [part]) rest
      | some (.file bytes mode) =>
        if rest.isEmpty then .ok (.node (now ++ [part]) (.file bytes mode))
        else .error .notDirectory
      | some (.link target) => jump (Path.base now target) (Path.parts target ++ rest)

/-- Goes along the parts with so many links to follow. -/
def walk (t : FileTree) : Nat → Path → List Text → Except FileCause Place
  | 0 => walkBy t fun _ _ => .error .tooManyLinks
  | left + 1 => walkBy t (walk t left)

def locate (t : FileTree) (path : Text) : Except FileCause Place :=
  if path.contains '\x00' then .error .nullCharacter
  else if path.isEmpty then .error .missing
  else if pathLimit < byteCount path then .error .nameTooLong
  else walk t linkLimit (t.origin path) (Path.parts path)

/-- What is at the end of the path. -/
def find (t : FileTree) (path : Text) : Except FileCause (Path × Node) := do
  match ← t.locate path with
  | .node p n => return (p, n)
  | .vacant _ => .error .missing

def isPresent (t : FileTree) (path : Text) : Bool := (t.find path).toBool

/-- Whether there is a file; only a name that is too long makes this a fault. -/
def isFile (t : FileTree) (path : Text) : Except FileFault Bool :=
  match t.find path with
  | .ok (_, .file ..) => .ok true
  | .ok _ => .ok false
  | .error .nameTooLong => .error ⟨.nameTooLong, path, none⟩
  | .error _ => .ok false

def readFile (t : FileTree) (path : Text) : Except FileFault Bytes :=
  match t.find path with
  | .ok (_, .file bytes _) => .ok bytes
  | .ok _ => .error ⟨.isDirectory, path, none⟩
  | .error cause => .error ⟨cause, path, none⟩

/-- Follows the parts without regard to whether they exist; false when a link leads
back to itself, with the rest of the parts left as they are. The target of a link is
followed by `enter`, with that link among those that must not be met again. -/
def followBy (t : FileTree) (enter : List Path → Path → List Text → Path × Bool)
    (visiting : List Path) (now : Path) : List Text → Path × Bool
  | [] => (now, true)
  | part :: rest =>
    if Path.isIdle part then followBy t enter visiting now rest
    else if Path.isUp part then followBy t enter visiting now.dropLast rest
    else
      let next := now ++ [part]
      match t.get? next with
      | some (.link target) =>
        if next ∈ visiting then (next ++ rest, false)
        else match enter (next :: visiting) (Path.base now target) (Path.parts target) with
          | (p, true) => followBy t enter visiting p rest
          | (p, false) => (p ++ rest, false)
      | _ => followBy t enter visiting next rest

/-- Follows the parts, and links within links to the given depth. -/
def follow (t : FileTree) : Nat → List Path → Path → List Text → Path × Bool
  | 0 => followBy t fun _ now _ => (now, false)
  | left + 1 => followBy t (follow t left)

/-- Takes the steps up and the idle parts out of a path. -/
def straighten (parts : List Text) : Path :=
  parts.foldl (fun p part =>
    if Path.isIdle part then p else if Path.isUp part then p.dropLast else p ++ [part]) []

def realPath (t : FileTree) (path : Text) : Path :=
  straighten (t.follow (t.linkCount + 1) [] (t.origin path) (Path.parts path)).1

/-- The path made absolute without following links. -/
def absolute (t : FileTree) (path : Text) : Path :=
  straighten (t.origin path ++ Path.parts path)

end CommentToggle.FileTree
