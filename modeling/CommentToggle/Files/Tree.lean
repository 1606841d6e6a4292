import CommentToggle.Encoding.Fault
import CommentToggle.Files.Fault

/-!
Files, folders and symbolic links under one root, and the folder that relative
paths start from. A path is the list of names from the root down.
-/
namespace CommentToggle

abbrev Path := List Text

namespace Path

def parts (t : Text) : List Text := Text.splitAtChar '/' t

def isAbsolute (t : Text) : Bool := t.head? = some '/'

def text (p : Path) : Text := '/' :: Text.joinWith ['/'] p

def name (p : Path) : Text := p.getLast?.getD []

def folder (p : Path) : Path := p.dropLast

/-- Where the reading of a text begins for someone at `now`. -/
def base (now : Path) (t : Text) : Path := if isAbsolute t then [] else now

/-- Whether a part names no step: it is empty or a single dot. -/
def isIdle (part : Text) : Bool := part.isEmpty || part = ['.']

def isUp (part : Text) : Bool := part = ['.', '.']

end Path

inductive Node
  | file (bytes : Bytes) (mode : Nat)
  | link (target : Text)
  | folder
  deriving DecidableEq, Repr

structure FileTree where
  here : Path
  entries : List (Path × Node)
  deriving Repr

namespace FileTree

def get? (t : FileTree) (p : Path) : Option Node :=
  if p.isEmpty then some .folder else t.entries.lookup p

def putEntry (p : Path) (n : Node) : List (Path × Node) → List (Path × Node)
  | [] => [(p, n)]
  | (q, m) :: rest => if q = p then (q, n) :: rest else (q, m) :: putEntry p n rest

def put (t : FileTree) (p : Path) (n : Node) : FileTree :=
  { t with entries := putEntry p n t.entries }

def erase (t : FileTree) (p : Path) : FileTree :=
  { t with entries := t.entries.filter fun e => e.1 != p }

/-- Where the reading of a path begins. -/
def origin (t : FileTree) (path : Text) : Path := Path.base t.here path

/-- The number of links, each followed at most once on the way to a real path. -/
def linkCount (t : FileTree) : Nat :=
  t.entries.countP fun e => match e.2 with
    | .link _ => true
    | _ => false

end FileTree

end CommentToggle
