import CommentToggle.FileToggle
import CommentToggle.Listing

/-!
What is done with each file of a run. A file is listed, printed, checked or
changed in place; what happens to it depends on no other file. Standard input is
listed or printed.
-/
namespace CommentToggle.CommandLine

open Text

variable [Charsets] [Packages]

/-- What working on one file leaves: the tree, the bytes printed, the records, and
whether the file changed or would change. -/
structure FileReport where
  tree : FileTree
  printed : Bytes
  records : List Record
  outcome : Except Error Bool

namespace Job

def styleOf (j : Job) (h : Host) (path : Text) : Logged Error Style := do
  let s ← Detect.detect j.config h.lexers ⟨some path, j.styleName, j.leader, j.closer⟩
  Logged.note .debug .commandLine ("Using comment syntax '" ++ toStr s.name ++ "' " ++
    toStr (shownLeaders s.leaders) ++ " for '" ++ toStr path ++ "'.")
  return s
where
  /-- The leaders in parentheses; one alone is followed by a comma. -/
  shownLeaders : List Text → Text
    | [one] => '(' :: one.quoted ++ ",)".toList
    | ts => '(' :: joinWith ", ".toList (ts.map quoted) ++ [')']

def tableLine (d : Document) : Bytes := Utf8.encode (Listing.table d.describe ++ ['\n'])

/-- Bytes to print, and records. Whatever is printed before a fault stays printed. -/
def listed (heading : Bytes) (h : Host) (source : Text) (raw : Bytes) (s : Style) :
    Bytes × Logged Error Bool :=
  let (records, decoded) := Reading.decodeNoted h source raw
  let read := (Document.readLogged s decoded.text).mapError Error.fault
  let logged : Logged Error Bool := do
    Logged.notes records
    let _ ← read
    return false
  match read.outcome with
  | .ok d => (heading ++ tableLine d, logged)
  | .error _ => (heading, logged)

/-- Prints the new text in the encoding of the old one. -/
def printed (f : ToggledFile) : Bytes × Logged Error Bool :=
  match Codec.encodeBy f.encoding f.done.text with
  | .ok bytes => (bytes, return f.changed)
  | .error fault => ([], Logged.fail (.codec fault))

def stdinName : Text := "<stdin>".toList

def onStdin (j : Job) (h : Host) (stdin : Bytes) (s : Style) : Bytes × Logged Error Bool :=
  if j.list then listed [] h stdinName stdin s
  else
    let read := FileToggle.ofBytes h stdinName stdin s j.request
    match read.outcome with
    | .error e => ([], ⟨read.records, .error e⟩)
    | .ok f =>
      let (bytes, after) := printed f
      (bytes, ⟨read.records ++ after.records, after.outcome⟩)

def heading (j : Job) (path : Text) : Bytes :=
  if j.several then Utf8.encode (path ++ [':', '\n']) else []

def onFile (j : Job) (h : Host) (t : FileTree) (path : Text) (s : Style) :
    FileTree × Bytes × Logged Error Bool :=
  if j.list then
    match t.read h.refuses path with
    | .error f => (t, [], Logged.fail (.file f))
    | .ok raw => (t, listed (j.heading path) h path raw s)
  else
    let (after, toggled) := t.toggle h path s j.request (!(j.toStdout || j.check))
    match toggled.outcome with
    | .error e => (after, [], ⟨toggled.records, .error e⟩)
    | .ok f =>
      if j.toStdout then
        let (bytes, done) := printed f
        (after, bytes, ⟨toggled.records ++ done.records, done.outcome⟩)
      else (after, [], ⟨toggled.records, .ok f.changed⟩)

def process (j : Job) (h : Host) (stdin : Bytes) (t : FileTree) (path : Text) : FileReport :=
  let style := j.styleOf h path
  match style.outcome with
  | .error e => ⟨t, [], style.records, .error e⟩
  | .ok s =>
    let (after, bytes, done) :=
      if path = ['-'] then (t, j.onStdin h stdin s) else j.onFile h t path s
    ⟨after, bytes, style.records ++ done.records, done.outcome⟩

end Job

end CommentToggle.CommandLine
