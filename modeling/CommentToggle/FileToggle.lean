import CommentToggle.Narration
import CommentToggle.Packages

/-!
Toggling a file. It is read once, the new text is computed, and only then, if it is
to be written and something changed, the file is replaced in one step in the
encoding in which it was read. Whatever goes wrong leaves the file as it was.
-/
namespace CommentToggle

open Text

variable [Charsets] [Packages]

structure ToggledFile where
  initial : Text
  encoding : Text
  done : Toggled

def ToggledFile.changed (f : ToggledFile) : Bool := f.done.changed f.initial

/-- Bytes read as text, with all that is said of it; the detector speaks first if it is asked. -/
def Reading.decodeNoted (h : Host) (source : Text) (raw : Bytes) : List Record × Decoded :=
  let (records, decoded) := decode h.detector source raw
  ((decoded.sample.map Packages.detection).getD [] ++ records, decoded)

theorem Reading.decodeNoted_snd (h : Host) (source : Text) (raw : Bytes) :
    (decodeNoted h source raw).2 = (decode h.detector source raw).2 := rfl

def FileToggle.ofBytes (h : Host) (source : Text) (raw : Bytes) (s : Style) (r : Request) :
    Logged Error ToggledFile := do
  let (records, decoded) := Reading.decodeNoted h source raw
  Logged.notes records
  let done ← (toggleLogged s decoded.text r).mapError Error.fault
  return ⟨decoded.text, decoded.encoding, done⟩

namespace FileTree

def readToggled (t : FileTree) (h : Host) (path : Text) (s : Style) (r : Request) :
    Logged Error ToggledFile := do
  let raw ← Logged.ofExcept ((t.read h.refuses path).mapError Error.file)
  FileToggle.ofBytes h path raw s r

/-- Replaces the file that the path leads to, links followed. -/
def writeText (t : FileTree) (h : Host) (path encoding content : Text) :
    FileTree × Logged Error Unit :=
  if path.contains '\x00' then (t, Logged.fail (.file ⟨.nullCharacter, path, none⟩)) else
  match Codec.encodeBy encoding content with
  | .error f => (t, Logged.fail (.codec f))
  | .ok bytes =>
    let target := t.realPath path
    match t.replace h.refuses h.token target bytes with
    | (after, .ok ()) => (after, Logged.note .debug .program
        ("Atomically replaced '" ++ toStr (Path.text target) ++ s!"' ({bytes.length} bytes)."))
    | (after, .error f) => (after, Logged.fail (.file f))

def quotedPath (path : Text) : String := "'" ++ toStr path ++ "'"

def toggle (t : FileTree) (h : Host) (path : Text) (s : Style) (r : Request) (write : Bool) :
    FileTree × Logged Error ToggledFile :=
  let read := t.readToggled h path s r
  match read.outcome with
  | .error _ => (t, read)
  | .ok f =>
    if !write then (t, read)
    else if !f.changed then
      (t, do
        let _ ← read
        Logged.note .info .program (quotedPath path ++ " already in the requested state.")
        return f)
    else
      let (after, written) := t.writeText h path f.encoding f.done.text
      (after, do
        let _ ← read
        written
        Logged.note .info .program
          ("Rewrote " ++ quotedPath path ++ s!" ({f.done.plan.layers.length} line(s) changed).")
        return f)

end FileTree

end CommentToggle
