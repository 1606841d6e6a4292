import CommentToggle.Files.Locate

/-!
Opening a file to write at its end. The file is made if it is not there, and so
are the folders above it when asked for. A name with a slash behind it stands for a
folder, whether there is one or not, and cannot be opened.
-/
namespace CommentToggle.FileTree

/-- Mode of a new file that everyone may read. -/
def commonMode : Nat := 0o644

/-- What comes before the last slash, without slashes at its end unless it has only such. -/
def parentText (path : Text) : Text :=
  let head := path.take (path.length - (path.reverse.takeWhile (· ≠ '/')).length)
  let bare := (head.reverse.dropWhile (· = '/')).reverse
  if bare.isEmpty then head else bare

/-- Makes one folder in a folder that is there. A link at the end is not followed. -/
def makeFolder (t : FileTree) (path : Text) : Except FileFault FileTree :=
  if path.contains '\x00' then .error ⟨.nullCharacter, path, none⟩ else
  let parts := (Path.parts path).filter (!Path.isIdle ·)
  match t.walk linkLimit (t.origin path) parts.dropLast, parts.getLast? with
  | .error cause, _ => .error ⟨cause, path, none⟩
  | .ok (.vacant _), _ => .error ⟨.missing, path, none⟩
  | .ok (.node _ (.file ..)), _ => .error ⟨.notDirectory, path, none⟩
  | .ok (.node above _), some name =>
    if Path.isUp name || (t.get? (above ++ [name])).isSome then .error ⟨.present, path, none⟩
    else if nameLimit < byteCount name then .error ⟨.nameTooLong, path, none⟩
    else .ok (t.put (above ++ [name]) .folder)
  | .ok (.node ..), none => .error ⟨.present, path, none⟩

/-- The folders above a path that have to be made, outermost first: those up to the
first one that is there. -/
def foldersAbove (t : FileTree) : Nat → Text → List Text
  | 0, _ => []
  | n + 1, path =>
    let above := parentText path
    if above.isEmpty || above = path || t.isPresent above then []
    else foldersAbove t n above ++ [above]

/-- Makes the folders in order. A folder that is there in spite of all is passed over. -/
def makeAbove (t : FileTree) : List Text → FileTree × Option FileFault
  | [] => (t, none)
  | path :: rest =>
    match t.makeFolder path with
    | .ok made => makeAbove made rest
    | .error f => if f.cause = .present then makeAbove t rest else (t, some f)

/-- Makes a folder and those above it; folders made before a fault remain. -/
def makeFolders (t : FileTree) (path : Text) : FileTree × Option FileFault :=
  let missing := t.foldersAbove path.length path
  match t.makeAbove missing with
  | (ready, some f) => (ready, some f)
  | (ready, none) =>
    if !missing.isEmpty && (Path.parts path).getLast? = some ['.'] then (ready, none)
    else match ready.makeFolder path with
      | .ok made => (made, none)
      | .error f => (ready, some f)

/-- Whether a path, or the target of a link at its end, closes with a slash after the
name of something in a folder that is there. -/
def endsInSlash (t : FileTree) : Nat → Path → Text → Bool
  | 0, _, _ => false
  | n + 1, now, path =>
    let named := ((Path.parts path).reverse.dropWhile (·.isEmpty)).reverse
    match t.walk linkLimit now named.dropLast, named.getLast? with
    | .ok (.node above .folder), some name =>
      if Path.isIdle name || Path.isUp name then false
      else if path.getLast? = some '/' then true
      else match t.get? (above ++ [name]) with
        | some (.link target) =>
          endsInSlash t n (Path.base above target) target
        | _ => false
    | _, _ => false

def openAppend (t : FileTree) (path : Text) : Except FileFault FileTree :=
  let shown := Path.text (t.absolute path)
  match t.locate shown with
  | .ok (.node _ (.file ..)) => .ok t
  | .ok (.vacant p) => .ok (t.put p (.file [] commonMode))
  | .ok (.node ..) => .error ⟨.isDirectory, shown, none⟩
  | .error cause =>
    let stands := if t.endsInSlash linkLimit [] shown then .isDirectory else cause
    .error ⟨stands, shown, none⟩

end CommentToggle.FileTree
