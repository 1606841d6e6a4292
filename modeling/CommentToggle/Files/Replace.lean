import CommentToggle.Files.Attempt

/-!
Replacing a file in one step. The new content goes to a temporary file beside the
target, which gets the permissions of the target and then takes its place. The
system may refuse any of the steps, and a step that fails leaves the temporary file as
far as it came; it is removed, and the tree is as it was.
-/
namespace CommentToggle.FileTree

/-- Mode of a new file that only its owner may read and write. -/
def privateMode : Nat := 0o600

def temporaryName (name token : Text) : Text :=
  '.' :: name ++ '.' :: token ++ ".tmp".toList

def temporary (target : Path) (token : Text) : Path :=
  Path.folder target ++ [temporaryName (Path.name target) token]

def fault (cause : FileCause) (p : Path) : FileFault := ⟨cause, Path.text p, none⟩

/-- Makes an empty file where there is nothing, not even a link. -/
def create (t : FileTree) (refuses : Refusals) (temp : Path) : FileTree × Except FileFault Unit :=
  match refuses (.create temp) with
  | some r => (t, .error (fault r.cause temp))
  | none =>
    match t.walk linkLimit [] temp with
    | .error cause => (t, .error (fault cause temp))
    | .ok (.node ..) => (t, .error (fault .present temp))
    | .ok (.vacant _) =>
      if (t.get? temp).isSome then (t, .error (fault .present temp))
      else (t.put temp (.file [] privateMode), .ok ())

def fill (t : FileTree) (refuses : Refusals) (temp : Path) (bytes : Bytes) :
    FileTree × Except FileFault Unit :=
  match refuses (.fill temp bytes) with
  | some r => (t.put temp (.file (bytes.take r.written) privateMode), .error (fault r.cause temp))
  | none => (t.put temp (.file bytes privateMode), .ok ())

def copyMode (t : FileTree) (refuses : Refusals) (target temp : Path) (bytes : Bytes) :
    FileTree × Except FileFault Unit :=
  match t.get? target with
  | some (.file _ mode) =>
    match refuses (.copyMode target temp) with
    | some r => (t, .error (fault r.cause temp))
    | none => (t.put temp (.file bytes mode), .ok ())
  | _ => (t, .ok ())

def swap (t : FileTree) (refuses : Refusals) (target temp : Path) :
    FileTree × Except FileFault Unit :=
  let between (cause : FileCause) : FileFault := ⟨cause, Path.text temp, some (Path.text target)⟩
  match refuses (.swap temp target) with
  | some r => (t, .error (between r.cause))
  | none =>
    if t.get? target = some .folder then (t, .error (between .isDirectory))
    else match t.get? temp with
      | none => (t, .error (between .missing))
      | some n => ((t.erase temp).put target n, .ok ())

/-- The steps after the temporary file was created, up to the first that fails. -/
def finish (t : FileTree) (refuses : Refusals) (target temp : Path) (bytes : Bytes) :
    FileTree × Except FileFault Unit :=
  match t.fill refuses temp bytes with
  | (filled, .error f) => (filled, .error f)
  | (filled, .ok ()) =>
    match filled.copyMode refuses target temp bytes with
    | (moded, .error f) => (moded, .error f)
    | (moded, .ok ()) => moded.swap refuses target temp

/-- The tree afterwards, and what went wrong if anything did. -/
def replace (t : FileTree) (refuses : Refusals) (token : Text) (target : Path) (bytes : Bytes) :
    FileTree × Except FileFault Unit :=
  let temp := temporary target token
  match t.create refuses temp with
  | (kept, .error f) => (kept, .error f)
  | (created, .ok ()) =>
    match created.finish refuses target temp bytes with
    | (done, .ok ()) => (done, .ok ())
    | (stopped, .error f) => (stopped.erase temp, .error f)

theorem erase_put {t : FileTree} {p : Path} (n : Node) (h : ∀ e ∈ t.entries, e.1 ≠ p) :
    (t.put p n).erase p = t := by
  have key : ∀ es : List (Path × Node), (∀ e ∈ es, e.1 ≠ p) →
      (putEntry p n es).filter (fun e => e.1 != p) = es := by
    intro es
    induction es with
    | nil => simp [putEntry]
    | cons e es ih =>
      intro hes
      have he : e.1 ≠ p := hes e (by simp)
      simp [putEntry, he, ih fun x hx => hes x (by simp [hx])]
  simp [erase, put, key t.entries h]

end CommentToggle.FileTree
