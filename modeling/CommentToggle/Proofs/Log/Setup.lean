import CommentToggle.Log.Setup

/-!
Log files, and folders made for them, come into the tree; the folder that relative paths
start from stays.
-/
namespace CommentToggle

namespace FileTree

variable {t made : FileTree} {path : Text}

theorem makeFolder_here (h : t.makeFolder path = .ok made) : made.here = t.here := by
  unfold makeFolder at h
  split at h
  · cases h
  · simp only at h
    split at h
    case h_4 =>
      split at h
      · cases h
      · split at h
        · cases h
        · cases h
          rfl
    all_goals cases h

theorem makeAbove_here (t : FileTree) (missing : List Text) :
    (t.makeAbove missing).1.here = t.here := by
  induction missing generalizing t with
  | nil => rfl
  | cons path rest ih =>
    rw [makeAbove]
    cases hmade : t.makeFolder path with
    | ok made => exact (ih made).trans (makeFolder_here hmade)
    | error f =>
      simp only
      split
      · exact ih t
      · rfl

theorem makeFolders_here (t : FileTree) (path : Text) : (t.makeFolders path).1.here = t.here := by
  have habove := t.makeAbove_here (t.foldersAbove path.length path)
  unfold makeFolders
  grind [makeFolder_here]

theorem openAppend_here (h : t.openAppend path = .ok made) : made.here = t.here := by
  unfold openAppend at h
  grind [put]

end FileTree

namespace Log

theorem openLog_here (t : FileTree) (name : Text) : (openLog t name).1.here = t.here := by
  unfold openLog
  grind [FileTree.makeFolders_here, FileTree.openAppend_here]

section Opening

variable {opens : Opening} (hopens : ∀ t name, (opens t name).1.here = t.here)

include hopens

theorem withErrors_here (t : FileTree) (complaints : List String) (s : Setup) (name : Text) :
    (withErrors opens t complaints s name).tree.here = t.here := by
  have hopened := hopens t name
  unfold withErrors
  grind

theorem withFiles_here (t : FileTree) (console : Nat) (name : Text) (level : LevelSetting)
    (separate : Bool) : (withFiles opens t console name level separate).tree.here = t.here := by
  have hopened := hopens t name
  unfold withFiles
  cases hlog : opens t name with
  | mk made result =>
    have hmade : made.here = t.here := by rwa [hlog] at hopened
    cases result with
    | error f =>
      simp only
      split
      · split
        · exact (withErrors_here hopens ..).trans hmade
        · exact hmade
      · exact hmade
    | ok path =>
      simp only
      cases mainLog level path with
      | error e => exact hmade
      | ok handler =>
        simp only
        split
        · exact (withErrors_here hopens ..).trans hmade
        · exact hmade

theorem setupWith_here (t : FileTree) (e : Environment) (config : Table) (verbosity : Int) :
    (setupWith opens t e config verbosity).tree.here = t.here := by
  unfold setupWith
  split
  · rfl
  · split
    · rfl
    · simp only
      split
      · rfl
      · exact withFiles_here hopens ..

end Opening

theorem setup_here (t : FileTree) (e : Environment) (config : Table) (verbosity : Int) :
    (setup t e config verbosity).tree.here = t.here :=
  setupWith_here openLog_here t e config verbosity

end Log

end CommentToggle
