import CommentToggle.Proofs.CommandLine.Independence

/-!
The four ways to toggle a file: in place, printed, only checked, and as a filter that the
same bytes pass through. What is asked for differs in one option or in the file that is
named, so the runs start alike and their jobs differ in the mode alone.
-/
namespace CommentToggle.CommandLine

inductive Mode
  | inPlace
  | toStdout
  | check
  | filter
  deriving DecidableEq, Repr

namespace Mode

/-- What the command names as its file. -/
def file (m : Mode) (path : Text) : Text := if m = filter then ['-'] else path

/-- What comes on standard input; only the filter reads it. -/
def stdin (m : Mode) (raw other : Bytes) : Bytes := if m = filter then raw else other

end Mode

/-- The same is asked for in another mode. -/
def Parameters.inMode (p : Parameters) (m : Mode) : Parameters :=
  { p with
    file := m.file p.file
    toStdout := p.toStdout || m = .toStdout
    check := p.check || m = .check }

def Job.inMode (j : Job) (m : Mode) : Job :=
  { j with toStdout := j.toStdout || m = .toStdout, check := j.check || m = .check }

theorem Job.inMode_inPlace (j : Job) : j.inMode .inPlace = j := by simp [inMode]

theorem Job.inMode_filter (j : Job) : j.inMode .filter = j := by simp [inMode]

theorem Parameters.job_inMode (p : Parameters) (m : Mode) (config : Table) :
    (p.inMode m).job config = (p.job config).inMode m := rfl

namespace Launch

variable [Packages] {h : Host} {i : Invocation} {t : FileTree}

/-- The run in another mode, where it gets as far. -/
def inMode (l : Launch h i t) (m : Mode) (raw : Bytes) {args : List Text}
    (hargs : Packages.parameters h i.environment t args = .ok (l.parameters.inMode m)) :
    Launch h { i with arguments := args, stdin := m.stdin raw i.stdin } t where
  parameters := l.parameters.inMode m
  started := l.started
  read_eq := hargs
  startUp_eq := l.startUp_eq

/-- A run in place, on one file, with its style given on the command line. -/
structure Single (l : Launch h i t) : Prop where
  list : l.parameters.list = false
  toStdout : l.parameters.toStdout = false
  check : l.parameters.check = false
  alone : l.parameters.moreFiles = []
  named : l.parameters.file ≠ ['-']
  styled : Detect.given l.parameters.leader ≠ none ∨ Detect.given l.parameters.styleName ≠ none

instance (l : Launch h i t) : Decidable l.Single :=
  decidable_of_iff (l.parameters.list = false ∧ l.parameters.toStdout = false ∧
      l.parameters.check = false ∧ l.parameters.moreFiles = [] ∧ l.parameters.file ≠ ['-'] ∧
      (Detect.given l.parameters.leader ≠ none ∨ Detect.given l.parameters.styleName ≠ none))
    ⟨fun ⟨hlist, htoStdout, hcheck, halone, hnamed, hstyled⟩ =>
      ⟨hlist, htoStdout, hcheck, halone, hnamed, hstyled⟩,
      fun h => ⟨h.list, h.toStdout, h.check, h.alone, h.named, h.styled⟩⟩

end Launch

end CommentToggle.CommandLine
