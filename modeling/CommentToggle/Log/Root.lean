import CommentToggle.Log.Setup

/-!
The root, where all records arrive. It lets those through that are of its own level or above,
and of these each handler takes what is of its own level or above. A set-up clears the root of
the handlers it had; one that fails leaves it as it was.
-/
namespace CommentToggle.Log

inductive Handler
  | console (level : Nat)
  | file (f : FileHandler)
  deriving DecidableEq, Repr

namespace Handler

def level : Handler → Nat
  | console n => n
  | file f => f.level

def accepts (h : Handler) (l : Level) : Prop := h.level ≤ l.rank

end Handler

def Setup.handlers (s : Setup) : List Handler := .console s.console :: s.fileHandlers.map .file

structure Root where
  level : Nat
  handlers : List Handler

namespace Root

def admits (r : Root) (l : Level) : Prop := r.level ≤ l.rank

def add (r : Root) (h : Handler) : Root := { r with handlers := r.handlers ++ [h] }

def install (r : Root) (s : Setup) : Root :=
  let filled := s.handlers.foldl add { r with handlers := [] }
  { filled with level := s.root }

theorem handlers_foldl_add (r : Root) (hs : List Handler) :
    (hs.foldl add r).handlers = r.handlers ++ hs := by
  induction hs generalizing r with
  | nil => exact (List.append_nil _).symm
  | cons h rest ih =>
    rw [List.foldl_cons, ih, add, List.append_assoc]
    rfl

/-- None of the handlers from before is kept. -/
@[simp] theorem handlers_install (r : Root) (s : Setup) : (r.install s).handlers = s.handlers :=
  handlers_foldl_add _ _

@[simp] theorem level_install (r : Root) (s : Setup) : (r.install s).level = s.root := rfl

end Root

/-- A call for a set-up, with the way in which log files are opened at that time. -/
structure Call where
  opens : Opening
  environment : Environment
  config : Table
  verbosity : Int

def Call.setup (c : Call) (t : FileTree) : SetupResult :=
  setupWith c.opens t c.environment c.config c.verbosity

structure State where
  tree : FileTree
  root : Root

namespace State

def after (s : State) (c : Call) : State :=
  let done := c.setup s.tree
  match done.outcome with
  | .ok set => ⟨done.tree, s.root.install set⟩
  | .error _ => ⟨done.tree, s.root⟩

def run (s : State) (calls : List Call) : State := calls.foldl after s

end State

end CommentToggle.Log
