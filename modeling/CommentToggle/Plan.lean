import CommentToggle.Document.States
import CommentToggle.Selection

/-!
From the states asked for to the layers each line gains or loses. A line is
commented once for every inactive block around it; blank lines and directives
are left alone. A bare line that begins with the marker is never commented, since
it would then be read as a directive.
-/
namespace CommentToggle

inductive LineState
  | active
  | inactive
  | unchanged
  deriving DecidableEq, Repr

def LineState.word : LineState → String
  | active => "active"
  | inactive => "inactive"
  | unchanged => "unchanged"

structure Plan where
  current : List Bool
  desired : List Bool
  /-- Line and number of layers to add, in order; lines not listed keep their text. -/
  layers : List (Nat × Int)
  states : List LineState
  deriving DecidableEq, Repr

namespace Plan

def isActive (states : List Bool) (i : Nat) : Bool := (states[i]?).getD true

/-- The number of blocks in the list that are inactive. -/
def depth (states : List Bool) (bs : List Block) : Nat :=
  bs.countP fun b => !isActive states b.index

def ofLine (d : Document) (current desired : List Bool) (l : Line) :
    Except Fault (LineState × Option (Nat × Int)) :=
  let around := if l.directive then [] else d.containing l.index
  if around.isEmpty then .ok (.unchanged, none)
  else
    let held := depth current around
    let want := depth desired around
    let state : LineState := if want = 0 then .active else .inactive
    if l.isBlank || want = held then .ok (state, none)
    else if held = 0 && marker.isPrefixOf l.content then .error (.reserved l.index)
    else .ok (state, some (l.index, (want : Int) - held))

def make (d : Document) (r : Request) : Except Fault Plan := do
  r.check d.groupNames
  let current := d.states
  let desired ← r.select d current
  let entries ← d.lines.mapM (ofLine d current desired)
  return ⟨current, desired, entries.filterMap (·.2), entries.map (·.1)⟩

def changes (p : Plan) : Bool := p.layers.any (·.2 != 0)

def layersOf (p : Plan) (line : Nat) : Int := (p.layers.lookup line).getD 0

end Plan

end CommentToggle
