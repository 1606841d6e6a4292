import CommentToggle.Plan

/-!
Toggling a text: read it as a document, plan the request, change the lines that
gain or lose layers, and put the text together again. A session applies requests
one after the other; a request that fails leaves the text as it was.
-/
namespace CommentToggle

structure Toggled where
  document : Document
  plan : Plan
  text : Text

namespace Toggled

def changed (initial : Text) (t : Toggled) : Bool := t.text != initial

end Toggled

def Document.shiftLayers (d : Document) (p : Plan) : Except Fault (List Text) :=
  d.lines.mapM fun l => Layer.shift d.style d.spaced l (p.layersOf l.index)

def Document.toggle (d : Document) (r : Request) : Except Fault Toggled := do
  let plan ← Plan.make d r
  return ⟨d, plan, d.render (← d.shiftLayers plan)⟩

def toggle (s : Style) (t : Text) (r : Request) : Except Fault Toggled := do
  (← Document.read s t).toggle r

/-- The text after a sequence of requests. -/
def session (s : Style) (t : Text) (rs : List Request) : Text :=
  rs.foldl (fun now r => match toggle s now r with
    | .ok done => done.text
    | .error _ => now) t

end CommentToggle
