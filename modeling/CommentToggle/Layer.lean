import CommentToggle.Fault
import CommentToggle.Line

/-!
A comment layer is one leader in front of a line's content, right after the
indentation, and for a style with a closer also that closer behind it. Adding
writes a space beside each delimiter if the file does so; removing takes such a
space away only where it is found, so lines commented by hand keep their spaces.
-/
namespace CommentToggle.Layer

def add (s : Style) (spaced : Bool) (content : Text) : Text :=
  let gap : Text := if spaced then [' '] else []
  s.primary ++ gap ++ content ++
    match s.closer with
    | none => []
    | some q => gap ++ q

def dropLastSpace (t : Text) : Text := if t.getLast? = some ' ' then t.dropLast else t

/-- Removes the closer, white space behind it left in place. -/
def uncloser? (q : Text) (spaced : Bool) (t : Text) : Option Text :=
  let trimmed := Text.trimEnd t
  (Style.cutCloser? q trimmed).map fun inner =>
    (if spaced then dropLastSpace inner else inner) ++ t.drop trimmed.length

/-- The content without its outermost layer, if it has one. -/
def strip? (s : Style) (content : Text) : Option Text :=
  match s.uncover? content, s.closer with
  | none, _ => none
  | some (_, rest), none => some rest
  | some (spaced, rest), some q => uncloser? q spaced rest

def addTimes (s : Style) (spaced : Bool) : Nat → Text → Text
  | 0, content => content
  | n + 1, content => addTimes s spaced n (add s spaced content)

def stripTimes? (s : Style) : Nat → Text → Option Text
  | 0, content => some content
  | n + 1, content => (strip? s content).bind (stripTimes? s n)

/-- The body of a line with so many layers more, or fewer when negative. -/
def shift (s : Style) (spaced : Bool) (l : Line) : Int → Except Fault Text
  | .ofNat n => .ok (l.indent ++ addTimes s spaced n l.content)
  | .negSucc n =>
    match stripTimes? s (n + 1) l.content with
    | some content => .ok (l.indent ++ content)
    | none => .error (.tooFewLayers l.index (n + 1))

@[simp] theorem shift_zero (s : Style) (spaced : Bool) (l : Line) :
    shift s spaced l 0 = .ok l.body := rfl

end CommentToggle.Layer
