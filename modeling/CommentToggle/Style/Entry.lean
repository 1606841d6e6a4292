import CommentToggle.Config.Shape
import CommentToggle.Error
import CommentToggle.Log
import CommentToggle.Style

/-!
The style described by one entry of the comment table. Leaders may be given as one
text or several, a style without line comments by its two delimiters. Space around
them does not count, and an entry from which nothing usable is left gives no style.
-/
namespace CommentToggle.Style

open Text

/-- The leaders that remain once trimmed. -/
def trimmed (ts : List Text) : List Text := (ts.map trim).filter (!·.isEmpty)

theorem usable_trimmed {ts : List Text} (h : trimmed ts ≠ []) : Usable (trimmed ts) :=
  ⟨h, by simp [trimmed]⟩

def candidates (v : Value) : Except ShapeFault (List Text) :=
  match v with
  | .text t => .ok [t]
  | v => match v.members? with
    | some ts => .ok ts
    | none => .error (.notIterable v.kind)

def ofLeaders? (name : Text) (v : Value) : Except ShapeFault (Option Style) := do
  if v.isSet then
    return ofParts? name (trimmed (← candidates v)) none
  else return none

def ofDelimiters? (name : Text) (v : Value) : Except ShapeFault (Option Style) :=
  if v.isSet then
    match v.members? with
    | none => .error (.noLength v.kind)
    | some [opener, closer] =>
      if (trim closer).isEmpty then .ok none
      else .ok (ofParts? name [trim opener] (some (trim closer)))
    | some _ => .ok none
  else .ok none

def readEntry (name : Text) (entry : Table) : Except ShapeFault (Option Style) := do
  match ← ofLeaders? name ((Table.get? entry "line_prefix".toList).getD .null) with
  | some s => return some s
  | none => ofDelimiters? name ((Table.get? entry "block_delims".toList).getD .null)

def ofEntry? (name : Text) (entry : Table) : Logged Error (Option Style) := do
  match ← Logged.ofExcept ((readEntry name entry).mapError .shape) with
  | some s => return some s
  | none =>
    Logged.note .warning .style
      ("Comment table entry '" ++ toStr name ++ "' has no usable prefix.")
    return none

end CommentToggle.Style
