import CommentToggle.Config.Value

/-!
Configuration data of the wrong shape: a value that should hold items or entries
and is of a kind that cannot.
-/
namespace CommentToggle

inductive ShapeFault
  | notIterable (kind : String)
  | noLength (kind : String)
  | noLookup (kind : String)
  | noEntries (kind : String)
  deriving DecidableEq, Repr

def ShapeFault.message : ShapeFault → String
  | notIterable kind => "'" ++ kind ++ "' object is not iterable"
  | noLength kind => "object of type '" ++ kind ++ "' has no len()"
  | noLookup kind => "'" ++ kind ++ "' object has no attribute 'get'"
  | noEntries kind => "'" ++ kind ++ "' object has no attribute 'items'"

namespace Value

/-- The section as a table in which keys can be looked up. -/
def asSection : Value → Except ShapeFault Table
  | table entries => .ok entries
  | v => .error (.noLookup v.kind)

/-- The section as a table whose entries are gone through. -/
def asEntries : Value → Except ShapeFault Table
  | table entries => .ok entries
  | v => .error (.noEntries v.kind)

/-- The members as text: those of a list, the keys of a table, the characters of a text. -/
def members? : Value → Option (List Text)
  | list vs => some (vs.map display)
  | table entries => some (Table.keys entries)
  | text t => some (t.map fun c => [c])
  | _ => none

end Value

end CommentToggle
