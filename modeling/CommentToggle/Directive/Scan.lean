import CommentToggle.Directive.Parse

/-!
All directives of a document in order. A closing that names no group is given
the name of the innermost group open at that point; whether the nesting is right
is judged later, when the blocks are formed.
-/
namespace CommentToggle.Directive

/-- The groups still open after `group` was closed, innermost first. -/
def dropClosed (group : Text) (opened : List Text) : List Text :=
  if opened.contains group then (opened.dropWhile (· ≠ group)).drop 1 else opened

/-- Names a closing and says which groups are open afterwards. -/
def settle? (opened : List Text) (d : Directive) : Option (Directive × List Text) :=
  match d.kind with
  | .opening => some (d, d.group :: opened)
  | .tagging => some (d, opened)
  | .closing =>
    if d.group.isEmpty then
      opened.head?.map fun group => ({ d with group }, dropClosed group opened)
    else some (d, dropClosed d.group opened)

/-- The directives up to the end or to the first fault. -/
def scanFrom (s : Style) (opened : List Text) : List Line → List Directive × Option Fault
  | [] => ([], none)
  | l :: rest =>
    match ofLine? s l with
    | .error fault => ([], some fault)
    | .ok none => scanFrom s opened rest
    | .ok (some d) =>
      match settle? opened d with
      | none => ([], some (.malformed l.index .nothingToEnd))
      | some (named, still) =>
        let (ds, fault) := scanFrom s still rest
        (named :: ds, fault)

def scan (s : Style) (ls : List Line) : Except Fault (List Directive) :=
  match scanFrom s [] ls with
  | (ds, none) => .ok ds
  | (_, some fault) => .error fault

def mark (ds : List Directive) (ls : List Line) : List Line :=
  ls.map fun l => if ds.any (·.line = l.index) then { l with directive := true } else l

end CommentToggle.Directive
