import CommentToggle.Text.Basic

/-!
References inside a value: a name in braces after a dollar sign stands for the text
of that variable. After the name a colon and a dash may give a text for a variable
that is not there. What is no complete reference is text like any other.
-/
namespace CommentToggle

structure Reference where
  name : Text
  /-- Stands in for a variable that is not there. -/
  otherwise : Text
  /-- The number of characters it takes up. -/
  width : Nat
  deriving DecidableEq, Repr

namespace Reference

/-- The reference that stands at the beginning. -/
def ofStart? : Text → Option Reference
  | '$' :: '\x7b' :: t =>
    let name := t.takeWhile fun c => c ≠ '\x7d' && c ≠ ':'
    match t.drop name.length with
    | '\x7d' :: _ => some ⟨name, [], name.length + 3⟩
    | ':' :: '-' :: more =>
      let otherwise := more.takeWhile (· ≠ '\x7d')
      if otherwise.length < more.length then
        some ⟨name, otherwise, name.length + otherwise.length + 5⟩
      else none
    | _ => none
  | _ => none

/-- Puts in the texts that the names stand for, after passing over `skip` characters. -/
def expandFrom (text? : Text → Option Text) : Nat → Text → Text
  | _, [] => []
  | skip + 1, _ :: rest => expandFrom text? skip rest
  | 0, c :: rest =>
    match ofStart? (c :: rest) with
    | some r => (text? r.name).getD r.otherwise ++ expandFrom text? (r.width - 1) rest
    | none => c :: expandFrom text? 0 rest

def expand (text? : Text → Option Text) (t : Text) : Text := expandFrom text? 0 t

end Reference

end CommentToggle
