import CommentToggle.Config.Toml.Number
import CommentToggle.Config.Value

/-!
Values: texts in quotes, truth values, whole numbers, and lists of values of one kind.
The items of a list are cut at commas; in a list of texts, the pieces of an item that
holds commas are then put together again.
-/
namespace CommentToggle.Toml

open Text

/-- Whether a piece ends in the character that it begins with, and not escaped. -/
def isBounded (t : Text) : Bool :=
  t.isEmpty || t.getLast? = t.head? && !isEscaped (inner t).reverse

/-- A piece that begins with threefold quotes and does not end with as many. -/
def isOpenLong (t : Text) : Bool :=
  match t, t.reverse with
  | a :: b :: c :: _, _ :: y :: x :: _ => a = b && b = c && y ≠ a && x ≠ a
  | _, _ => false

def isComplete (piece : Text) : Bool :=
  let t := trim piece
  isBounded t && !isOpenLong t

/-- Puts pieces together until they are complete; the last one is taken as it is. -/
def joinPieces (piece : Text) : List Text → Except Cause (List Text)
  | [] => .ok [piece]
  | next :: more =>
    if isComplete piece then (joinPieces next more).map (piece :: ·)
    else
      let joined := piece ++ ',' :: next
      if more.isEmpty && !isComplete joined then .error .listTooShort
      else joinPieces joined more

/-- Cuts at the commas that stand outside of all brackets. -/
def splitItems (depth : Int) : Text → List Text
  | [] => [[]]
  | c :: rest =>
    let deeper := if c = '[' then depth + 1 else if c = ']' then depth - 1 else depth
    if c = ',' && depth = 0 then [] :: splitItems depth rest
    else match splitItems deeper rest with
      | [] => [[c]]
      | t :: ts => (c :: t) :: ts

/-- The items of a list as they are written. -/
def itemTexts (t : Text) : Except Cause (List Text) :=
  let body := inner (trim t)
  match trim body with
  | '[' :: _ => .ok (splitItems 0 body)
  | '\x7b' :: _ => .error .notKept
  | first =>
    match splitAtChar ',' body with
    | piece :: more =>
      if first.head? = some '"' || first.head? = some '\'' then joinPieces piece more
      else .ok (piece :: more)
    | [] => .ok []

/-- Whether a value is of the same kind as the ones before it. -/
def isAkin (done : List Value) (v : Value) : Bool := done.head?.all (·.kind = v.kind)

/-- Reads an item, unless it is blank, and puts it behind the others. -/
def addItem (read : Text → Except Cause Value) (done : List Value) (item : Text) :
    Except Cause (List Value) :=
  if (trim item).isEmpty then .ok done
  else do
    let v ← read (trim item)
    if isAkin done v then return done ++ [v] else .error .mixedList

/-- A value nested less than `n` deep. -/
def readValue (wellFormed : Bool) : Nat → Text → Except Cause Value
  | 0, _ => .error .notKept
  | n + 1, t =>
    match t with
    | [] => .error .emptyValue
    | '"' :: _ => (readText '"' t).map Value.text
    | '\'' :: _ => (readText '\'' t).map Value.text
    | '[' :: _ => do return .list (← (← itemTexts t).foldlM (addItem (readValue true n)) [])
    | '\x7b' :: _ => .error .notKept
    | _ =>
      if t = "true".toList then .ok (.bool true)
      else if t = "false".toList then .ok (.bool false)
      else if ["true".toList, "false".toList].contains (lower t) then .error .capitalTruth
      else (readNumber wellFormed t).map Value.int

end CommentToggle.Toml
