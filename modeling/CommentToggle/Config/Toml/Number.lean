import CommentToggle.Config.Toml.QuotedText

/-!
Whole numbers: a sign, then decimal digits, or hexadecimal, octal or binary ones
behind their mark. Underscores may separate digits.
-/
namespace CommentToggle.Toml

open Text

/-- Whether the two characters stand side by side. -/
def hasPair (a b : Char) (t : Text) : Bool := (t.zip (t.drop 1)).contains (a, b)

def isSign (c : Char) : Bool := c = '+' || c = '-'

/-- A decimal number does not start with a zero that another digit follows. -/
def leadsWell (marks : List Char) : Text → Bool
  | '0' :: d :: _ => marks.contains d
  | _ => true

/-- Zeros and underscores stand where they may. -/
def isWellFormed (t : Text) : Bool :=
  let n := trim t
  match n with
  | [] => false
  | [c] => c ≠ '_'
  | c :: rest =>
    c ≠ '_' && rest.getLast? ≠ some '_' && !hasPair '_' '.' n && !hasPair '.' '_' n &&
      !hasPair '_' '_' n && leadsWell ['.', 'o', 'b', 'x'] n &&
      (!isSign c || leadsWell ['.'] rest)

def digitsIn? (base : Nat) (t : Text) : Option Nat :=
  match t.mapM hexValue? with
  | some (d :: ds) =>
    if (d :: ds).all (· < base) then some ((d :: ds).foldl (fun acc d => acc * base + d) 0)
    else none
  | _ => none

/-- The base that a mark behind a zero stands for. -/
def base? (mark : Char) : Option Nat :=
  match mark.toLower with
  | 'x' => some 16
  | 'o' => some 8
  | 'b' => some 2
  | _ => none

def natural? (t : Text) : Option Nat :=
  match t with
  | '0' :: mark :: ds =>
    match base? mark with
    | some base => digitsIn? base ds
    | none => if (mark :: ds).all (· = '0') then some 0 else none
  | _ => digitsIn? 10 t

def whole? (t : Text) : Option Int :=
  match trim t with
  | '-' :: ds => (natural? ds).map fun n => -(n : Int)
  | '+' :: ds => (natural? ds).map fun n => (n : Int)
  | ds => (natural? ds).map fun n => (n : Int)

/-- Fractions and powers are told apart by their marks. -/
def checkWhole (t : Text) : Except Cause Unit :=
  if t.contains '.' || !t.contains 'x' && (t.contains 'e' || t.contains 'E') then
    if (t.dropWhile (· ≠ '.')) = ['.'] then .error .noFraction
    else if t.head?.all Char.isDigit then .error .notKept
    else .error .noLeadingDigit
  else if [['i', 'n', 'f'], ['n', 'a', 'n']].contains (lower t) then .error .notKept
  else .ok ()

def readNumber (wellFormed : Bool) (t : Text) : Except Cause Int := do
  if !wellFormed then .error .illFormedNumber
  let negative := t.head? = some '-'
  let digits := (if t.head?.any isSign then t.drop 1 else t).filter (· ≠ '_')
  checkWhole digits
  match whole? digits with
  | some n => return if negative then -n else n
  | none => .error (.notWhole digits)

end CommentToggle.Toml
