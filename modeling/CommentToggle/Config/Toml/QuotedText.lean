import CommentToggle.Config.Toml.Layout
import CommentToggle.Text.Case

/-!
Texts in quotes. Between double quotes a backslash begins an escape: one character,
or a code point in four or eight hexadecimal digits. Code points are put in first,
and what they bring in may take part in other escapes.
-/
namespace CommentToggle.Toml

open Text

/-- Goes through the pieces between the quotes. Nothing but empty pieces may follow
where the text has closed; behind an escaped quote it has not. -/
def closing (long closed : Bool) (empty : Nat) : List Text → Except Cause Unit
  | [] => .ok ()
  | [] :: more =>
    if long then closing long closed (empty + 1) more else closing long true empty more
  | piece :: more =>
    if isEscaped piece.reverse then closing long closed empty more
    else if closed then .error .afterText
    else if !long || 1 < empty then closing long true empty more
    else closing long closed 0 more

def checkClosing (quote : Char) (afterQuote : Text) : Except Cause Unit :=
  match splitAtChar quote afterQuote with
  | [] :: [] :: more => closing true false 0 more
  | pieces => closing false false 0 pieces

def escape? (c : Char) : Option Char :=
  match c with
  | '0' => some '\x00'
  | 'b' => some '\x08'
  | 'f' => some '\x0c'
  | 'n' => some '\n'
  | 'r' => some '\r'
  | 't' => some '\t'
  | '"' => some '"'
  | _ => none

def beginsPoint (c : Char) : Bool := c = 'u' || c = 'U'

/-- Goes through the pieces between backslashes; `pair` tells that the backslash in
front of a piece is itself escaped. -/
def checkEscapes (pair : Bool) : List Text → Except Cause Unit
  | [] => .ok ()
  | [] :: more => checkEscapes (!pair) more
  | (c :: _) :: more =>
    if (escape? c).isSome || beginsPoint c || pair then checkEscapes false more
    else .error .badEscape

/-- Splits at each backslash that is followed by the mark. -/
def splitAtMark (mark : Char) : Text → List Text
  | [] => [[]]
  | [c] => [[c]]
  | c :: d :: rest =>
    if c = '\\' && d = mark then [] :: splitAtMark mark rest
    else match splitAtMark mark (d :: rest) with
      | [] => [[c]]
      | first :: more => (c :: first) :: more

def point (digits : Text) : Except Cause Char :=
  match digits.mapM hexValue?, digits with
  | none, _ => .error (.badPoint digits)
  | _, [] => .error .textTooShort
  | some values, first :: rest =>
    let n := values.foldl (fun acc d => acc * 16 + d) 0
    let surrogate := first = 'd' && rest.head?.any fun d => !('0' ≤ d && d ≤ '7')
    if surrogate then .error (.noScalar digits)
    else if n < 0xd800 || (0xe000 ≤ n && n < 0x110000) then .ok (Char.ofNat n)
    else if n < 0xe000 then .error (.noScalar digits)
    else if n < 0x80000000 then .error .pointTooLarge
    else .error .pointBeyondWord

/-- Puts the pieces behind marks together again, with the code points that they begin
with. A mark behind an escaped backslash is left as it is. -/
def expandPoints (mark : Char) (width : Nat) (escaped : Bool) : List Text → Except Cause Text
  | [] => .ok []
  | piece :: more =>
    if escaped then do
      let rest ← expandPoints mark width (isEscaped piece.reverse) more
      return '\\' :: mark :: piece ++ rest
    else do
      let digits := lower (piece.take width)
      let c ← point digits
      let rest ← expandPoints mark width false more
      return c :: piece.drop digits.length ++ rest

def expand (mark : Char) (width : Nat) (t : Text) : Except Cause Text :=
  match splitAtMark mark t with
  | [] => .ok t
  | first :: more => (expandPoints mark width (isEscaped first.reverse) more).map (first ++ ·)

def unescape : Text → Except Cause Text
  | [] => .ok []
  | [c] => .ok [c]
  | c :: d :: rest =>
    if c = '\\' then
      match escape? d with
      | some e => (unescape rest).map (e :: ·)
      | none =>
        if d = '\\' then (unescape rest).map (d :: ·)
        else if beginsPoint d then (unescape rest).map fun t => c :: d :: t
        else .error .badEscape
    else (unescape (d :: rest)).map (c :: ·)

/-- The text without its first and last characters. -/
def inner (t : Text) : Text := (t.drop 1).dropLast

/-- Takes the quotes off, single or threefold. -/
def unquote (quote : Char) (t : Text) : Text :=
  match t with
  | _ :: b :: rest =>
    if b = quote && rest.head?.all (· = b) then inner (inner (inner t)) else inner t
  | _ => inner t

def readText (quote : Char) (t : Text) : Except Cause Text := do
  checkClosing quote (t.drop 1)
  if quote = '"' then
    checkEscapes false ((splitAtChar '\\' t).drop 1)
    let points ← expand 'U' 8 (← expand 'u' 4 t)
    return unquote quote (← unescape points)
  else return unquote quote t

end CommentToggle.Toml
