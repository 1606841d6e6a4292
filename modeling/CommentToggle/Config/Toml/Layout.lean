import CommentToggle.Config.Toml.Fault
import CommentToggle.Text.LetterTable

/-!
The lines of a configuration document. It is gone through once, character by
character. Remarks become blanks, and so do the line breaks inside brackets, so that
afterwards every statement stands on a line of its own and every character is where
it was. On the way the keys are checked.
-/
namespace CommentToggle.Toml

open Text

/-- Whether an odd number of backslashes comes first. -/
def isEscaped (t : Text) : Bool := (t.takeWhile (· = '\\')).length % 2 = 1

/-- Where the reading is with respect to a key. -/
inductive KeyStage
  | outside
  | inName
  | pastName
  deriving DecidableEq, Repr

structure Layout where
  /-- What was gone through, as it will be read, last character first. -/
  done : Text
  /-- Opening brackets without closing ones outside of headers. -/
  brackets : Int
  /-- The quote in which a text is open. -/
  quote : Option Char
  /-- Whether a text in threefold quotes is open. -/
  long : Bool
  inHeader : Bool
  /-- Nothing but blanks was on the line so far. -/
  fresh : Bool
  inRemark : Bool
  key : KeyStage
  dotted : Bool

namespace Layout

def start : Layout := ⟨[], 0, none, false, false, true, false, .outside, false⟩

def push (l : Layout) (c : Char) : Layout := { l with done := c :: l.done }

def isNameChar (c : Char) : Bool := isLetterOrNumeral c || c = '_' || c = '-'

/-- Whether a name goes on after a dot or a blank. -/
def goesOn : Option Char → Bool
  | some c => !isBlank c && c ≠ '.'
  | none => false

/-- Inside the quotes of a key. -/
def keyQuoted (l : Layout) (q c : Char) : Layout :=
  if c = q && !isEscaped l.done then { l with key := .pastName, quote := none } else l

/-- The next character of a key; none where the key has ended. -/
def keyChar? (l : Layout) (c : Char) (next : Option Char) : Option Layout :=
  match l.key with
  | .outside => none
  | .inName =>
    if isBlank c then some { l with key := .pastName }
    else if c = '.' then some { l with dotted := true }
    else if isNameChar c then some l
    else if l.dotted && l.done.head? = some '.' && (c = '"' || c = '\'') then
      some { l with quote := some c }
    else none
  | .pastName =>
    let back := if goesOn next then .inName else l.key
    if isBlank c then some (if l.dotted then { l with key := back } else l)
    else if c = '.' then some { l with dotted := true, key := back }
    else none

/-- A quote outside of keys opens a text or closes it, unless it is escaped or stands
in a text in the other quotes. The third in a row is for a text in threefold quotes. -/
def quoteMark (l : Layout) (q : Char) : Layout :=
  if l.quote.any (· ≠ q) then l
  else
    let before := (l.done.take 2).takeWhile (· = q)
    let escaped := q = '"' && before.length ≠ 1 && isEscaped (l.done.drop before.length)
    if escaped then l
    else if before.length = 2 then
      { l with long := !l.long, quote := if l.long then none else some q }
    else { l with quote := if l.quote.isSome then none else some q }

def bracket (l : Layout) (c : Char) : Layout :=
  if l.quote.isSome then l
  else if c = '[' then
    if l.inHeader then l
    else if l.fresh then { l with inHeader := true }
    else { l with brackets := l.brackets + 1 }
  else if l.inHeader then { l with inHeader := false }
  else { l with brackets := l.brackets - 1 }

def lineBreak (l : Layout) : Except Cause Layout :=
  if l.long then .error .notKept
  else if l.quote.isSome then .error .lineBreakInText
  else if l.brackets ≠ 0 then .ok (l.push ' ')
  else .ok ({ l with fresh := true }.push '\n')

/-- What comes first on a line begins a header or a key. -/
def begin? (l : Layout) (c : Char) : Except Cause Layout :=
  if !l.fresh || c = ' ' || c = '\t' then .ok (l.push c)
  else if l.inHeader then .ok ({ l with fresh := false }.push c)
  else if c = '=' then .error .emptyKey
  else .ok ({ l with fresh := false, key := .inName }.push c)

/-- A character that belongs to no key. -/
def place (l : Layout) (c : Char) (next : Option Char) : Except Cause Layout :=
  match c with
  | '\n' => l.lineBreak
  | '#' =>
    if l.quote.isNone && !l.inHeader then .ok ({ l with inRemark := true }.push ' ')
    else l.begin? c
  | '[' =>
    if l.quote.isNone && !l.inHeader && l.fresh && next = some '[' then .error .notKept
    else (l.bracket c).begin? c
  | ']' => (l.bracket c).begin? c
  | '"' => (l.quoteMark c).begin? c
  | '\'' => (l.quoteMark c).begin? c
  | _ => l.begin? c

def step (l : Layout) (c : Char) (next : Option Char) : Except Cause Layout :=
  if l.inRemark && c ≠ '\n' then .ok (l.push ' ')
  else
    let l := { l with inRemark := false }
    if l.key = .outside then l.place c next
    else if c = '\n' then .error .keyAtLineEnd
    else match l.quote with
      | some q => .ok ((l.keyQuoted q c).push c)
      | none => match l.keyChar? c next with
        | some kept => .ok (kept.push c)
        | none =>
          if c = '=' then { l with key := .outside, dotted := false }.place c next
          else .error (.keyCharacter c)

def finish (l : Layout) : Except Cause Text :=
  if l.key ≠ .outside then .error .keyAtFileEnd
  else if l.quote.isSome then .error .openText
  else .ok l.done.reverse

/-- Goes on from a position; a cause comes with the position where it arose. -/
def run (l : Layout) (position : Nat) : Text → Except (Cause × Nat) Text
  | [] => l.finish.mapError (·, position)
  | c :: rest =>
    match l.step c rest.head? with
    | .ok next => run next (position + 1) rest
    | .error cause => .error (cause, position)

end Layout

/-- The document with every statement on one line. -/
def layOut (document : Text) : Except (Cause × Nat) Text := Layout.start.run 0 document

end CommentToggle.Toml
