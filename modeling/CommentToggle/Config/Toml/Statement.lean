import CommentToggle.Config.Toml.Item

/-!
The two kinds of statement. A header names a table by the path of its groups, in square
brackets; an assignment gives a value to a key, which may be a path as well.
-/
namespace CommentToggle.Toml

open Text

/-- Cuts where quotes open and close; every second piece is one in quotes. -/
def segments (quote : Option Char) : Text → List Text
  | [] => [[]]
  | c :: rest =>
    let turns := match quote with
      | none => c = '"' || c = '\''
      | some q => c = q
    if turns then [] :: segments (if quote.isSome then none else some c) rest
    else match segments quote rest with
      | [] => [[c]]
      | t :: ts => (c :: t) :: ts

/-- How many separators stand in quotes before the first that does not. -/
def quotedBefore (separator : Char) (inQuotes : Bool) : List Text → Nat
  | [] => 0
  | t :: ts =>
    if !inQuotes && t.contains separator then 0
    else t.count separator + quotedBefore separator (!inQuotes) ts

/-- Cuts at the separator that `n` others precede, at the last one if there are fewer. -/
def cutAfter (separator : Char) (n : Nat) (t : Text) : Option (Text × Text) :=
  match splitAtChar separator t with
  | [] => none
  | [_] => none
  | pieces =>
    let first := pieces.dropLast.take (n + 1)
    some (joinWith [separator] first, joinWith [separator] (pieces.drop first.length))

/-! Headers -/

def isGroupChar (c : Char) : Bool := c.isAlphanum || c = '_' || c = '-'

def isQuote (c : Char) : Bool := c = '"' || c = '\''

def isClosed (t : Text) : Bool := 1 < t.length && t.head? = t.getLast?

/-- The names of groups; one in quotes may hold dots, and goes on over the pieces that
they cut until its quote closes it. `begun` holds the beginning of such a name. -/
def groupNames (begun : Option Text) : List Text → Except Cause (List Text)
  | [] => match begun with
    | some t => .error (.openGroup (trim t))
    | none => .ok []
  | piece :: rest =>
    let t := match begun with
      | some before => before ++ '.' :: piece
      | none => trim piece
    if t.head?.any isQuote then
      if isClosed (trim t) then (groupNames none rest).map (inner (trim t) :: ·)
      else groupNames (some t) rest
    else if t.isEmpty || !t.all isGroupChar then .error (.badGroup t)
    else (groupNames none rest).map (t :: ·)

/-- The path that a header names, from what follows its opening bracket. -/
def readHeader (t : Text) : Except Cause (List Text) :=
  match t with
  | [] => .error .loneBracket
  | '[' :: _ => .error .notKept
  | _ =>
    let skipped := quotedBefore ']' false (segments none t)
    if t.count ']' < skipped + 1 then .error .headerNotAlone
    else match cutAfter ']' skipped t with
      | some (names, rest) =>
        if (trim rest).isEmpty then groupNames none (splitAtChar '.' names)
        else .error .headerNotAlone
      | none => .error .headerNotAlone

/-! Assignments -/

/-- A key, the path to its table, and the value as it is written. -/
structure KeyValue where
  path : List Text
  key : Text
  written : Text
  /-- Whether a number may stand for what is written. -/
  wellFormed : Bool

def KeyValue.value (a : KeyValue) : Except Cause Value :=
  readValue a.wellFormed (a.written.length + 1) a.written

/-- A key without its quotes, or the path that dots make of it. -/
def readKey (t : Text) : List Text × Text :=
  if t.contains '.' then
    let levels := (segments none t).zipIdx.flatMap fun (piece, i) =>
      if i % 2 = 1 then [piece] else (splitAtChar '.' piece).map trim
    let named := levels.filter (!·.isEmpty)
    (named.dropLast, trim (named.getLast?.getD []))
  else
    let closed := t.head?.any isQuote && t.head? = t.getLast?
    ([], if closed then inner t else t)

/-- Whether the text can only be a number that is written out. -/
def isNumeral (t : Text) : Bool :=
  let digits := if t.head?.any isSign then t.drop 1 else t
  digits.head?.any Char.isDigit && digits.getLast?.any Char.isDigit && !hasPair '_' '_' digits &&
    digits.all fun c => c.isDigit || c = '_'

/-- Whether a value begins here, as far as its first character tells. -/
def beginsValue (t : Text) : Bool :=
  match t with
  | [] => true
  | c :: _ =>
    [' ', '\t', '\'', '"', '[', '\x7b'].contains c || trim t = "true".toList ||
      trim t = "false".toList

/-- Moves the sign of equality on until a value begins behind it. -/
def findValue (wellFormed : Bool) (before after : Text) : Nat → Except Cause (Text × Text × Bool)
  | 0 => .error .badNumber
  | n + 1 =>
    if beginsValue after || isNumeral after then .ok (before, after, wellFormed)
    else match cutAfter '=' 0 after with
      | none => .error .badNumber
      | some (more, rest) =>
        findValue (wellFormed && isWellFormed rest) (before ++ '=' :: more) rest n

/-- A number right behind the sign of equality is read without its underscores. -/
def withoutUnderscores (t : Text) : Text :=
  if t.head?.any Char.isDigit then t.filter (· ≠ '_') else t

def readAssignment (line : Text) : Except Cause KeyValue := do
  let skipped := quotedBefore '=' false (segments none line)
  match cutAfter '=' skipped line with
  | none => .error .badNumber
  | some (before, after) =>
    let plain := withoutUnderscores after
    let (keyText, valueText, wellFormed) ←
      if isNumeral plain then .ok (before, plain, isWellFormed after)
      else findValue (isWellFormed after) before after (after.length + 1)
    let (path, key) := readKey (trim keyText)
    return ⟨path, key, trim valueText, wellFormed⟩

end CommentToggle.Toml
