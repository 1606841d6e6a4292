import CommentToggle.Directive

/-!
Reading one line as a directive. A line is a directive as soon as the marker
follows its leader, with at most one space between them; from there on every
departure from the grammar is reported. A style with a closer requires it at the
end of the line.
-/
namespace CommentToggle.Directive

def isNameStart (c : Char) : Bool := c.isAlphanum || c = '_'

def isNameRest (c : Char) : Bool := isNameStart c || c = '.' || c = '+' || c = '-'

def isName : Text → Bool
  | [] => false
  | c :: rest => isNameStart c && rest.all isNameRest

/-- The text after the marker, with a mark for the space before it. -/
def marked? (s : Style) (content : Text) : Option (Bool × Text) :=
  (s.uncover? content).bind fun (spaced, rest) =>
    (marker.isPrefixOf? rest).map (spaced, ·)

def withoutCloser : Option Text → Text → Except Malformation Text
  | none, body => .ok body
  | some q, body =>
    match Style.cutCloser? q (Text.trimEnd body) with
    | some inner => .ok inner
    | none => .error (.missingCloser q)

def readTerm (word : Text) : Except Malformation Term :=
  let term : Term := match word with
    | '!' :: name => ⟨name, true⟩
    | name => ⟨name, false⟩
  if isName term.name then .ok term else .error (.invalidTerm term.name)

def readTerms : List Text → Except Malformation (List Term)
  | [] => .error .danglingAnd
  | [word] => return [← readTerm word]
  | word :: joint :: rest => do
    let term ← readTerm word
    if joint = "&&".toList then return term :: (← readTerms rest)
    else .error (.missingAnd joint)

/-- The arguments form a condition when there are several or the first is negated. -/
def isCondition (k : Keyword) : List Text → Bool
  | [] => false
  | [word] => k.takesCondition && word.head? = some '!'
  | _ :: _ :: _ => k.takesCondition

def readName (k : Keyword) : List Text → Except Malformation Text
  | _ :: word :: _ => .error (.trailingText word)
  | [] => if k = .endGroup then .ok [] else .error (.missingName k.text)
  | [word] => if isName word then .ok word else .error (.invalidName word)

def readArguments (k : Keyword) (words : List Text) : Except Malformation (Text × List Term) :=
  if isCondition k words then do
    let condition ← readTerms words
    return (Term.joined condition, condition)
  else do
    return (← readName k words, [])

/-- The keyword must follow the marker at once. -/
def readKeyword (body : Text) : Except Malformation (Keyword × List Text) :=
  if body.head?.all Text.isBlank then .error .missingKind
  else match Text.words body with
    | [] => .error .missingKind
    | word :: rest =>
      match Keyword.ofText? word with
      | some k => .ok (k, rest)
      | none => .error (.unknownKind word)

/-- Reads what follows the marker on the given line. -/
def readBody (s : Style) (line : Nat) (spaced : Bool) (rest : Text) :
    Except Malformation Directive := do
  let body ← withoutCloser s.closer rest
  let (k, words) ← readKeyword body
  let (group, condition) ← readArguments k words
  return ⟨k.kind, group, line, k.isExclusive, spaced, condition⟩

def ofLine? (s : Style) (l : Line) : Except Fault (Option Directive) :=
  match marked? s l.content with
  | none => .ok none
  | some (spaced, rest) =>
    match readBody s l.index spaced rest with
    | .ok d => .ok (some d)
    | .error reason => .error (.malformed l.index reason)

end CommentToggle.Directive
