import CommentToggle.Config.Defaults
import CommentToggle.Style.Entry
import CommentToggle.Text.Case

/-!
Which style a file is in. An explicit leader comes before all else, then a named
style, then the file's full name, its extension, and last the kind of source text
that the lexers know by that name. File contents are never looked at.
-/
namespace CommentToggle.Detect

open Text

/-- A kind of source text, by its name and other names for it. -/
structure Lexer where
  name : Text
  aliases : List Text
  deriving DecidableEq, Repr

structure Question where
  path : Option Text
  styleName : Option Text
  leader : Option Text
  closer : Option Text
  deriving DecidableEq, Repr

/-- An absent text and an empty one say the same. -/
def given (t : Option Text) : Option Text := t.filter (!·.isEmpty)

def listsName (key : Text) : Value → Bool
  | .list vs => vs.any fun v => lower v.display = key
  | _ => false

/-- The first style whose names include the key, whatever its case. -/
def lookupFormat (formats : Value) (key : Text) : Except ShapeFault (Option Text) := do
  let entries ← formats.asEntries
  return given ((entries.find? fun (_, names) => listsName (lower key) names).map (·.1))

def fromTable (comments : Value) (name : Text) : Logged Error (Option Style) := do
  let entries ← Logged.ofExcept (comments.asSection.mapError .shape)
  match Table.get? entries (lower name) with
  | some (.table entry) => Style.ofEntry? (lower name) entry
  | _ => return none

/-- The style to which a file name or an extension belongs. -/
def fromFormat (comments formats : Value) (key : Text) : Logged Error (Option Style) := do
  match ← Logged.ofExcept ((lookupFormat formats key).mapError .shape) with
  | some name => fromTable comments name
  | none => return none

def lexerNote (name rest : Text) : Logged Error Unit :=
  Logged.note .debug .style ("Pygments lexer '" ++ toStr name ++ "' " ++ toStr rest)

def fromKeys (comments : Value) (lexer file : Text) : List Text → Logged Error (Option Style)
  | [] => do
    lexerNote lexer ("for '".toList ++ file ++ "' has no comment entry.".toList)
    return none
  | key :: rest => do
    match ← fromTable comments key with
    | some s =>
      lexerNote lexer ("resolved '".toList ++ file ++ "' to '".toList ++ key ++ "'.".toList)
      return some s
    | none => fromKeys comments lexer file rest

def fromLexer (comments : Value) (lexers : Text → Option Lexer) (file : Text) :
    Logged Error (Option Style) :=
  match lexers file with
  | none => return none
  | some l => fromKeys comments l.name file (lower l.name :: l.aliases.map lower)

/-- What follows the last slash. -/
def baseName (path : Text) : Text := (path.reverse.takeWhile (· ≠ '/')).reverse

/-- What follows the last dot, if some other character than a dot comes before it. -/
def extension? (file : Text) : Option Text :=
  let tail := file.reverse.takeWhile (· ≠ '.')
  if (file.reverse.drop (tail.length + 1)).any (· ≠ '.') && tail.length < file.length then
    some tail.reverse
  else none

def byName (comments formats : Value) (name : Text) : Logged Error Style := do
  match ← fromTable comments name with
  | some s => return s
  | none =>
    match ← fromFormat comments formats (name.dropWhile (· = '.')) with
    | some s => return s
    | none => Logged.fail (.fault (.unsupportedStyle (some name)))

def byExtension (comments formats : Value) (file : Text) : Logged Error (Option Style) :=
  match extension? file with
  | none => return none
  | some ext => fromFormat comments formats ext

def byPath (comments formats : Value) (lexers : Text → Option Lexer) (path : Text) :
    Logged Error Style := do
  let file := baseName path
  match ← fromFormat comments formats file with
  | some s => return s
  | none =>
    match ← byExtension comments formats file with
    | some s => return s
    | none =>
      match ← fromLexer comments lexers file with
      | some s => return s
      | none => Logged.fail (.fault (.unsupportedStyle (some path)))

def byLeader (leader : Text) (closer : Option Text) : Logged Error Style := do
  Logged.note .debug .style ("Using explicit comment prefix " ++ toStr leader.quoted ++ ".")
  match Style.ofParts? "custom".toList [leader] closer with
  | some s => return s
  | none => Logged.fail (.fault (.noLeader "custom".toList))

def detect (config : Table) (lexers : Text → Option Lexer) (q : Question) : Logged Error Style :=
  let comments := (Table.get? config "comments".toList).getD (.table [])
  let formats := (Table.get? config "supported_formats".toList).getD (.table [])
  match given q.leader, given q.styleName, given q.path with
  | some leader, _, _ => byLeader leader (given q.closer)
  | none, some name, _ => byName comments formats name
  | none, none, some path =>
    if path = ['-'] then Logged.fail (.fault (.unsupportedStyle none))
    else byPath comments formats lexers path
  | none, none, none => Logged.fail (.fault (.unsupportedStyle none))

end CommentToggle.Detect
