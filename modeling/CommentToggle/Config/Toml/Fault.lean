import CommentToggle.Text.Quoted

/-!
What is wrong with a configuration document. Most causes are reported together with
a place: line and column from one, character from zero. The others stop the run.
-/
namespace CommentToggle.Toml

open Text

inductive Cause
  | keyCharacter (c : Char)
  | keyAtLineEnd
  | keyAtFileEnd
  | emptyKey
  | lineBreakInText
  | openText
  | loneBracket
  | headerNotAlone
  | badGroup (name : Text)
  | openGroup (name : Text)
  | emptyGroup
  | takenGroup (name owner : Text)
  | duplicateKey
  | emptyValue
  | capitalTruth
  | afterText
  | badEscape
  | badPoint (digits : Text)
  | noScalar (digits : Text)
  | pointTooLarge
  | badNumber
  | illFormedNumber
  | noFraction
  | noLeadingDigit
  | notWhole (t : Text)
  | mixedList
  | notKept
  | pointBeyondWord
  | listTooShort
  | textTooShort
  | textHasNoEntries
  | textNotLookedUp
  | listNotLookedUp
  | noMembers (kind : String)
  | noEntries (kind : String)
  /-- Any further cause, in words of its own. -/
  | other (words : String) (reported : Bool)
  deriving DecidableEq, Repr

namespace Cause

def text : Cause → String
  | keyCharacter c =>
      "Found invalid character in key name: '" ++ toStr [c] ++ "'. Try quoting the key name."
  | keyAtLineEnd => "Key name found without value. Reached end of line."
  | keyAtFileEnd => "Key name found without value. Reached end of file."
  | emptyKey => "Found empty keyname. "
  | lineBreakInText => "Unbalanced quotes"
  | openText => "Unterminated string found. Reached end of file."
  | loneBracket => "Opening key group bracket on line by itself."
  | headerNotAlone => "Key group not on a line by itself."
  | badGroup name => "Invalid group name '" ++ toStr name ++ "'. Try quoting it."
  | openGroup name => "Invalid group name '" ++ toStr name ++ "' Something went wrong."
  | emptyGroup => "Can't have a keygroup with an empty name"
  | takenGroup name owner => "What? " ++ toStr name ++ " already exists?" ++ toStr owner
  | duplicateKey => "Duplicate keys!"
  | emptyValue => "Empty value is invalid"
  | capitalTruth => "Only all lowercase booleans allowed"
  | afterText => "Found tokens after a closed string. Invalid TOML."
  | badEscape => "Reserved escape sequence used"
  | badPoint digits => "Invalid escape sequence: " ++ toStr digits
  | noScalar digits =>
      "Invalid escape sequence: " ++ toStr digits ++ ". Only scalar unicode points are allowed."
  | pointTooLarge => "chr() arg not in range(0x110000)"
  | badNumber => "Invalid date or number"
  | illFormedNumber => "Weirdness with leading zeroes or underscores in your number."
  | noFraction => "This float is missing digits after the point"
  | noLeadingDigit => "This float doesn't have a leading digit"
  | notWhole t => "invalid literal for int() with base 0: " ++ toStr t.quoted
  | mixedList => "Not a homogeneous array"
  | notKept => "Only tables, texts, whole numbers, truth values and lists are kept."
  | pointBeyondWord => "Python int too large to convert to C int"
  | listTooShort => "list index out of range"
  | textTooShort => "string index out of range"
  | textHasNoEntries => "'str' object does not support item assignment"
  | textNotLookedUp => "string indices must be integers, not 'str'"
  | listNotLookedUp => "list indices must be integers or slices, not str"
  | noMembers kind => "argument of type '" ++ kind ++ "' is not iterable"
  | noEntries kind => "'" ++ kind ++ "' object is not subscriptable"
  | other words _ => words

/-- Whether the cause is reported with a place, and the document then left aside. -/
def isReported : Cause → Bool
  | pointBeyondWord | listTooShort | textTooShort => false
  | textHasNoEntries | textNotLookedUp | listNotLookedUp => false
  | noMembers _ | noEntries _ => false
  | other _ reported => reported
  | _ => true

end Cause

structure Fault where
  cause : Cause
  line : Nat
  column : Nat
  position : Nat
  deriving DecidableEq, Repr

/-- A cause at a position of a document. -/
def Fault.at (document : Text) (cause : Cause) (position : Nat) : Fault :=
  let read := document.take position
  ⟨cause, read.count '\n' + 1, (read.reverse.takeWhile (· ≠ '\n')).length + 1, position⟩

def Fault.message (f : Fault) : String :=
  if f.cause.isReported then
    f.cause.text ++ s!" (line {f.line} column {f.column} char {f.position})"
  else f.cause.text

end CommentToggle.Toml
