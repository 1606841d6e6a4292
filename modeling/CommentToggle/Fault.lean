import CommentToggle.Text.Basic

/-!
Why a text cannot be read or toggled. Every fault is found before anything is
changed. Line numbers are kept from zero and written from one.
-/
namespace CommentToggle

/-- What is wrong with a line that carries the directive marker. -/
inductive Malformation
  | missingCloser (closer : Text)
  | missingKind
  | unknownKind (word : Text)
  | trailingText (word : Text)
  | missingName (keyword : Text)
  | invalidName (word : Text)
  | invalidTerm (word : Text)
  | missingAnd (word : Text)
  | danglingAnd
  | nothingToEnd
  | nothingToTag
  deriving DecidableEq, Repr

inductive Fault
  | unsupportedStyle (source : Option Text)
  | malformed (line : Nat) (reason : Malformation)
  | neverClosed (group : Text) (line : Nat)
  | notOpen (group : Text) (line : Nat)
  | duplicate (group : Text) (line : Nat)
  | noOwnLine (group : Text) (line : Nat)
  | unknownGroup (requested : Text) (available : List Text)
  | conflicting (groups : List Text)
  | reserved (line : Nat)
  | tooFewLayers (line : Nat) (wanted : Nat)
  | noLeader (style : Text)
  deriving DecidableEq, Repr

def marker : Text := "smc:".toList

def keywords : List Text := ["begin".toList, "flag".toList, "end".toList, "line".toList]

namespace Malformation

open Text

def message : Malformation → String
  | missingCloser q => "missing closing '" ++ toStr q ++ "'"
  | missingKind => "expected a directive kind right after '" ++ toStr marker ++ "'"
  | unknownKind w => "unknown directive '" ++ toStr w ++ "' (expected one of: " ++
      toStr (joinWith ", ".toList keywords) ++ ")"
  | trailingText w => "unexpected text after group name: '" ++ toStr w ++ "'"
  | missingName k => "'" ++ toStr k ++ "' needs a group name"
  | invalidName w => "invalid group name '" ++ toStr w ++ "'"
  | invalidTerm w => "invalid group name '" ++ toStr w ++ "' in condition"
  | missingAnd w => "expected '&&' between condition terms, got '" ++ toStr w ++ "'"
  | danglingAnd => "condition ends with '&&'"
  | nothingToEnd => "'end' without an open group"
  | nothingToTag => "'line' must be followed by a content line"

end Malformation

namespace Fault

open Text

private def atLine (line : Nat) (text : String) : String := s!"line {line + 1}: " ++ text

private def quoted (t : Text) : String := "'" ++ toStr t ++ "'"

private def listed (ts : List Text) : String := toStr (joinWith ", ".toList ts)

def message : Fault → String
  | unsupportedStyle none => "no comment syntax given; pass --syntax or --comment"
  | unsupportedStyle (some s) =>
      if s.isEmpty then "no comment syntax given; pass --syntax or --comment"
      else "no comment syntax known for " ++ quoted s ++ "; pass --syntax or --comment"
  | malformed line reason => atLine line ("malformed directive: " ++ reason.message)
  | neverClosed g line => atLine line ("group " ++ quoted g ++ " is opened but never closed")
  | notOpen g line => atLine line ("closing group " ++ quoted g ++ " that is not open")
  | duplicate g line => atLine line ("group " ++ quoted g ++ " already defined in this scope")
  | noOwnLine g line => atLine line
      ("group " ++ quoted g ++ " needs at least one line of its own besides its nested groups")
  | unknownGroup g available => "unknown group " ++ quoted g ++ " (available: " ++
      (if available.isEmpty then "none" else listed available) ++ ")"
  | conflicting gs =>
      "groups are mutually exclusive and cannot be enabled together: " ++ listed gs
  | reserved line => atLine line
      ("cannot comment out a line starting with " ++ quoted marker)
  | tooFewLayers line wanted =>
      s!"line {line + 1} has fewer than {wanted} comment layer(s)"
  | noLeader style => "Comment syntax " ++ quoted style ++ " needs a non-empty prefix."

end Fault

end CommentToggle
