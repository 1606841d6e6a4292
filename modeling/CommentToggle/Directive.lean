import CommentToggle.Fault
import CommentToggle.Line

/-!
A directive is a comment that opens or closes a group, or tags the next line.
It is written after the marker as a keyword followed by a group name or by a
condition, a list of names joined with double ampersands, each possibly negated.
-/
namespace CommentToggle

/-- One name of a condition, true when the group is off if `negated`. -/
structure Term where
  name : Text
  negated : Bool
  deriving DecidableEq, Repr

def Term.text (t : Term) : Text := if t.negated then '!' :: t.name else t.name

def Term.joined (ts : List Term) : Text := Text.joinWith " && ".toList (ts.map Term.text)

inductive DirectiveKind
  | opening
  | closing
  | tagging
  deriving DecidableEq, Repr

def DirectiveKind.word : DirectiveKind → String
  | .opening => "open"
  | .closing => "close"
  | .tagging => "toggle"

structure Directive where
  kind : DirectiveKind
  /-- Empty only for a closing that names no group; for a condition its written form. -/
  group : Text
  line : Nat
  /-- At most one of the exclusive blocks of a scope is chosen at a time. -/
  exclusive : Bool
  /-- Whether a space stands between the leader and the marker. -/
  spaced : Bool
  condition : List Term
  deriving DecidableEq, Repr

inductive Keyword
  | beginGroup
  | beginFlag
  | endGroup
  | nextLine
  deriving DecidableEq, Repr

namespace Keyword

def text : Keyword → Text
  | beginGroup => "begin".toList
  | beginFlag => "flag".toList
  | endGroup => "end".toList
  | nextLine => "line".toList

def all : List Keyword := [beginGroup, beginFlag, endGroup, nextLine]

def ofText? (t : Text) : Option Keyword := all.find? (·.text = t)

def kind : Keyword → DirectiveKind
  | beginGroup | beginFlag => .opening
  | endGroup => .closing
  | nextLine => .tagging

def isExclusive (k : Keyword) : Bool := k ≠ beginFlag

def takesCondition (k : Keyword) : Bool := k = beginFlag || k = endGroup

theorem ofText?_text (k : Keyword) : ofText? k.text = some k := by cases k <;> decide

theorem text_of_ofText? {t : Text} {k : Keyword} (h : ofText? t = some k) : k.text = t := by
  simpa using List.find?_some h

end Keyword

end CommentToggle
