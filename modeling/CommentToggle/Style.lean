import CommentToggle.Text.Basic

/-!
How lines are commented out in one kind of file. A style lists the leaders that
may start a comment; the first of them is the one written, all are recognised.
A style without line comments has a closer, which must then end the line.
-/
namespace CommentToggle

def Usable (leaders : List Text) : Prop := leaders ≠ [] ∧ [] ∉ leaders

instance (leaders : List Text) : Decidable (Usable leaders) :=
  inferInstanceAs (Decidable (_ ∧ _))

structure Style where
  name : Text
  leaders : List Text
  closer : Option Text
  usable : Usable leaders

namespace Style

def ofParts? (name : Text) (leaders : List Text) (closer : Option Text) : Option Style :=
  if h : Usable leaders then some ⟨name, leaders, closer, h⟩ else none

/-- The leader that is written. -/
def primary (s : Style) : Text := s.leaders.head s.usable.1

def leader? (s : Style) (content : Text) : Option Text :=
  s.leaders.find? (·.isPrefixOf content)

/-- Takes one space off, and says whether there was one. -/
def dropSpace : Text → Bool × Text
  | ' ' :: rest => (true, rest)
  | t => (false, t)

/-- What follows the leader and at most one space, with a mark for the space. -/
def uncover? (s : Style) (content : Text) : Option (Bool × Text) :=
  (s.leader? content).map fun p => dropSpace (content.drop p.length)

/-- What stands before the closer at the end of `t`. An empty closer ends every text
and takes all of it. -/
def cutCloser? (closer t : Text) : Option Text :=
  if closer.isSuffixOf t then
    some (if closer.isEmpty then [] else t.take (t.length - closer.length))
  else none

def isComment (s : Style) (content : Text) : Bool :=
  (s.leader? content).isSome &&
    match s.closer with
    | none => true
    | some q => q.isSuffixOf (Text.trimEnd content)

theorem leader?_eq_some {s : Style} {content p : Text} (h : s.leader? content = some p) :
    p ∈ s.leaders ∧ ∃ rest, content = p ++ rest := by
  refine ⟨List.mem_of_find?_eq_some h, ?_⟩
  have hp := List.find?_some h
  obtain ⟨rest, hrest⟩ := List.isPrefixOf_iff_prefix.mp hp
  exact ⟨rest, hrest.symm⟩

theorem ne_nil_of_mem_leaders {s : Style} {p : Text} (h : p ∈ s.leaders) : p ≠ [] := by
  intro hp
  subst hp
  exact s.usable.2 h

theorem primary_mem (s : Style) : s.primary ∈ s.leaders := List.head_mem _

end Style

end CommentToggle
