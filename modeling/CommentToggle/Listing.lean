import CommentToggle.Document.States

/-!
The groups of a document as shown to the user: one row per block in file order,
indented below the group it is nested in.
-/
namespace CommentToggle

structure GroupInfo where
  group : Text
  kind : Text
  /-- Line of the opening directive, counted from one. -/
  line : Nat
  parent : Option Text
  /-- Own state. -/
  active : Bool
  /-- Neither the block nor one around it is inactive. -/
  effective : Bool
  deriving DecidableEq, Repr

namespace Document

def kindOf (b : Block) : Text :=
  if b.isConditional then "condition".toList
  else if b.exclusive then "exclusive".toList
  else "flag".toList

def describe (d : Document) : List GroupInfo :=
  let states := d.states
  let on (i : Nat) : Bool := (states[i]?).getD true
  d.blocks.map fun b =>
    { group := b.group
      kind := kindOf b
      line := b.openedAt + 1
      parent := b.parent.bind fun i => (d.blocks[i]?).map (·.group)
      active := on b.index
      effective := on b.index && (d.ancestors b).all on }

end Document

namespace Listing

open Text

/-- The parent of the first group with that name. -/
def parentOf (gs : List GroupInfo) (name : Text) : Option Text :=
  (gs.find? (·.group = name)).bind (·.parent)

/-- The number of steps from a parent name outwards by names, if it ends within the
given number. -/
def depthWithin? (gs : List GroupInfo) : Nat → Option Text → Option Nat
  | _, none => some 0
  | 0, some _ => none
  | n + 1, some name => (depthWithin? gs n (parentOf gs name)).map (· + 1)

/-- How deep a group is nested by names. A walk longer than one step beyond the list
meets a name twice and never ends. -/
def depth? (gs : List GroupInfo) (g : GroupInfo) : Option Nat :=
  depthWithin? gs (gs.length + 1) g.parent

def stateText (g : GroupInfo) : Text :=
  if g.effective then "active".toList
  else if g.active then "inactive (enclosing group off)".toList
  else "inactive".toList

def row (depth : Nat) (g : GroupInfo) : Text :=
  List.replicate (2 * depth) ' ' ++ padTo 20 g.group ++ [' '] ++ padTo 10 g.kind ++
    " line ".toList ++ padTo 6 (toString g.line).toList ++ [' '] ++ stateText g

def table (gs : List GroupInfo) : Text :=
  joinWith ['\n'] (gs.map fun g => row ((depth? gs g).getD 0) g)

end Listing

end CommentToggle
