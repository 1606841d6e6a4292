import CommentToggle.Directive

/-!
A block is the range of lines owned by one group, without the directive lines
around it. Blocks refer to each other by their position in the order of their
openings, so a parent comes before its children.
-/
namespace CommentToggle

structure Block where
  index : Nat
  group : Text
  first : Nat
  /-- Smaller than `first` when the block has no lines. -/
  last : Nat
  openedAt : Nat
  parent : Option Nat
  exclusive : Bool
  children : List Nat
  condition : List Term
  deriving DecidableEq, Repr

namespace Block

def contains (b : Block) (line : Nat) : Bool := b.first ≤ line && line ≤ b.last

def isConditional (b : Block) : Bool := !b.condition.isEmpty

/-- Names by which the block can be asked for. -/
def names (b : Block) : List Text :=
  if b.isConditional then b.condition.map Term.name else [b.group]

/-- Whether `line` lies in the range of one of the children. -/
def nests (b : Block) (blocks : List Block) (line : Nat) : Bool :=
  b.children.any fun i => (blocks[i]?).any (·.contains line)

/-- The lines with text of their own in the block's range. -/
def ownText (b : Block) (ls : List Line) : List Line :=
  ls.filter fun l => b.contains l.index && l.isOwnText

end Block

/-- Sibling blocks of which a toggle selects. All exclusive blocks of a scope form
one set; a flag is a set by itself. -/
structure GroupSet where
  parent : Option Nat
  exclusive : Bool
  members : List Nat
  deriving DecidableEq, Repr

namespace GroupSet

def accepts (g : GroupSet) (b : Block) : Bool :=
  g.exclusive && b.exclusive && g.parent = b.parent

def insert (sets : List GroupSet) (b : Block) : List GroupSet :=
  if sets.any (·.accepts b) then
    sets.map fun g => if g.accepts b then { g with members := g.members ++ [b.index] } else g
  else sets ++ [⟨b.parent, b.exclusive, [b.index]⟩]

/-- In the order of their first members. -/
def ofBlocks (blocks : List Block) : List GroupSet := blocks.foldl insert []

end GroupSet

end CommentToggle
