import CommentToggle.Block

/-!
Forming the blocks from the directives. Groups close in the reverse order of
their openings, siblings have different names, a tagging is followed by a line
that it can tag, and a block with nested blocks keeps a line of its own, without
which its state could not be told apart from theirs.
-/
namespace CommentToggle.Block

/-- The blocks formed so far and the positions of the open ones, innermost first. -/
structure Forming where
  blocks : List Block
  opened : List Nat
  deriving DecidableEq, Repr

namespace Forming

def start : Forming := ⟨[], []⟩

def parent (f : Forming) : Option Nat := f.opened.head?

def openBlocks (f : Forming) : List Block := f.opened.filterMap (f.blocks[·]?)

def hasSibling (f : Forming) (group : Text) : Bool :=
  f.blocks.any fun b => b.parent = f.parent && b.group = group

def adopt (blocks : List Block) (child : Nat) : Option Nat → List Block
  | none => blocks
  | some i => blocks.modify i fun b => { b with children := b.children ++ [child] }

/-- Adds a block in the innermost open scope. -/
def append (f : Forming) (d : Directive) (first last : Nat) : Except Fault Forming :=
  if f.hasSibling d.group then .error (.duplicate d.group d.line)
  else
    let index := f.blocks.length
    let block : Block :=
      ⟨index, d.group, first, last, d.line, f.parent, d.exclusive, [], d.condition⟩
    .ok { f with blocks := adopt (f.blocks ++ [block]) index f.parent }

def open? (f : Forming) (d : Directive) : Except Fault Forming := do
  let g ← f.append d (d.line + 1) d.line
  return { g with opened := f.blocks.length :: g.opened }

def close? (f : Forming) (d : Directive) : Except Fault Forming :=
  match f.opened, f.openBlocks with
  | i :: outer, top :: rest =>
    if top.group = d.group then
      .ok ⟨f.blocks.modify i fun b => { b with last := d.line - 1 }, outer⟩
    else if rest.any (·.group = d.group) then .error (.neverClosed top.group top.openedAt)
    else .error (.notOpen d.group d.line)
  | _, _ => .error (.notOpen d.group d.line)

def tag? (ls : List Line) (f : Forming) (d : Directive) : Except Fault Forming :=
  match ls[d.line + 1]? with
  | none => .error (.malformed d.line .nothingToTag)
  | some l =>
    if l.directive then .error (.malformed d.line .nothingToTag)
    else f.append d (d.line + 1) (d.line + 1)

def step (ls : List Line) (f : Forming) (d : Directive) : Except Fault Forming :=
  match d.kind with
  | .opening => f.open? d
  | .closing => f.close? d
  | .tagging => f.tag? ls d

end Forming

def hasOwnLine (ls : List Line) (blocks : List Block) (b : Block) : Bool :=
  b.children.isEmpty || (b.ownText ls).any fun l => !b.nests blocks l.index

/-- The blocks of a scanned document, whose directive lines are marked. -/
def resolve (ls : List Line) (ds : List Directive) : Except Fault (List Block) := do
  let f ← ds.foldlM (Forming.step ls) .start
  match f.openBlocks with
  | b :: _ => .error (.neverClosed b.group b.openedAt)
  | [] =>
    match f.blocks.find? (!hasOwnLine ls f.blocks ·) with
    | some b => .error (.noOwnLine b.group b.openedAt)
    | none => .ok f.blocks

end CommentToggle.Block
