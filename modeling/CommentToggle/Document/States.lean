import CommentToggle.Document
import CommentToggle.Layer

/-!
The own state of every block as the text shows it. A block is inactive when it
has text of its own and every such line in its range carries a layer; that layer
is then taken off before the blocks inside are read. Parents come first, so the
layers come off from the outside in.
-/
namespace CommentToggle.Document

/-- Each line with what is left of its content. -/
abbrev Peeled := List (Line × Text)

def owns (b : Block) (entry : Line × Text) : Bool :=
  b.contains entry.1.index && entry.1.isOwnText

def readsInactive (s : Style) (b : Block) (p : Peeled) : Bool :=
  let own := p.filter (owns b)
  !own.isEmpty && own.all fun entry => (Layer.strip? s entry.2).isSome

def peel (s : Style) (b : Block) (p : Peeled) : Peeled :=
  p.map fun entry =>
    if owns b entry then (entry.1, (Layer.strip? s entry.2).getD entry.2) else entry

/-- The states of the blocks that follow, read from the peeled lines. -/
def statesFrom (s : Style) (p : Peeled) : List Block → List Bool
  | [] => []
  | b :: rest =>
    if readsInactive s b p then false :: statesFrom s (peel s b p) rest
    else true :: statesFrom s p rest

/-- True for an active block. -/
def states (d : Document) : List Bool :=
  statesFrom d.style (d.lines.map fun l => (l, l.content)) d.blocks

theorem length_statesFrom (s : Style) (p : Peeled) (bs : List Block) :
    (statesFrom s p bs).length = bs.length := by
  induction bs generalizing p with
  | nil => rfl
  | cons b bs ih =>
    unfold statesFrom
    split <;> simp [ih]

theorem length_states (d : Document) : d.states.length = d.blocks.length :=
  length_statesFrom _ _ _

end CommentToggle.Document
