import CommentToggle.Block.Resolve
import CommentToggle.Directive.Scan

/-!
Everything known about one text in one style: its lines, the directives on
them, and the blocks and group sets these form.
-/
namespace CommentToggle

structure Document where
  style : Style
  lines : List Line
  directives : List Directive
  blocks : List Block
  groupSets : List GroupSet

namespace Document

def read (s : Style) (t : Text) : Except Fault Document := do
  let plain := Line.ofText t
  let directives ← Directive.scan s plain
  let lines := Directive.mark directives plain
  let blocks ← Block.resolve lines directives
  return ⟨s, lines, directives, blocks, GroupSet.ofBlocks blocks⟩

/-- Whether new layers get spaces, as the first directive has it. -/
def spaced (d : Document) : Bool := d.directives.head?.all (·.spaced)

/-- The distinct names that a request may use, in order of appearance. -/
def groupNames (d : Document) : List Text := (d.blocks.flatMap Block.names).eraseDups

/-- The positions met when going from parent to parent, at most `n` of them. -/
def climb (blocks : List Block) : Nat → Option Nat → List Nat
  | 0, _ => []
  | _, none => []
  | n + 1, some i => i :: climb blocks n (blocks[i]?.bind (·.parent))

/-- The blocks around a block, innermost first. -/
def ancestors (d : Document) (b : Block) : List Nat := climb d.blocks d.blocks.length b.parent

/-- The blocks whose range holds the line, outermost first. -/
def containing (d : Document) (line : Nat) : List Block := d.blocks.filter (·.contains line)

def render (d : Document) (bodies : List Text) : Text := Line.render bodies d.lines

end Document

end CommentToggle
