import CommentToggle.Document

/-!
What a request makes of the blocks' states. In an exclusive set the member asked
for becomes the only active one; a flag follows the request by itself. A
conditional flag is active when all its decided terms hold, and keeps its state
when none is decided. A request names only groups of the document, none of them
twice with different intent, and at most one per exclusive set.
-/
namespace CommentToggle

structure Request where
  targets : List Text
  disabled : List Text
  /-- Flags not asked for go off. -/
  reset : Bool
  deriving DecidableEq, Repr

namespace Request

open Text

def check (r : Request) (names : List Text) : Except Fault Unit :=
  match (sortedDistinct (r.targets ++ r.disabled)).find? (!names.contains ·) with
  | some g => .error (.unknownGroup g (sortedDistinct names))
  | none =>
    match sortedDistinct (r.targets.filter r.disabled.contains) with
    | [] => .ok ()
    | both => .error (.conflicting both)

/-- The groups asked for among the members of a set. -/
def chosen (r : Request) (members : List Block) : List Text :=
  sortedDistinct ((members.map (·.group)).filter r.targets.contains)

def stateInSet (r : Request) (chosen : List Text) (b : Block) (state : Bool) : Bool :=
  if chosen.isEmpty then state && !r.disabled.contains b.group
  else chosen.contains b.group

def stateOfFlag (r : Request) (b : Block) (state : Bool) : Bool :=
  if r.targets.contains b.group then true
  else if r.disabled.contains b.group || r.reset then false
  else state

def update (states : List Bool) (b : Block) (f : Bool → Bool) : List Bool :=
  states.modify b.index f

def applySet (r : Request) (blocks : List Block) (states : List Bool) (g : GroupSet) :
    Except Fault (List Bool) :=
  let members := g.members.filterMap (blocks[·]?)
  if g.exclusive then
    let chosen := r.chosen members
    if 1 < chosen.length then .error (.conflicting chosen)
    else .ok (members.foldl (fun st b => update st b (r.stateInSet chosen b)) states)
  else
    .ok ((members.filter (!·.isConditional)).foldl
      (fun st b => update st b (r.stateOfFlag b)) states)

/-- The value of a name: as asked for, else whether some block of that name ends up
active; a free name stays undecided. -/
def valueOf (r : Request) (blocks : List Block) (states : List Bool) (name : Text) :
    Option Bool :=
  if r.targets.contains name then some true
  else if r.disabled.contains name then some false
  else
    match blocks.filter fun b => b.group = name && !b.isConditional with
    | [] => if r.reset then some false else none
    | named => some (named.any fun b => (states[b.index]?).getD false)

def holds (r : Request) (blocks : List Block) (states : List Bool) (t : Term) : Option Bool :=
  (r.valueOf blocks states t.name).map (· != t.negated)

def applyCondition (r : Request) (blocks : List Block) (states : List Bool) (b : Block) :
    List Bool :=
  match b.condition.filterMap (r.holds blocks states) with
  | [] => states
  | decided => update states b fun _ => decided.all id

/-- The states that the request asks for, the plain groups decided first. -/
def select (r : Request) (d : Document) (states : List Bool) : Except Fault (List Bool) := do
  let plain ← d.groupSets.foldlM (r.applySet d.blocks) states
  return (d.blocks.filter (·.isConditional)).foldl (r.applyCondition d.blocks) plain

end Request

end CommentToggle
