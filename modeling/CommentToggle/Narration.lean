import CommentToggle.Log
import CommentToggle.Toggle

/-!
The records of reading and toggling a text. Each directive found is told, also
when a later line is at fault; the blocks are told once the whole text is read;
and each block that changes its state, or stays commented although it was asked
for, is told once the plan stands.
-/
namespace CommentToggle

open Text

def Directive.record (d : Directive) : Record :=
  ⟨.debug, .scanner, s!"Line {d.line + 1}: " ++ d.kind.word ++ " directive for group '" ++
    toStr d.group ++ "'."⟩

namespace Document

def blocksRecord (d : Document) : Record :=
  ⟨.debug, .resolver, s!"Resolved {d.blocks.length} block(s)."⟩

def summaryRecord (d : Document) : Record :=
  ⟨.debug, .program,
    s!"Document: {d.lines.length} line(s), {d.directives.length} directive(s), " ++
    s!"{d.blocks.length} block(s), {d.groupSets.length} group set(s)."⟩

/-- Reading up to the blocks. -/
def resolveLogged (s : Style) (t : Text) : Logged Fault Document :=
  let found := (Directive.scanFrom s [] (Line.ofText t)).1.map Directive.record
  match read s t with
  | .ok d => ⟨found ++ [d.blocksRecord], .ok d⟩
  | .error fault => ⟨found, .error fault⟩

def readLogged (s : Style) (t : Text) : Logged Fault Document := do
  let d ← resolveLogged s t
  Logged.notes [d.summaryRecord]
  return d

@[simp] theorem outcome_resolveLogged (s : Style) (t : Text) :
    (resolveLogged s t).outcome = read s t := by
  unfold resolveLogged
  cases read s t <;> rfl

@[simp] theorem outcome_readLogged (s : Style) (t : Text) :
    (readLogged s t).outcome = read s t := by
  simp only [readLogged, Logged.outcome_bind, outcome_resolveLogged]
  cases read s t <;> rfl

end Document

namespace Plan

def stateWord (on : Bool) : String := (if on then LineState.active else .inactive).word

def tag (b : Block) : String := "Group '" ++ toStr b.group ++ s!"' (line {b.openedAt + 1})"

/-- The nearest enclosing group that keeps the block commented. -/
def blocker? (d : Document) (p : Plan) (b : Block) : Option Text :=
  ((d.ancestors b).find? (!isActive p.desired ·)).bind fun i => (d.blocks[i]?).map (·.group)

def blockRecords (d : Document) (r : Request) (p : Plan) (b : Block) : List Record :=
  let was := isActive p.current b.index
  let becomes := isActive p.desired b.index
  let held : List Record :=
    if r.targets.contains b.group && becomes then
      match blocker? d p b with
      | some g => [⟨.warning, .engine, tag b ++ " stays commented: enclosing group '" ++
          toStr g ++ "' is inactive."⟩]
      | none => []
    else []
  held ++
    if was = becomes then []
    else [⟨.info, .engine, tag b ++ ": " ++ stateWord was ++ " -> " ++ stateWord becomes ++ "."⟩]

def records (d : Document) (r : Request) (p : Plan) : List Record :=
  d.blocks.flatMap (blockRecords d r p)

end Plan

def Document.toggleLogged (d : Document) (r : Request) : Logged Fault Toggled := do
  let plan ← Logged.ofExcept (Plan.make d r)
  Logged.notes (plan.records d r)
  Logged.ofExcept (d.toggle r)

def toggleLogged (s : Style) (t : Text) (r : Request) : Logged Fault Toggled := do
  (← Document.readLogged s t).toggleLogged r

end CommentToggle
