import CommentToggle.Config.Toml.Statement

/-!
Configuration files: tables in square brackets and assignments of texts, numbers,
truth values and lists to keys. A fault tells what is wrong and where. Lines end
with LF.
-/
namespace CommentToggle.Toml

open Text

structure State where
  table : Table
  /-- The table that assignments go to. -/
  path : List Text
  /-- Groups that were made only to hold others and may still have a header. -/
  implied : List Text

def occursIn (t : Text) : Text → Bool
  | [] => t.isEmpty
  | c :: rest => t.isPrefixOf (c :: rest) || occursIn t rest

/-- Why a key's path cannot go on with a name in a value that is no table. -/
def keyDescent (name : Text) : Value → Cause
  | .text t => if occursIn name t then .textNotLookedUp else .textHasNoEntries
  | .list _ => .listNotLookedUp
  | v => .noMembers v.kind

/-- Why a header's path cannot: of a text or a list, its end is looked at. -/
def groupDescent (name : Text) : Value → Cause
  | .text t => match t.getLast? with
    | none => .textTooShort
    | some c => keyDescent name (.text [c])
  | .list vs => match vs.getLast? with
    | none => .listTooShort
    | some v => keyDescent name v
  | v => .noEntries v.kind

/-- Makes the tables of a header's path. -/
def openGroup (implied : List Text) : Table → List Text → Except Cause (Table × List Text)
  | t, [] => .ok (t, implied)
  | t, name :: rest =>
    if name.isEmpty then .error .emptyGroup
    else match Table.get? t name, rest with
      | none, [] => .ok (Table.put t name (.table []), implied)
      | some _, [] =>
        if implied.contains name then .ok (t, implied.erase name)
        else .error (.takenGroup name (Value.table t).shown)
      | some (.table inside), _ :: _ =>
        (openGroup implied inside rest).map fun (made, left) =>
          (Table.put t name (.table made), left)
      | none, _ :: _ =>
        (openGroup (implied ++ [name]) [] rest).map fun (made, left) =>
          (Table.put t name (.table made), left)
      | some v, next :: _ => .error (if next.isEmpty then .emptyGroup else groupDescent next v)

/-- Whether the path leads through tables only, as far as there is something. -/
def checkPath : Table → List Text → Except Cause Unit
  | _, [] => .ok ()
  | t, name :: path =>
    match Table.get? t name, path with
    | some (.table inside), _ => checkPath inside path
    | some v, next :: _ => .error (keyDescent next v)
    | _, _ => .ok ()

/-- Puts a value into the table at a path, made where it is missing. -/
def assign : Table → List Text → Text → Value → Except Cause Table
  | t, [], key, v =>
    if (Table.get? t key).isSome then .error .duplicateKey else .ok (Table.put t key v)
  | t, name :: path, key, v =>
    match (Table.get? t name).getD (.table []) with
    | .table inside => (assign inside path key v).map fun done => Table.put t name (.table done)
    | _ => .error .duplicateKey

def readStatement (s : State) (line : Text) : Except Cause State :=
  match line with
  | '[' :: rest => do
    let path ← readHeader rest
    let (table, implied) ← openGroup s.implied s.table path
    return ⟨table, path, implied⟩
  | '\x7b' :: _ => .error .notKept
  | _ =>
    if line.contains '=' then do
      let a ← readAssignment line
      let path := s.path ++ a.path
      checkPath s.table path
      return { s with table := ← assign s.table path a.key (← a.value) }
    else .ok s

/-- Reads line after line; a cause comes with the position where its line starts. -/
def readLines (s : State) (position : Nat) : List Text → Except (Cause × Nat) Table
  | [] => .ok s.table
  | line :: rest =>
    match readStatement s (trim line) with
    | .ok next => readLines next (position + line.length + 1) rest
    | .error cause => .error (cause, position)

def parse (document : Text) : Except Fault Table :=
  (do readLines ⟨[], [], []⟩ 0 (splitAtChar '\n' (← layOut document))).mapError
    fun (cause, position) => Fault.at document cause position

end CommentToggle.Toml
