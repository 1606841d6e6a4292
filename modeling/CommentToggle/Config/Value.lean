import CommentToggle.Text.Quoted

/-!
Configuration data. A table keeps its entries in the order in which their keys
first came; that order counts where a look-up takes the first match. Two values
are equivalent when they hold the same data, tables in any order of keys, and a
truth value is as good as the number zero or one.
-/
namespace CommentToggle

inductive Value
  | null
  | bool (b : Bool)
  | int (n : Int)
  | text (t : Text)
  | list (vs : List Value)
  | table (entries : List (Text × Value))
  deriving Inhabited, Repr

abbrev Table := List (Text × Value)

namespace Table

def get? (t : Table) (key : Text) : Option Value := t.lookup key

/-- Replaces the value in its place, or adds the key at the end. -/
def put : Table → Text → Value → Table
  | [], key, v => [(key, v)]
  | (k, old) :: rest, key, v =>
    if k = key then (k, v) :: rest else (k, old) :: put rest key v

def keys (t : Table) : List Text := t.map (·.1)

end Table

namespace Value

def get? : Value → Text → Option Value
  | table entries, key => Table.get? entries key
  | _, _ => none

/-- The value at a path of keys. -/
def at? : Value → List Text → Option Value
  | v, [] => some v
  | v, key :: rest => (v.get? key).bind (at? · rest)

def isTable : Value → Bool
  | table _ => true
  | _ => false

/-- False for what counts as absent: nothing, zero, and all that is empty. -/
def isSet : Value → Bool
  | null => false
  | bool b => b
  | int n => n ≠ 0
  | text t => !t.isEmpty
  | list vs => !vs.isEmpty
  | table entries => !entries.isEmpty

/-- The name by which diagnostics call this kind of value. -/
def kind : Value → String
  | null => "NoneType"
  | bool _ => "bool"
  | int _ => "int"
  | text _ => "str"
  | list _ => "list"
  | table _ => "dict"

mutual

/-- The value as it stands inside a list or a table. -/
def shown : Value → Text
  | null => "None".toList
  | bool true => "True".toList
  | bool false => "False".toList
  | int n => (toString n).toList
  | text t => t.quoted
  | list vs => '[' :: shownItems vs ++ [']']
  | table entries => '\x7b' :: shownEntries entries ++ ['\x7d']

def shownItems : List Value → Text
  | [] => []
  | [v] => shown v
  | v :: w :: rest => shown v ++ ", ".toList ++ shownItems (w :: rest)

def shownEntries : List (Text × Value) → Text
  | [] => []
  | [(k, v)] => k.quoted ++ ": ".toList ++ shown v
  | (k, v) :: e :: rest =>
    k.quoted ++ ": ".toList ++ shown v ++ ", ".toList ++ shownEntries (e :: rest)

end

/-- The value as text by itself. -/
def display : Value → Text
  | text t => t
  | v => v.shown

/-- The number a value stands for, if it is one. -/
def number? : Value → Option Int
  | bool true => some 1
  | bool false => some 0
  | int n => some n
  | _ => none

mutual

def equivalent : Value → Value → Bool
  | null, null => true
  | text t, text u => t = u
  | list vs, list ws => equivalentItems vs ws
  | table es, table fs => es.length = fs.length && equivalentEntries es fs
  | v, w => v.number?.isSome && v.number? = w.number?

def equivalentItems : List Value → List Value → Bool
  | [], [] => true
  | v :: vs, w :: ws => equivalent v w && equivalentItems vs ws
  | _, _ => false

def equivalentEntries : List (Text × Value) → Table → Bool
  | [], _ => true
  | (k, v) :: rest, fs => (Table.get? fs k).any (equivalent v ·) && equivalentEntries rest fs

end

end Value

end CommentToggle
