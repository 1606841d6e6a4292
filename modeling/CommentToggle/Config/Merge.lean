import CommentToggle.Config.Value

/-!
Laying one table over another. Where both hold a table at a key, these are merged
in turn; any other value replaces what is there. Keys keep their places, new ones
follow in their order.
-/
namespace CommentToggle

mutual

/-- What stands at a key after `new` is laid over `old`. -/
def Value.over (old : Option Value) : Value → Value
  | .table entries =>
    match old with
    | some (.table base) => .table (Table.merge base entries)
    | _ => .table entries
  | .null => .null
  | .bool b => .bool b
  | .int n => .int n
  | .text t => .text t
  | .list vs => .list vs

/-- The first table with the second laid over it. -/
def Table.merge (base : Table) : List (Text × Value) → Table
  | [] => base
  | (key, v) :: rest => Table.merge (Table.put base key (Value.over (Table.get? base key) v)) rest

end

end CommentToggle
