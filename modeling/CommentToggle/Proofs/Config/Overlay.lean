import CommentToggle.Config.Merge
import Mathlib.Data.List.Nodup

/-!
What a table holds after another one is laid over it. The entries of the first stay in their
places, with the values of the second laid over them where it has the same key; the entries with
new keys follow. So the order of keys is that of the first table, whatever the second changes.
-/
namespace CommentToggle

@[simp] theorem Value.over_none (v : Value) : v.over none = v := by
  cases v <;> simp [Value.over]

namespace Table

variable {base new t : Table} {key : Text} {v : Value}

theorem get?_cons (e : Text × Value) (t : Table) (key : Text) :
    get? (e :: t) key = if key = e.1 then some e.2 else get? t key := by
  rw [get?, List.lookup_cons]
  by_cases hkey : key = e.1
  · rw [if_pos hkey, beq_iff_eq.mpr hkey]
  · rw [if_neg hkey, beq_eq_false_iff_ne.mpr hkey]
    rfl

theorem get?_eq_none_iff : get? t key = none ↔ key ∉ keys t := by
  induction t with
  | nil => simp [get?, keys]
  | cons e rest ih =>
    rw [get?_cons, keys, List.map_cons, List.mem_cons, not_or, ← keys, ← ih]
    by_cases hkey : key = e.1 <;> simp [hkey]

theorem mem_of_get? (h : get? t key = some v) : (key, v) ∈ t := by
  induction t with
  | nil => cases h
  | cons e rest ih =>
    rw [get?_cons] at h
    split at h
    · rename_i hkey
      obtain rfl := Option.some.inj h
      rw [hkey]
      exact List.mem_cons_self
    · exact List.mem_cons_of_mem e (ih h)

theorem get?_of_mem (hkeys : (keys t).Nodup) (h : (key, v) ∈ t) : get? t key = some v := by
  induction t with
  | nil => cases h
  | cons e rest ih =>
    rw [keys, List.map_cons, List.nodup_cons] at hkeys
    rw [get?_cons]
    rcases List.mem_cons.mp h with rfl | hrest
    · rw [if_pos rfl]
    · rw [if_neg, ih hkeys.2 hrest]
      intro hkey
      exact hkeys.1 (hkey ▸ List.mem_map_of_mem hrest)

theorem get?_put (t : Table) (k : Text) (v : Value) (key : Text) :
    get? (put t k v) key = if key = k then some v else get? t key := by
  induction t with
  | nil => rw [put, get?_cons]
  | cons e rest ih =>
    unfold put
    split
    · rename_i hk
      rw [get?_cons, get?_cons, ← hk]
      split <;> rfl
    · rename_i hk
      rw [get?_cons, get?_cons, ih]
      by_cases hkey : key = e.1
      · have hne : key ≠ k := fun heq => hk (hkey ▸ heq)
        rw [if_pos hkey, if_neg hne, if_pos hkey]
      · rw [if_neg hkey, if_neg hkey]

theorem put_of_not_mem (h : key ∉ keys t) (v : Value) : put t key v = t ++ [(key, v)] := by
  induction t with
  | nil => rfl
  | cons e rest ih =>
    rw [keys, List.map_cons, List.mem_cons, not_or] at h
    rw [put, if_neg (Ne.symm h.1), ih h.2, List.cons_append]

/-- The new value stands in the place of the old one. -/
theorem put_of_mem (hkeys : (keys t).Nodup) (h : key ∈ keys t) (v : Value) :
    put t key v = t.map fun e => if e.1 = key then (key, v) else e := by
  induction t with
  | nil => cases h
  | cons e rest ih =>
    rw [keys, List.map_cons, List.nodup_cons] at hkeys
    rw [put, List.map_cons]
    by_cases hkey : e.1 = key
    · have hrest : ∀ e' ∈ rest, (if e'.1 = key then (key, v) else e') = e' := by
        intro e' he'
        rw [if_neg]
        intro heq
        exact hkeys.1 ((hkey.trans heq.symm) ▸ List.mem_map_of_mem he')
      rw [if_pos hkey, if_pos hkey, List.map_congr_left hrest, List.map_id', hkey]
    · rw [keys, List.map_cons, List.mem_cons] at h
      rw [if_neg hkey, if_neg hkey, ih hkeys.2 (h.resolve_left (Ne.symm hkey))]

/-- The entry after the other table is laid over its own. -/
def revised (new : Table) (e : Text × Value) : Text × Value :=
  (e.1, (get? new e.1).elim e.2 (Value.over (some e.2)))

theorem revised_of_ne {e e' : Text × Value} (h : e.1 ≠ e'.1) (rest : Table) :
    revised (e' :: rest) e = revised rest e := by
  rw [revised, get?_cons, if_neg h, revised]

theorem revised_of_eq {e e' : Text × Value} (h : e.1 = e'.1) (rest : Table) :
    revised (e' :: rest) e = (e.1, e'.2.over (some e.2)) := by
  rw [revised, get?_cons, if_pos h]
  rfl

theorem revised_of_not_mem {e : Text × Value} (h : e.1 ∉ keys t) : revised t e = e := by
  rw [revised, get?_eq_none_iff.mpr h]
  rfl

theorem get?_merge (hnew : (keys new).Nodup) : get? (merge base new) key =
    (get? new key).elim (get? base key) fun v => some (v.over (get? base key)) := by
  induction new generalizing base with
  | nil => rfl
  | cons e rest ih =>
    rw [keys, List.map_cons, List.nodup_cons] at hnew
    rw [merge, ih hnew.2, get?_put, get?_cons]
    by_cases hkey : key = e.1
    · rw [hkey, get?_eq_none_iff.mpr hnew.1, if_pos rfl, if_pos rfl]
      rfl
    · rw [if_neg hkey, if_neg hkey]

theorem merge_eq (hbase : (keys base).Nodup) (hnew : (keys new).Nodup) :
    merge base new = base.map (revised new) ++ new.filter (·.1 ∉ keys base) := by
  induction new generalizing base with
  | nil =>
    have hsame : base.map (revised []) = base := List.map_id' base
    rw [hsame, List.filter_nil, List.append_nil, merge]
  | cons e rest ih =>
    obtain ⟨k, v⟩ := e
    rw [keys, List.map_cons, List.nodup_cons] at hnew
    have hk : k ∉ keys rest := hnew.1
    have hrest : (keys rest).Nodup := hnew.2
    rw [merge]
    by_cases hold : k ∈ keys base
    · have hput := put_of_mem hbase hold (v.over (get? base k))
      have hkeys : keys (put base k (v.over (get? base k))) = keys base := by
        rw [hput, keys, List.map_map]
        apply List.map_congr_left
        intro e he
        by_cases hkey : e.1 = k <;> simp [hkey]
      have hrevised : ∀ e ∈ base, revised rest (if e.1 = k then (k, v.over (get? base k)) else e) =
          revised ((k, v) :: rest) e := by
        intro e he
        by_cases hkey : e.1 = k
        · have hvalue : get? base k = some e.2 := get?_of_mem hbase (hkey ▸ he)
          rw [if_pos hkey, revised_of_eq hkey, hvalue, hkey]
          exact revised_of_not_mem hk
        · rw [if_neg hkey, revised_of_ne hkey]
      rw [ih (hkeys ▸ hbase) hrest, hkeys, hput, List.map_map,
        List.filter_cons_of_neg (by simpa using hold)]
      exact congrArg (· ++ _) (List.map_congr_left hrevised)
    · rw [get?_eq_none_iff.mpr hold, Value.over_none, put_of_not_mem hold v]
      have hkeys : keys (base ++ [(k, v)]) = keys base ++ [k] := by simp [keys]
      have hnodup : (keys (base ++ [(k, v)])).Nodup := by
        rw [hkeys, List.nodup_append_comm, List.singleton_append, List.nodup_cons]
        exact ⟨hold, hbase⟩
      have hrevised : ∀ e ∈ base, revised rest e = revised ((k, v) :: rest) e := by
        intro e he
        rw [revised_of_ne]
        rintro rfl
        exact hold (List.mem_map_of_mem he)
      have hfilter : ∀ e ∈ rest, decide (e.1 ∉ keys base ++ [k]) = decide (e.1 ∉ keys base) := by
        intro e he
        have hne : e.1 ≠ k := by
          rintro rfl
          exact hk (List.mem_map_of_mem he)
        simp [hne]
      rw [ih hnodup hrest, hkeys, List.map_append, List.map_congr_left hrevised, List.map_singleton,
        revised_of_not_mem hk, List.append_assoc, List.singleton_append,
        List.filter_cons_of_pos (by simpa using hold), List.filter_congr hfilter]

end Table

end CommentToggle
