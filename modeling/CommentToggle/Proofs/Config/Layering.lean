import CommentToggle.Proofs.Config.Overlay

/-!
What a nested table holds, at every path of keys, after another one is laid over it. Where both
hold a table, these are merged; where the upper one holds anything else, or a table by itself,
that is seen; and where it holds nothing the lower one shows through, unless something that is no
table lies above on the way. To lay the same table over once more changes nothing.
-/
namespace CommentToggle

namespace Value

/-- What holds of every value that is no table, and of a table once it holds of its entries. -/
theorem nested_induction {motive : Value → Prop}
    (leaf : ∀ v : Value, v.isTable = false → motive v)
    (table : ∀ entries : Table, (∀ e ∈ entries, motive e.2) → motive (.table entries)) :
    ∀ v, motive v
  | .table entries => table entries fun e he =>
      have hlt : sizeOf e.2 < sizeOf (Value.table entries) := by
        have hmem := List.sizeOf_lt_of_mem he
        have hsnd : sizeOf e.2 < sizeOf e := by
          obtain ⟨k, v⟩ := e
          simp only [Prod.mk.sizeOf_spec]
          omega
        simp only [Value.table.sizeOf_spec]
        omega
      nested_induction leaf table e.2
  | .null => leaf _ rfl
  | .bool _ => leaf _ rfl
  | .int _ => leaf _ rfl
  | .text _ => leaf _ rfl
  | .list _ => leaf _ rfl
termination_by v => sizeOf v
decreasing_by exact hlt

/-- Every table that a path of keys leads to holds each key once. -/
def Distinct (v : Value) : Prop :=
  ∀ p entries, v.at? p = some (.table entries) → (Table.keys entries).Nodup

/-- Something that is no table stands on the way along the path. -/
def Blocks (v : Value) (p : List Text) : Prop :=
  ∃ q w, q <+: p ∧ q ≠ p ∧ v.at? q = some w ∧ w.isTable = false

variable {v w : Value} {o : Option Value} {base new t : Table} {key : Text} {p : List Text}

@[simp] theorem at?_nil (v : Value) : v.at? [] = some v := by rw [at?]

theorem at?_cons (v : Value) (key : Text) (p : List Text) :
    v.at? (key :: p) = (v.get? key).bind (·.at? p) := by rw [at?]

theorem at?_table_cons (t : Table) (key : Text) (p : List Text) :
    (Value.table t).at? (key :: p) = (Table.get? t key).bind (·.at? p) := at?_cons _ key p

theorem at?_cons_of_leaf (h : v.isTable = false) (key : Text) (p : List Text) :
    v.at? (key :: p) = none := by
  rw [at?_cons]
  cases v with
  | table t => cases h
  | _ => rfl

theorem over_of_leaf (h : v.isTable = false) (o : Option Value) : v.over o = v := by
  cases v with
  | table t => cases h
  | _ => simp [Value.over]

theorem over_table (base new : Table) :
    (Value.table new).over (some (.table base)) = .table (Table.merge base new) := by
  simp [Value.over]

theorem over_of_not_table (h : ∀ base, o ≠ some (.table base)) (new : Table) :
    (Value.table new).over o = .table new := by
  cases o with
  | none => exact over_none _
  | some w =>
    cases w with
    | table base => exact absurd rfl (h base)
    | _ => simp [Value.over]

theorem blocks_table_cons (t : Table) (key : Text) (p : List Text) :
    (Value.table t).Blocks (key :: p) ↔ ∃ v, Table.get? t key = some v ∧ v.Blocks p := by
  constructor
  · intro h
    obtain ⟨q, w, hq, hne, hw, hleaf⟩ := h
    cases q with
    | nil =>
      rw [at?_nil] at hw
      obtain rfl := Option.some.inj hw
      cases hleaf
    | cons k q =>
      obtain ⟨rfl, htail⟩ := List.cons_prefix_cons.mp hq
      rw [at?_table_cons] at hw
      obtain ⟨v, hv, hw⟩ := Option.bind_eq_some_iff.mp hw
      exact ⟨v, hv, q, w, htail, fun heq => hne (congrArg (k :: ·) heq), hw, hleaf⟩
  · intro h
    obtain ⟨v, hv, q, w, hq, hne, hw, hleaf⟩ := h
    refine ⟨key :: q, w, List.cons_prefix_cons.mpr ⟨rfl, hq⟩, ?_, ?_, hleaf⟩
    · intro heq
      exact hne (List.cons.inj heq).2
    · rw [at?_table_cons, hv]
      exact hw

theorem Distinct.keys (h : (Value.table t).Distinct) : (Table.keys t).Nodup := h [] t (at?_nil _)

theorem Distinct.entry (h : (Value.table t).Distinct) (hv : Table.get? t key = some v) :
    v.Distinct := by
  intro p entries hentries
  refine h (key :: p) entries ?_
  rw [at?_table_cons, hv]
  exact hentries

theorem bind_at?_cons_eq_none (h : ∀ base, o ≠ some (.table base)) (key : Text) (p : List Text) :
    o.bind (·.at? (key :: p)) = none := by
  cases o with
  | none => rfl
  | some w =>
    refine at?_cons_of_leaf ?_ key p
    cases w with
    | table base => exact absurd rfl (h base)
    | _ => rfl

theorem get?_bind_cons (base : Table) (key : Text) (p : List Text) :
    (some (Value.table base)).bind (·.at? (key :: p)) = (Table.get? base key).bind (·.at? p) :=
  at?_table_cons base key p

/-- Where the upper value holds something, this is laid over what the lower one holds there. -/
theorem at?_over_of_some (hdistinct : w.Distinct) (hv : w.at? p = some v) (o : Option Value) :
    (w.over o).at? p = some (v.over (o.bind (·.at? p))) := by
  induction p generalizing w o with
  | nil =>
    rw [at?_nil] at hv
    obtain rfl := Option.some.inj hv
    cases o <;> simp
  | cons key p ih =>
    cases w with
    | table new =>
      have htail := hv
      rw [at?_table_cons] at htail
      obtain ⟨w', hw', htail⟩ := Option.bind_eq_some_iff.mp htail
      by_cases hbase : ∃ base, o = some (.table base)
      · obtain ⟨base, rfl⟩ := hbase
        rw [over_table, at?_table_cons, Table.get?_merge hdistinct.keys, hw', get?_bind_cons]
        exact ih (hdistinct.entry hw') htail (Table.get? base key)
      · -- The table is taken whole, and below it there is nothing at this path.
        have hlower := not_exists.mp hbase
        rw [over_of_not_table hlower, hv, bind_at?_cons_eq_none hlower, over_none]
    | _ => cases hv

/-- Where the upper value holds nothing, the lower one shows through unless something blocks. -/
theorem at?_over_of_none (hdistinct : w.Distinct) (hnone : w.at? p = none) (o : Option Value) :
    (w.Blocks p → (w.over o).at? p = none) ∧
      (¬ w.Blocks p → (w.over o).at? p = o.bind (·.at? p)) := by
  induction p generalizing w o with
  | nil =>
    rw [at?_nil] at hnone
    cases hnone
  | cons key p ih =>
    by_cases hleaf : w.isTable = false
    · have hblocks : w.Blocks (key :: p) :=
        ⟨[], w, List.nil_prefix, (List.cons_ne_nil key p).symm, at?_nil w, hleaf⟩
      rw [over_of_leaf hleaf]
      exact ⟨fun _ => hnone, fun h => absurd hblocks h⟩
    · cases w with
      | table new =>
        by_cases hbase : ∃ base, o = some (.table base)
        · obtain ⟨base, rfl⟩ := hbase
          rw [blocks_table_cons, over_table, at?_table_cons, Table.get?_merge hdistinct.keys,
            get?_bind_cons]
          rw [at?_table_cons] at hnone
          cases hnew : Table.get? new key with
          | none => simp
          | some v =>
            rw [hnew] at hnone
            have hv := ih (hdistinct.entry hnew) hnone (Table.get? base key)
            simpa using hv
        · have hlower := not_exists.mp hbase
          rw [over_of_not_table hlower, hnone, bind_at?_cons_eq_none hlower]
          exact ⟨fun _ => rfl, fun _ => rfl⟩
      | _ => exact absurd rfl hleaf

/-- A table at a path is one of the two, or is merged from both. -/
theorem table_at?_over (hdistinct : w.Distinct) {entries : Table}
    (h : (w.over o).at? p = some (.table entries)) :
    w.at? p = some (.table entries) ∨ o.bind (·.at? p) = some (.table entries) ∨
      ∃ base new, o.bind (·.at? p) = some (.table base) ∧ w.at? p = some (.table new) ∧
        entries = Table.merge base new := by
  cases hupper : w.at? p with
  | none =>
    obtain ⟨hblocked, hseen⟩ := at?_over_of_none hdistinct hupper o
    by_cases hblocks : w.Blocks p
    · rw [hblocked hblocks] at h
      cases h
    · exact Or.inr (Or.inl (hseen hblocks ▸ h))
  | some v =>
    rw [at?_over_of_some hdistinct hupper, Option.some.injEq] at h
    by_cases hleaf : v.isTable = false
    · exact Or.inl (congrArg some (over_of_leaf hleaf _ ▸ h))
    · cases v with
      | table new =>
        by_cases hlower : ∃ base, o.bind (·.at? p) = some (.table base)
        · obtain ⟨base, hbase⟩ := hlower
          rw [hbase, over_table] at h
          exact Or.inr (Or.inr ⟨base, new, hbase, rfl, (Value.table.inj h).symm⟩)
        · rw [over_of_not_table (not_exists.mp hlower)] at h
          exact Or.inl (congrArg some h)
      | _ => exact absurd rfl hleaf

end Value

namespace Table

variable {base new t : Table}

/-- The keys of the lower table come first, then those that only the upper one has. -/
theorem keys_merge (hbase : (keys base).Nodup) (hnew : (keys new).Nodup) :
    keys (merge base new) = keys base ++ (keys new).filter (· ∉ keys base) := by
  have hold : (base.map (revised new)).map (·.1) = keys base := by
    rw [List.map_map]
    rfl
  rw [merge_eq hbase hnew, keys, List.map_append, hold, keys, keys, List.filter_map]
  rfl

theorem nodup_merge (hbase : (keys base).Nodup) (hnew : (keys new).Nodup) :
    (keys (merge base new)).Nodup := by
  rw [keys_merge hbase hnew]
  refine hbase.append (hnew.filter _) fun key hold hadded => ?_
  have hfresh := (List.mem_filter.mp hadded).2
  exact of_decide_eq_true hfresh hold

theorem merge_nil_left (hnew : (keys new).Nodup) : merge [] new = new := by
  have hempty : (keys []).Nodup := List.nodup_nil
  rw [merge_eq hempty hnew]
  simp [keys]

/-- A table laid over another changes nothing where its values are there already. -/
theorem merge_eq_self (ht : (keys t).Nodup) (hnew : (keys new).Nodup)
    (h : ∀ key v, get? new key = some v → ∃ w, get? t key = some w ∧ v.over (some w) = w) :
    merge t new = t := by
  have hrevised : ∀ e ∈ t, revised new e = e := by
    intro e he
    unfold revised
    cases hv : get? new e.1 with
    | none => rfl
    | some v =>
      obtain ⟨w, hw, hsame⟩ := h e.1 v hv
      rw [get?_of_mem ht he] at hw
      obtain rfl := Option.some.inj hw
      exact congrArg (Prod.mk e.1) hsame
  have hfilter : new.filter (·.1 ∉ keys t) = [] := by
    rw [List.filter_eq_nil_iff]
    intro e he
    obtain ⟨w, hw, -⟩ := h e.1 e.2 (get?_of_mem hnew he)
    have hmem : e.1 ∈ keys t := by
      by_contra habsent
      rw [get?_eq_none_iff.mpr habsent] at hw
      cases hw
    simpa using hmem
  rw [merge_eq ht hnew, hfilter, List.append_nil, List.map_congr_left hrevised, List.map_id']

end Table

namespace Value

variable {v w : Value} {o : Option Value} {t : Table} {key : Text}

/-- Each key stands once in what comes of two values in which it does. -/
theorem Distinct.over (hw : w.Distinct) (ho : ∀ v ∈ o, v.Distinct) : (w.over o).Distinct := by
  intro p entries h
  have hlower : ∀ t, o.bind (·.at? p) = some (.table t) → (Table.keys t).Nodup := by
    intro t ht
    obtain ⟨v, hv, ht⟩ := Option.bind_eq_some_iff.mp ht
    exact ho v hv p t ht
  rcases table_at?_over hw h with hupper | hbase | ⟨base, new, hbase, hnew, rfl⟩
  · exact hw p entries hupper
  · exact hlower entries hbase
  · exact Table.nodup_merge (hlower base hbase) (hw p new hnew)

/-- What is laid over a value twice is as good as laid over it once. -/
theorem over_over (hw : w.Distinct) (ho : ∀ v ∈ o, v.Distinct) :
    w.over (some (w.over o)) = w.over o := by
  induction w using nested_induction generalizing o with
  | leaf w hleaf => rw [over_of_leaf hleaf, over_of_leaf hleaf]
  | table new ih =>
    by_cases hlower : ∃ base, o = some (.table base)
    · obtain ⟨base, rfl⟩ := hlower
      have hbase : (Value.table base).Distinct := ho _ rfl
      rw [over_table, over_table]
      -- At a key of the upper table stands its value laid over the lower one: the case below.
      refine congrArg Value.table
        (Table.merge_eq_self (Table.nodup_merge hbase.keys hw.keys) hw.keys fun key v hv => ?_)
      refine ⟨v.over (Table.get? base key), ?_, ?_⟩
      · rw [Table.get?_merge hw.keys, hv]
        rfl
      · exact ih _ (Table.mem_of_get? hv) (hw.entry hv) fun v' hv' => hbase.entry hv'
    · -- The table is taken whole, so the second time it is laid over itself.
      rw [over_of_not_table (not_exists.mp hlower), over_table]
      refine congrArg Value.table (Table.merge_eq_self hw.keys hw.keys fun key v hv => ⟨v, hv, ?_⟩)
      have hself := ih _ (Table.mem_of_get? hv) (o := none) (hw.entry hv) fun _ h => by cases h
      rwa [over_none] at hself

/-- What the result holds at each path of keys, from what the lower and the upper value hold
there. -/
structure Layered (lower upper result : Value) : Prop where
  merged : ∀ p base new, lower.at? p = some (.table base) → upper.at? p = some (.table new) →
    result.at? p = some (.table (Table.merge base new))
  replaced : ∀ p v, upper.at? p = some v →
    v.isTable = false ∨ (∀ base, lower.at? p ≠ some (.table base)) → result.at? p = some v
  hidden : ∀ p, upper.at? p = none → upper.Blocks p → result.at? p = none
  seen : ∀ p, upper.at? p = none → ¬ upper.Blocks p → result.at? p = lower.at? p
  /-- The keys of a merged table are the lower one's, then those that only the upper one has. -/
  ordered : ∀ p base new, lower.at? p = some (.table base) → upper.at? p = some (.table new) →
    ∃ entries, result.at? p = some (.table entries) ∧
      Table.keys entries = Table.keys base ++ (Table.keys new).filter (· ∉ Table.keys base)

theorem layered_over (hlower : v.Distinct) (hupper : w.Distinct) :
    Layered v w (w.over (some v)) := by
  have hmerged (p : List Text) (base new : Table) (hbase : v.at? p = some (.table base))
      (hnew : w.at? p = some (.table new)) :
      (w.over (some v)).at? p = some (.table (Table.merge base new)) := by
    rw [at?_over_of_some hupper hnew, Option.bind_some, hbase, over_table]
  constructor
  · exact hmerged
  · intro p u hu hfree
    rw [at?_over_of_some hupper hu, Option.bind_some]
    rcases hfree with hleaf | hbase
    · rw [over_of_leaf hleaf]
    · cases u with
      | table new => rw [over_of_not_table hbase]
      | _ => rw [over_of_leaf (by rfl)]
  · exact fun p hnone => (at?_over_of_none hupper hnone (some v)).1
  · exact fun p hnone => (at?_over_of_none hupper hnone (some v)).2
  · intro p base new hbase hnew
    exact ⟨_, hmerged p base new hbase hnew,
      Table.keys_merge (hlower p base hbase) (hupper p new hnew)⟩

theorem distinct_of_leaf (h : w.isTable = false) : w.Distinct := by
  intro p entries hentries
  cases p with
  | nil =>
    rw [at?_nil] at hentries
    obtain rfl := Option.some.inj hentries
    cases h
  | cons key p =>
    rw [at?_cons_of_leaf h] at hentries
    cases hentries

theorem distinct_nil : (Value.table []).Distinct := by
  intro p entries hentries
  cases p with
  | nil => exact Value.table.inj (Option.some.inj hentries) ▸ List.nodup_nil
  | cons key p =>
    rw [at?_table_cons] at hentries
    cases hentries

theorem Distinct.cons (hkey : key ∉ Table.keys t) (hv : v.Distinct)
    (ht : (Value.table t).Distinct) : (Value.table ((key, v) :: t)).Distinct := by
  intro p entries hentries
  cases p with
  | nil =>
    rw [at?_nil] at hentries
    obtain rfl := Value.table.inj (Option.some.inj hentries)
    exact List.nodup_cons.mpr ⟨hkey, ht.keys⟩
  | cons k p =>
    have hrest := ht (k :: p) entries
    rw [at?_table_cons] at hentries hrest
    rw [Table.get?_cons] at hentries
    split at hentries
    · exact hv p entries hentries
    · exact hrest hentries

end Value

/-- A table laid over another is seen at every path where it holds something, and the other one
shows through where it holds nothing; tables of both are merged, with the keys of the lower one
first. The empty table is neutral on both sides, and a table laid over once more changes nothing. -/
theorem Table.merge_layered {base new : Table} (hbase : (Value.table base).Distinct)
    (hnew : (Value.table new).Distinct) :
    Value.Layered (.table base) (.table new) (.table (merge base new)) ∧
      (Value.table (merge base new)).Distinct ∧
      merge [] new = new ∧ merge base [] = base ∧
      merge (merge base new) new = merge base new := by
  have hlower : ∀ v ∈ some (Value.table base), v.Distinct := fun v hv =>
    Option.some.inj hv ▸ hbase
  refine ⟨?_, ?_, merge_nil_left hnew.keys, ?_, ?_⟩
  · exact Value.over_table base new ▸ Value.layered_over hbase hnew
  · exact Value.over_table base new ▸ hnew.over hlower
  · rw [merge]
  · have htwice := Value.over_over hnew hlower
    rw [Value.over_table, Value.over_table] at htwice
    exact Value.table.inj htwice

theorem Value.equivalentEntries_iff {es fs : Table} : equivalentEntries es fs = true ↔
    ∀ e ∈ es, ∃ w, Table.get? fs e.1 = some w ∧ e.2.equivalent w = true := by
  induction es with
  | nil => simp [equivalentEntries]
  | cons e es ih =>
    rw [equivalentEntries, Bool.and_eq_true, ih, List.forall_mem_cons, Option.any_eq_true]

theorem Table.merge_of_disjoint {base new : Table} (hbase : (keys base).Nodup)
    (hnew : (keys new).Nodup) (h : (keys base).Disjoint (keys new)) :
    merge base new = base ++ new := by
  have hrevised : ∀ e ∈ base, revised new e = e :=
    fun e he => revised_of_not_mem (h (List.mem_map_of_mem he))
  have hadded : ∀ e ∈ new, decide (e.1 ∉ keys base) = true :=
    fun e he => decide_eq_true fun hold => h hold (List.mem_map_of_mem he)
  rw [merge_eq hbase hnew, List.map_congr_left hrevised, List.map_id', List.filter_eq_self.mpr hadded]

/-- Tables without a common key may be laid over each other in either order; only the order of
keys tells which. -/
theorem Table.merge_comm_of_disjoint {base new : Table} (hbase : (keys base).Nodup)
    (hnew : (keys new).Nodup) (h : (keys base).Disjoint (keys new))
    (hself : ∀ e ∈ base ++ new, e.2.equivalent e.2 = true) :
    (Value.table (merge base new)).equivalent (.table (merge new base)) = true := by
  have hback := List.disjoint_left.mpr fun _ hnew' hold => h hold hnew'
  rw [merge_of_disjoint hbase hnew h, merge_of_disjoint hnew hbase hback]
  have hkeys : (keys (new ++ base)).Nodup := by
    rw [keys, List.map_append]
    exact hnew.append hbase hback
  have hlength : (base ++ new).length = (new ++ base).length := by simp [Nat.add_comm]
  rw [Value.equivalent, Bool.and_eq_true]
  refine ⟨decide_eq_true hlength, Value.equivalentEntries_iff.mpr fun e he => ?_⟩
  have hmem : (e.1, e.2) ∈ new ++ base := List.mem_append.mpr (List.mem_append.mp he).symm
  exact ⟨e.2, get?_of_mem hkeys hmem, hself e he⟩

/-- A table with tables inside, and one that is at odds with it at two depths. -/
def lowerTable : Table :=
  [("a".toList, .table [("x".toList, .int 1), ("y".toList, .table [("u".toList, .int 2)])]),
    ("b".toList, .int 3)]

def upperTable : Table :=
  [("b".toList, .table [("w".toList, .int 4)]),
    ("a".toList, .table [("v".toList, .int 5), ("y".toList, .int 6)])]

def mergedTable : Table :=
  [("a".toList, .table [("x".toList, .int 1), ("y".toList, .int 6), ("v".toList, .int 5)]),
    ("b".toList, .table [("w".toList, .int 4)])]

theorem Table.merge_layered_mixed :
    (Value.table lowerTable).Distinct ∧ (Value.table upperTable).Distinct ∧
    merge lowerTable upperTable = mergedTable ∧
    (Value.table mergedTable).at? ["a".toList, "y".toList, "u".toList] = none ∧
    (Value.table mergedTable).at? ["a".toList, "x".toList] = some (.int 1) ∧
    merge mergedTable upperTable = mergedTable := by
  have hlower : (Value.table lowerTable).Distinct :=
    .cons (by decide)
      (.cons (by decide) (Value.distinct_of_leaf rfl)
        (.cons (by decide) (.cons (by decide) (Value.distinct_of_leaf rfl) Value.distinct_nil)
          Value.distinct_nil))
      (.cons (by decide) (Value.distinct_of_leaf rfl) Value.distinct_nil)
  have hupper : (Value.table upperTable).Distinct :=
    .cons (by decide) (.cons (by decide) (Value.distinct_of_leaf rfl) Value.distinct_nil)
      (.cons (by decide)
        (.cons (by decide) (Value.distinct_of_leaf rfl)
          (.cons (by decide) (Value.distinct_of_leaf rfl) Value.distinct_nil))
        Value.distinct_nil)
  have hmerged : merge lowerTable upperTable = mergedTable := rfl
  obtain ⟨hlayered, -, -, -, htwice⟩ := merge_layered hlower hupper
  rw [hmerged] at hlayered htwice
  refine ⟨hlower, hupper, hmerged, ?_, ?_, htwice⟩
  · exact hlayered.hidden _ rfl ⟨["a".toList, "y".toList], .int 6, by decide, by decide, rfl, rfl⟩
  · refine (hlayered.seen _ rfl ?_).trans rfl
    rw [Value.blocks_table_cons]
    intro h
    obtain ⟨v, hv, hblocks⟩ := h
    obtain rfl := Option.some.inj hv
    obtain ⟨w, hw, -⟩ := (Value.blocks_table_cons ..).mp hblocks
    cases hw

end CommentToggle
