import CommentToggle.Block.Resolve

/-!
Derivations of lists of directives. Items are groups and taggings in a row, and a
group holds items between its opening and its closing. A derivation determines the
blocks, their ranges and the way they refer to each other, without regard to how
they are formed; children are the blocks that name their block as parent, in order.
-/
namespace CommentToggle.Block

/-- Items grow at the end, as directives are read. -/
inductive Items
  | empty
  | group (before : Items) (opening : Directive) (inner : Items) (closing : Directive)
  | tagged (before : Items) (tagging : Directive)

namespace Items

def directives : Items → List Directive
  | empty => []
  | group before o inner c => before.directives ++ o :: (inner.directives ++ [c])
  | tagged before d => before.directives ++ [d]

/-- The number of blocks. -/
def size : Items → Nat
  | empty => 0
  | group before _ inner _ => before.size + 1 + inner.size
  | tagged before _ => before.size + 1

/-- The group texts of the items themselves, not of what they hold. -/
def heads : Items → List Text
  | empty => []
  | group before o _ _ => before.heads ++ [o.group]
  | tagged before d => before.heads ++ [d.group]

/-- The positions of the blocks of the items themselves, counted from `n`. -/
def roots : Items → Nat → List Nat
  | empty, _ => []
  | group before _ _ _, n => before.roots n ++ [n + before.size]
  | tagged before _, n => before.roots n ++ [n + before.size]

/-- The block of a group at the given position. -/
def block (parent : Option Nat) (index : Nat) (o : Directive) (last : Nat)
    (children : List Nat) : Block :=
  ⟨index, o.group, o.line + 1, last, o.line, parent, o.exclusive, children, o.condition⟩

/-- The blocks of items that stand in the block at `parent`, at the positions from `n`. -/
def blocks : Items → Option Nat → Nat → List Block
  | empty, _, _ => []
  | group before o inner c, parent, n =>
    before.blocks parent n ++
      block parent (n + before.size) o (c.line - 1) (inner.roots (n + before.size + 1)) ::
        inner.blocks (some (n + before.size)) (n + before.size + 1)
  | tagged before d, parent, n =>
    before.blocks parent n ++ [block parent (n + before.size) d (d.line + 1) []]

/-- Whether a line stands in one of the groups or is tagged by one of the taggings. -/
def Covers : Items → Nat → Prop
  | empty, _ => False
  | group before o _ c, i => before.Covers i ∨ (o.line < i ∧ i < c.line)
  | tagged before d, i => before.Covers i ∨ i = d.line + 1

/-- A closing repeats the group of its opening, no two items have one group text, and a
tagging is followed by a line that is no directive. -/
inductive Derived (ls : List Line) : Items → Prop
  | empty : Derived ls empty
  | group {before inner : Items} {o c : Directive} : Derived ls before → o.kind = .opening →
      o.group ∉ before.heads → Derived ls inner → c.kind = .closing → c.group = o.group →
      Derived ls (group before o inner c)
  | tagged {before : Items} {d : Directive} : Derived ls before → d.kind = .tagging →
      d.group ∉ before.heads → (∃ l, ls[d.line + 1]? = some l ∧ l.directive = false) →
      Derived ls (tagged before d)

/-- A group that holds items also holds a line of its own: one with text that is no
directive and stands in none of them. -/
def OwnLines (ls : List Line) : Items → Prop
  | empty => True
  | group before o inner c => before.OwnLines ls ∧ inner.OwnLines ls ∧
      (inner ≠ empty → ∃ l ∈ ls, (o.line < l.index ∧ l.index < c.line) ∧
        l.isOwnText = true ∧ ¬ inner.Covers l.index)
  | tagged before _ => before.OwnLines ls

section Blocks
variable (t : Items) (parent : Option Nat) (n : Nat)

theorem length_blocks : (t.blocks parent n).length = t.size := by
  induction t generalizing parent n with
  | empty => rfl
  | group before o inner c ihb ihi =>
    simp only [blocks, size, List.length_append, List.length_cons, ihb, ihi]
    omega
  | tagged before d ih => simp [blocks, size, ih]

theorem map_index_blocks : (t.blocks parent n).map (·.index) = List.range' n t.size := by
  induction t generalizing parent n with
  | empty => rfl
  | group before o inner c ihb ihi =>
    simp only [blocks, size, List.map_append, List.map_cons, ihb, ihi, block]
    rw [Nat.add_assoc before.size, Nat.add_comm 1 inner.size, ← List.range'_append_1,
      List.range'_succ]
  | tagged before d ih =>
    simp only [blocks, size, List.map_append, List.map_cons, List.map_nil, ih, block]
    rw [← List.range'_append_1]
    rfl

theorem index_bounds {b : Block} (hb : b ∈ t.blocks parent n) :
    n ≤ b.index ∧ b.index < n + t.size := by
  have hmem : b.index ∈ (t.blocks parent n).map (·.index) := List.mem_map_of_mem hb
  rwa [map_index_blocks, List.mem_range'_1] at hmem

/-- A block stands where it says. -/
theorem getElem?_index {b : Block} (hb : b ∈ t.blocks parent 0) :
    (t.blocks parent 0)[b.index]? = some b := by
  obtain ⟨k, hk, rfl⟩ := List.mem_iff_getElem.mp hb
  have hindex : ((t.blocks parent 0).map (·.index))[k]? = some k := by
    rw [map_index_blocks, List.getElem?_range' (by rwa [length_blocks] at hk)]
    simp
  rw [List.getElem?_map, List.getElem?_eq_getElem hk, Option.map_some, Option.some.injEq] at hindex
  rw [hindex, List.getElem?_eq_getElem hk]

/-- The blocks come in the order of their directives. -/
theorem map_openedAt_blocks {ls : List Line} (h : t.Derived ls) :
    (t.blocks parent n).map (·.openedAt) =
      (t.directives.filter (·.kind ≠ .closing)).map (·.line) := by
  induction h generalizing parent n with
  | empty => rfl
  | group _ hopening _ _ hclosing _ ihb ihi =>
    simp [blocks, directives, block, ihb, ihi, hopening, hclosing]
  | tagged _ htagging _ _ ih => simp [blocks, directives, block, ih, htagging]

/-- The parent is the block the items stand in, or one of theirs. -/
theorem parent_of_mem {b : Block} (hb : b ∈ t.blocks parent n) :
    (b.parent = parent ∧ b.group ∈ t.heads) ∨
      ∃ p, b.parent = some p ∧ n ≤ p ∧ p < n + t.size := by
  induction t generalizing parent n with
  | empty => simp [blocks] at hb
  | group before o inner c ihb ihi =>
    simp only [blocks, List.mem_append, List.mem_cons] at hb
    simp only [heads, size, List.mem_append, List.mem_singleton]
    rcases hb with hb | rfl | hb
    · rcases ihb parent n hb with ⟨hparent, hgroup⟩ | ⟨p, hp, hle, hlt⟩
      · exact .inl ⟨hparent, .inl hgroup⟩
      · exact .inr ⟨p, hp, hle, by omega⟩
    · exact .inl ⟨rfl, .inr rfl⟩
    · right
      rcases ihi _ _ hb with ⟨hparent, -⟩ | ⟨p, hp, hle, hlt⟩
      · exact ⟨n + before.size, hparent, by omega, by omega⟩
      · exact ⟨p, hp, by omega, by omega⟩
  | tagged before d ih =>
    simp only [blocks, List.mem_append, List.mem_singleton] at hb
    simp only [heads, size, List.mem_append, List.mem_singleton]
    rcases hb with hb | rfl
    · rcases ih parent n hb with ⟨hparent, hgroup⟩ | ⟨p, hp, hle, hlt⟩
      · exact .inl ⟨hparent, .inl hgroup⟩
      · exact .inr ⟨p, hp, hle, by omega⟩
    · exact .inl ⟨rfl, .inr rfl⟩

theorem exists_of_mem_heads {group : Text} (h : group ∈ t.heads) :
    ∃ b ∈ t.blocks parent n, b.parent = parent ∧ b.group = group := by
  induction t generalizing n with
  | empty => simp [heads] at h
  | group before o inner c ihb ihi =>
    simp only [heads, List.mem_append, List.mem_singleton] at h
    rcases h with h | rfl
    · obtain ⟨b, hb, hspec⟩ := ihb n h
      exact ⟨b, List.mem_append_left _ hb, hspec⟩
    · exact ⟨_, List.mem_append_right _ List.mem_cons_self, rfl, rfl⟩
  | tagged before d ih =>
    simp only [heads, List.mem_append, List.mem_singleton] at h
    rcases h with h | rfl
    · obtain ⟨b, hb, hspec⟩ := ih n h
      exact ⟨b, List.mem_append_left _ hb, hspec⟩
    · exact ⟨_, List.mem_append_right _ List.mem_cons_self, rfl, rfl⟩

end Blocks

theorem roots_eq_nil_iff {t : Items} {n : Nat} : t.roots n = [] ↔ t = empty := by
  cases t <;> simp [roots]

/-- The positions of the blocks whose parent is at `k`. -/
def childrenAt (bs : List Block) (k : Nat) : List Nat :=
  (bs.filter (·.parent = some k)).map (·.index)

theorem childrenAt_append (bs cs : List Block) (k : Nat) :
    childrenAt (bs ++ cs) k = childrenAt bs k ++ childrenAt cs k := by
  simp [childrenAt]

theorem childrenAt_cons (b : Block) (bs : List Block) (k : Nat) :
    childrenAt (b :: bs) k = (if b.parent = some k then [b.index] else []) ++ childrenAt bs k := by
  unfold childrenAt
  by_cases h : b.parent = some k <;> simp [h]

/-- A block outside has the items as its children if they stand in it. -/
theorem childrenAt_blocks_outside (t : Items) {parent : Option Nat} {n k : Nat}
    (hk : k < n ∨ n + t.size ≤ k) :
    childrenAt (t.blocks parent n) k = if parent = some k then t.roots n else [] := by
  induction t generalizing parent n with
  | empty => simp [blocks, roots, childrenAt]
  | group before o inner c ihb ihi =>
    simp only [size] at hk
    have hne : ¬ some (n + before.size) = some k := by
      rw [Option.some.injEq]
      omega
    simp only [blocks, roots, childrenAt_append, childrenAt_cons, block]
    rw [ihb (by omega), ihi (by omega), if_neg hne]
    split <;> simp
  | tagged before d ih =>
    simp only [size] at hk
    simp only [blocks, roots, childrenAt_append, childrenAt_cons, block]
    rw [ih (by omega)]
    split <;> simp [childrenAt]

/-- The children a block lists are those that name it as their parent. -/
theorem children_eq_childrenAt (t : Items) {parent : Option Nat} {n : Nat}
    (hparent : ∀ p, parent = some p → p < n) {b : Block} (hb : b ∈ t.blocks parent n) :
    b.children = childrenAt (t.blocks parent n) b.index := by
  induction t generalizing parent n with
  | empty => simp [blocks] at hb
  | group before o inner c ihb ihi =>
    have hroot {k : Nat} (hk : n ≤ k) : ¬ parent = some k := fun heq => by
      have hlt := hparent k heq
      omega
    simp only [blocks, List.mem_append, List.mem_cons] at hb
    simp only [blocks, childrenAt_append, childrenAt_cons]
    rcases hb with hb | rfl | hb
    · obtain ⟨hle, hlt⟩ := index_bounds before parent n hb
      have hne : ¬ some (n + before.size) = some b.index := by
        rw [Option.some.injEq]
        omega
      rw [← ihb hparent hb, childrenAt_blocks_outside inner (by omega), if_neg hne]
      simp [block, hroot hle]
    · have hle : n ≤ n + before.size := by omega
      have hindex : (block parent (n + before.size) o (c.line - 1)
          (inner.roots (n + before.size + 1))).index = n + before.size := rfl
      rw [hindex, childrenAt_blocks_outside before (by omega),
        childrenAt_blocks_outside inner (by omega), if_neg (hroot hle)]
      simp [block, hroot hle]
    · obtain ⟨hle, hlt⟩ := index_bounds inner _ _ hb
      have hn : n ≤ b.index := by omega
      rw [← ihi (fun p hp => by cases hp; omega) hb, childrenAt_blocks_outside before (by omega),
        if_neg (hroot hn)]
      simp [block, hroot hn]
  | tagged before d ih =>
    have hroot {k : Nat} (hk : n ≤ k) : ¬ parent = some k := fun heq => by
      have hlt := hparent k heq
      omega
    simp only [blocks, List.mem_append, List.mem_singleton] at hb
    simp only [blocks, childrenAt_append, childrenAt_cons]
    rcases hb with hb | rfl
    · obtain ⟨hle, hlt⟩ := index_bounds before parent n hb
      rw [← ih hparent hb]
      simp [block, hroot hle, childrenAt]
    · have hle : n ≤ n + before.size := by omega
      have hindex : (block parent (n + before.size) d (d.line + 1) []).index =
          n + before.size := rfl
      rw [hindex, childrenAt_blocks_outside before (by omega), if_neg (hroot hle)]
      simp [block, hroot hle, childrenAt]

theorem contains_block {parent : Option Nat} {index last i : Nat} {o : Directive}
    {children : List Nat} :
    (block parent index o last children).contains i = true ↔ o.line < i ∧ i ≤ last := by
  change (decide (o.line + 1 ≤ i) && decide (i ≤ last)) = true ↔ _
  rw [Bool.and_eq_true, decide_eq_true_eq, decide_eq_true_eq, Nat.succ_le_iff]

section Own
variable {ls : List Line} {bs : List Block}

/-- The items cover what the blocks at their roots contain. -/
theorem nests_roots (t : Items) {parent : Option Nat} {n : Nat}
    (hplaced : ∀ b ∈ t.blocks parent n, bs[b.index]? = some b) (i : Nat) :
    ((t.roots n).any fun k => (bs[k]?).any (·.contains i)) = true ↔ t.Covers i := by
  induction t generalizing parent n with
  | empty => simp [roots, Covers]
  | group before o inner c ihb ihi =>
    simp only [blocks, List.mem_append, List.mem_cons] at hplaced
    have hbefore := ihb fun b hb => hplaced b (.inl hb)
    have hown : bs[n + before.size]? = some _ := hplaced _ (.inr (.inl rfl))
    rw [roots, List.any_append, Bool.or_eq_true, hbefore, List.any_cons, hown, Option.any_some,
      List.any_nil, Bool.or_false, contains_block, Covers]
    refine or_congr_right ⟨fun h => ?_, fun h => ?_⟩ <;> omega
  | tagged before d ih =>
    simp only [blocks, List.mem_append, List.mem_singleton] at hplaced
    have hbefore := ih fun b hb => hplaced b (.inl hb)
    have hown : bs[n + before.size]? = some _ := hplaced _ (.inr rfl)
    rw [roots, List.any_append, Bool.or_eq_true, hbefore, List.any_cons, hown, Option.any_some,
      List.any_nil, Bool.or_false, contains_block, Covers]
    refine or_congr_right ⟨fun h => ?_, fun h => ?_⟩ <;> omega

theorem hasOwnLine_eq_true_iff {b : Block} :
    hasOwnLine ls bs b = true ↔
      (b.children ≠ [] → ∃ l ∈ ls, b.contains l.index = true ∧ l.isOwnText = true ∧
        ¬ (b.children.any fun k => (bs[k]?).any (·.contains l.index)) = true) := by
  unfold hasOwnLine ownText nests
  rw [Bool.or_eq_true, List.isEmpty_iff, ← Decidable.or_iff_not_imp_left, List.any_eq_true]
  simp only [List.mem_filter, Bool.and_eq_true, Bool.not_eq_true, Bool.not_eq_true', and_assoc]

/-- The blocks keep lines of their own exactly when the items do. -/
theorem hasOwnLine_iff (t : Items) {parent : Option Nat} {n : Nat}
    (hplaced : ∀ b ∈ t.blocks parent n, bs[b.index]? = some b) :
    (∀ b ∈ t.blocks parent n, hasOwnLine ls bs b = true) ↔ t.OwnLines ls := by
  induction t generalizing parent n with
  | empty => simp [blocks, OwnLines]
  | group before o inner c ihb ihi =>
    simp only [blocks, List.mem_append, List.mem_cons] at hplaced
    have hbefore := ihb fun b hb => hplaced b (.inl hb)
    have hinner := fun b hb => hplaced b (.inr (.inr hb))
    have hown : hasOwnLine ls bs (block parent (n + before.size) o (c.line - 1)
        (inner.roots (n + before.size + 1))) = true ↔
        (inner ≠ empty → ∃ l ∈ ls, (o.line < l.index ∧ l.index < c.line) ∧
          l.isOwnText = true ∧ ¬ inner.Covers l.index) := by
      rw [hasOwnLine_eq_true_iff]
      have hlast (i : Nat) : (o.line < i ∧ i ≤ c.line - 1) ↔ (o.line < i ∧ i < c.line) := by omega
      simp only [contains_block, hlast]
      change (inner.roots _ ≠ [] → _) ↔ _
      simp only [block, nests_roots inner hinner, ne_eq, roots_eq_nil_iff]
    rw [blocks, OwnLines, List.forall_mem_append, List.forall_mem_cons, hbefore, hown, ihi hinner,
      and_comm (a := inner.OwnLines ls)]
  | tagged before d ih =>
    simp only [blocks, List.mem_append, List.mem_singleton] at hplaced
    have hbefore := ih fun b hb => hplaced b (.inl hb)
    have hown : hasOwnLine ls bs (block parent (n + before.size) d (d.line + 1) []) = true :=
      hasOwnLine_eq_true_iff.mpr fun h => absurd rfl h
    rw [blocks, OwnLines, List.forall_mem_append, hbefore]
    simp [hown]

end Own

end Items

end CommentToggle.Block
