import CommentToggle.Proofs.Directive.Ending
import CommentToggle.Proofs.Listing.Groups

/-!
How far the rows of the listing are indented. A row goes two spaces further in than the row
of the first block that has the name of its parent, not that of the parent itself, so where
a name is given in several scopes a row may be shown too far out or too far in. All rows
are indented by the blocks around them exactly when every block with nested blocks lies as
deep as the first block of its name.
-/
namespace CommentToggle

open Text

namespace Listing

/-- The number of spaces that a row begins with. -/
def indent (row : Text) : Nat := (row.takeWhile (· = ' ')).length

theorem indent_row {g : GroupInfo} (h : Flush g.group) (depth : Nat) :
    indent (row depth g) = 2 * depth := by
  obtain ⟨c, rest, hgroup, hc⟩ := h
  have hspace : c ≠ ' ' := by
    intro heq
    subst heq
    exact absurd hc (by decide)
  have hin : ∀ a ∈ List.replicate (2 * depth) ' ', decide (a = ' ') = true := by
    intro a ha
    rw [List.eq_of_mem_replicate ha]
    rfl
  simp only [indent, row, padTo, hgroup, List.append_assoc, List.cons_append]
  rw [List.takeWhile_append_of_pos hin]
  simp [hspace]

theorem newline_not_mem_row {g : GroupInfo} (hgroup : '\n' ∉ g.group) (hkind : '\n' ∉ g.kind)
    (depth : Nat) : '\n' ∉ row depth g := by
  have hline : '\n' ∉ Nat.toDigits 10 g.line := by
    intro hmem
    exact absurd (Nat.isDigit_of_mem_toDigits (by omega) (by omega) hmem) (by decide)
  have hstate : '\n' ∉ stateText g := by
    unfold stateText
    split
    · decide
    · split <;> decide
  simp [row, padTo, hgroup, hkind, hline, hstate]

theorem joinWith_eq_intercalate (sep : Text) (ts : List Text) :
    joinWith sep ts = sep.intercalate ts := by
  fun_induction joinWith sep ts with
  | case1 => rfl
  | case2 t => rw [List.intercalate_singleton]
  | case3 t u rest ih => rw [ih, List.intercalate_cons_cons, List.append_assoc]

/-- The rows of a table can be told apart. -/
theorem splitOn_table {gs : List GroupInfo} (hne : gs ≠ [])
    (hgroups : ∀ g ∈ gs, '\n' ∉ g.group ∧ '\n' ∉ g.kind) :
    (table gs).splitOn '\n' = gs.map fun g => row ((depth? gs g).getD 0) g := by
  rw [table, joinWith_eq_intercalate]
  refine List.splitOn_intercalate '\n' (fun t ht => ?_) (by simpa using hne)
  obtain ⟨g, hg, rfl⟩ := List.mem_map.mp ht
  exact newline_not_mem_row (hgroups g hg).1 (hgroups g hg).2 _

end Listing

namespace Document

/-- The first block with the name. -/
def firstNamed (d : Document) (name : Text) : Option Block := d.blocks.find? (·.group = name)

/-- Going from a block to the first block with the name of its parent, and so on until a
block has no parent; with the number of steps. -/
inductive OutByName (d : Document) : Block → Nat → Prop
  | root {b : Block} : b.parent = none → OutByName d b 0
  | parent {b c e : Block} {p n : Nat} : b.parent = some p → d.blocks[p]? = some c →
      d.firstNamed c.group = some e → OutByName d e n → OutByName d b (n + 1)

section Family

variable {d : Document} {n : Nat} {b c : Block}

theorem repeatable_of_read {s : Style} {t : Text} (h : read s t = .ok d) (hb : b ∈ d.blocks) :
    Directive.Repeatable b.group := by
  obtain ⟨-, hscan, -, hresolve, -⟩ := read_eq_ok_iff.mp h
  obtain ⟨e, he, hkind, hgroup⟩ := Block.origin_of_resolve hresolve hb
  obtain ⟨l, -, hline⟩ :=
    Directive.exists_line_of_scanFrom (Directive.scan_eq_ok_iff.mp hscan) he hkind
  rw [← hgroup]
  exact Directive.repeatable_of_ofLine? hline hkind

theorem exists_firstNamed (harena : Block.Arena d.blocks) (hc : c ∈ d.blocks) :
    ∃ e ∈ d.blocks, d.firstNamed c.group = some e ∧ e.index ≤ c.index := by
  cases hfirst : d.firstNamed c.group with
  | none =>
    have hnot := List.find?_eq_none.mp hfirst c hc
    simp at hnot
  | some e =>
    obtain ⟨-, before, after, hblocks, hbefore⟩ := List.find?_eq_some_iff_append.mp hfirst
    refine ⟨e, List.mem_of_find?_eq_some hfirst, rfl, ?_⟩
    have hincreasing := harena.increasing
    rw [hblocks, List.mem_append, List.mem_cons] at hc
    rw [hblocks, List.pairwise_append] at hincreasing
    rcases hc with hc | rfl | hc
    · have hnot := hbefore c hc
      simp at hnot
    · exact Nat.le_refl _
    · exact Nat.le_of_lt ((List.pairwise_cons.mp hincreasing.2.1).1 c hc)

/-- The way out by names ends, since each step leads to an earlier block. -/
theorem exists_outByName (harena : Block.Arena d.blocks) (hfamily : Block.Family n d.blocks)
    (hb : b ∈ d.blocks) : ∃ m ≤ b.index, d.OutByName b m := by
  induction hk : b.index using Nat.strong_induction_on generalizing b with
  | _ k ih =>
    cases hparent : b.parent with
    | none => exact ⟨0, Nat.zero_le _, .root hparent⟩
    | some p =>
      obtain ⟨c, hc, hencloses⟩ := hfamily.parent b hb p hparent
      obtain ⟨e, he, hfirst, hle⟩ := exists_firstNamed harena (List.mem_of_getElem? hc)
      have hbefore := hencloses.before
      obtain ⟨m, hm, hout⟩ := ih e.index (by omega) he rfl
      exact ⟨m + 1, by omega, .parent hparent hc hfirst hout⟩

theorem parentOf_describe (d : Document) (name : Text) : Listing.parentOf d.describe name =
    (d.firstNamed name).bind fun e => (d.infoOf e).parent := by
  rw [Listing.parentOf, describe_eq_map, List.find?_map, Option.bind_map]
  rfl

/-- The listing counts the steps of the way out by names. -/
theorem OutByName.depthWithin? {m k : Nat} (h : d.OutByName b m) (hle : m ≤ k) :
    Listing.depthWithin? d.describe k (d.infoOf b).parent = some m := by
  induction h generalizing k with
  | root hparent =>
    rw [infoOf, hparent]
    cases k <;> rfl
  | @parent b c e p m hparent hc hfirst _ ih =>
    obtain ⟨k, rfl⟩ : ∃ j, k = j + 1 := ⟨k - 1, by omega⟩
    have hname : (d.infoOf b).parent = some c.group := by simp [infoOf, hparent, hc]
    rw [hname, Listing.depthWithin?, parentOf_describe, hfirst, Option.bind_some,
      ih (Nat.le_of_succ_le_succ hle)]
    rfl

theorem OutByName.unique {m k : Nat} (h : d.OutByName b m) (h' : d.OutByName b k) : m = k := by
  have hsame := h.depthWithin? (Nat.le_max_left m k)
  rw [h'.depthWithin? (Nat.le_max_right m k), Option.some.injEq] at hsame
  exact hsame.symm

theorem OutByName.depth? {m : Nat} (h : d.OutByName b m) (hle : m ≤ d.blocks.length) :
    Listing.depth? d.describe (d.infoOf b) = some m := by
  refine h.depthWithin? ?_
  rw [describe_eq_map, List.length_map]
  omega

/-- Among blocks whose steps lead to blocks as deep as their parents, names lead out in as
many steps as there are blocks around. -/
theorem outByName_ancestors {S : Block → Prop} (harena : Block.Arena d.blocks)
    (hfamily : Block.Family n d.blocks) (hS : ∀ b, S b → b ∈ d.blocks ∧ ∀ p c e,
      b.parent = some p → d.blocks[p]? = some c → d.firstNamed c.group = some e →
        S e ∧ (d.ancestors e).length = (d.ancestors c).length)
    (hb : S b) : d.OutByName b (d.ancestors b).length := by
  induction hk : b.index using Nat.strong_induction_on generalizing b with
  | _ k ih =>
    obtain ⟨hmem, hnext⟩ := hS b hb
    cases hparent : b.parent with
    | none =>
      rw [ancestors_of_root hparent]
      exact .root hparent
    | some p =>
      obtain ⟨c, hc, hencloses⟩ := hfamily.parent b hmem p hparent
      obtain ⟨e, -, hfirst, hle⟩ := exists_firstNamed harena (List.mem_of_getElem? hc)
      obtain ⟨he, hdepth⟩ := hnext p c e hparent hc hfirst
      have hbefore := hencloses.before
      have hout := ih e.index (by omega) he rfl
      rw [hdepth] at hout
      rw [ancestors_of_parent harena hfamily hparent hc, List.length_cons]
      exact .parent hparent hc hfirst hout

/-- Every block with nested blocks lies as deep as the first block of its name. -/
def DeepAsNamed (d : Document) : Prop :=
  ∀ c ∈ d.blocks, c.children ≠ [] → ∀ e ∈ d.firstNamed c.group,
    (d.ancestors e).length = (d.ancestors c).length

instance (d : Document) : Decidable d.DeepAsNamed :=
  inferInstanceAs (Decidable (∀ c ∈ d.blocks, c.children ≠ [] →
    ∀ e ∈ d.firstNamed c.group, (d.ancestors e).length = (d.ancestors c).length))

theorem outByName_iff_deepAsNamed (harena : Block.Arena d.blocks)
    (hfamily : Block.Family n d.blocks) :
    (∀ b ∈ d.blocks, d.OutByName b (d.ancestors b).length) ↔ d.DeepAsNamed := by
  constructor
  · intro hout c hc hnests e hfirst
    obtain ⟨i, hi⟩ := List.exists_mem_of_ne_nil _ hnests
    obtain ⟨b, hb, hparent⟩ :=
      Option.bind_eq_some_iff.mp ((hfamily.children c hc i).mp hi)
    have hget := harena.getElem?_index hc
    have hlong := hout b (List.mem_of_getElem? hb)
    have hshort := hout e (List.mem_of_find?_eq_some hfirst)
    rw [ancestors_of_parent harena hfamily hparent hget, List.length_cons] at hlong
    exact Nat.succ.inj ((OutByName.parent hparent hget hfirst hshort).unique hlong)
  · intro hdeep b hb
    refine outByName_ancestors (S := (· ∈ d.blocks)) harena hfamily (fun b hb => ?_) hb
    refine ⟨hb, fun p c e hparent hc hfirst => ⟨List.mem_of_find?_eq_some hfirst, ?_⟩⟩
    have hmem := List.mem_of_getElem? hc
    have hchild : b.index ∈ c.children := by
      rw [hfamily.children c hmem, Block.parentOf_eq (harena.getElem?_index hb), hparent,
        harena.index p c hc]
    exact hdeep c hmem (List.ne_nil_of_mem hchild) e hfirst

/-- Names lead out as far as positions do when all blocks around are the first of their names. -/
theorem outByName_of_first (harena : Block.Arena d.blocks) (hfamily : Block.Family n d.blocks)
    (hb : b ∈ d.blocks) (hfirst : ∀ i ∈ d.ancestors b, ∀ c, d.blocks[i]? = some c →
      d.firstNamed c.group = some c) : d.OutByName b (d.ancestors b).length := by
  refine outByName_ancestors (S := fun b => b ∈ d.blocks ∧ ∀ i ∈ d.ancestors b, ∀ c,
    d.blocks[i]? = some c → d.firstNamed c.group = some c) harena hfamily ?_ ⟨hb, hfirst⟩
  intro b hspec
  obtain ⟨hb, hfirst⟩ := hspec
  refine ⟨hb, fun p c e hparent hc he => ?_⟩
  rw [ancestors_of_parent harena hfamily hparent hc] at hfirst
  rw [hfirst p List.mem_cons_self c hc, Option.some.injEq] at he
  subst he
  exact ⟨⟨List.mem_of_getElem? hc, fun i hi => hfirst i (List.mem_cons_of_mem _ hi)⟩, rfl⟩

end Family

/-- The rows of the table. -/
def rows (d : Document) : List Text := (Listing.table d.describe).splitOn '\n'

section Rows

variable {s : Style} {t : Text} {d : Document} {k : Nat} {b : Block}

theorem rows_eq_map (h : read s t = .ok d) (hne : d.blocks ≠ []) : d.rows = d.blocks.map fun b =>
    Listing.row ((Listing.depth? d.describe (d.infoOf b)).getD 0) (d.infoOf b) := by
  have hkind (b : Block) : '\n' ∉ kindOf b := by
    unfold kindOf
    split
    · decide
    · split <;> decide
  rw [rows, Listing.splitOn_table]
  · rw [describe_eq_map, List.map_map]
    rfl
  · simpa [describe_eq_map] using hne
  · intro g hg
    obtain ⟨b, hb, rfl⟩ := List.mem_map.mp hg
    exact ⟨(repeatable_of_read h hb).unbroken.2, hkind b⟩

theorem indent_rows (h : read s t = .ok d) (hb : d.blocks[k]? = some b) {m : Nat}
    (hout : d.OutByName b m) : (d.rows[k]?).map Listing.indent = some (2 * m) := by
  have hmem := List.mem_of_getElem? hb
  have harena := (sound_of_read h).arena
  obtain ⟨m', hle, hout'⟩ := exists_outByName harena (family_of_read h) hmem
  have hlt := (List.getElem?_eq_some_iff.mp (harena.getElem?_index hmem)).1
  obtain rfl := hout.unique hout'
  rw [rows_eq_map h (List.ne_nil_of_mem hmem), List.getElem?_map, hb, Option.map_some,
    Option.map_some, hout.depth? (by omega), Option.getD_some,
    Listing.indent_row (repeatable_of_read h hmem).flush]

theorem indent_rows_iff (h : read s t = .ok d) (hb : d.blocks[k]? = some b) {m : Nat} :
    (d.rows[k]?).map Listing.indent = some (2 * m) ↔ d.OutByName b m := by
  refine ⟨fun hindent => ?_, indent_rows h hb⟩
  obtain ⟨m', -, hout⟩ := exists_outByName (sound_of_read h).arena (family_of_read h)
    (List.mem_of_getElem? hb)
  rw [indent_rows h hb hout, Option.some.injEq] at hindent
  obtain rfl : m' = m := by omega
  exact hout

end Rows

/-- The table has one row for each block, indented by two spaces per step of the way out by
names. That are two spaces per block around, in all rows exactly when every block with
nested blocks lies as deep as the first block of its name, and in the row of a block
whose surrounding blocks are all the first of their names. -/
theorem table_indented {s : Style} {t : Text} {d : Document} (h : read s t = .ok d) :
    (d.blocks ≠ [] → d.rows.length = d.blocks.length) ∧
    (∀ (k : Nat) (b : Block), d.blocks[k]? = some b → ∃ m, d.OutByName b m ∧
      (d.rows[k]?).map Listing.indent = some (2 * m)) ∧
    ((∀ (k : Nat) (b : Block), d.blocks[k]? = some b →
        (d.rows[k]?).map Listing.indent = some (2 * (d.ancestors b).length)) ↔ d.DeepAsNamed) ∧
    ∀ (k : Nat) (b : Block), d.blocks[k]? = some b →
      (∀ i ∈ d.ancestors b, ∀ c, d.blocks[i]? = some c → d.firstNamed c.group = some c) →
      (d.rows[k]?).map Listing.indent = some (2 * (d.ancestors b).length) := by
  have harena := (sound_of_read h).arena
  have hfamily := family_of_read h
  refine ⟨fun hne => ?_, fun k b hb => ?_, ?_, fun k b hb hfirst => ?_⟩
  · rw [rows_eq_map h hne, List.length_map]
  · obtain ⟨m, -, hout⟩ := exists_outByName harena hfamily (List.mem_of_getElem? hb)
    exact ⟨m, hout, indent_rows h hb hout⟩
  · rw [← outByName_iff_deepAsNamed harena hfamily]
    constructor
    · intro hrows b hb
      have hget := harena.getElem?_index hb
      exact (indent_rows_iff h hget).mp (hrows b.index b hget)
    · intro hout k b hb
      exact indent_rows h hb (hout b (List.mem_of_getElem? hb))
  · exact indent_rows h hb (outByName_of_first harena hfamily (List.mem_of_getElem? hb) hfirst)

/-- Two groups of one name at one depth; and a group of a name that was given further out
before, with the row in it two spaces too far out. -/
theorem table_indented_namesakes :
    (∃ d, read .hash ("# smc:flag p\nn\n# smc:line a\nx\n# smc:end\n# smc:flag q\nn\n" ++
        "# smc:begin a\ny\n# smc:line b\nz\n# smc:end\n# smc:end\n").toList = .ok d ∧
      d.DeepAsNamed ∧ ∃ b, d.blocks[4]? = some b ∧ d.ancestors b = [3, 2] ∧
        (d.rows[4]?).map Listing.indent = some 4) ∧
    ∃ d, read .hash ("# smc:begin x\na\n# smc:end\n# smc:begin y\nb\n# smc:begin x\nc\n" ++
        "# smc:line z\nd\n# smc:end\n# smc:end\n").toList = .ok d ∧
      ¬ d.DeepAsNamed ∧ ∃ b, d.blocks[3]? = some b ∧ d.ancestors b = [2, 1] ∧
        (d.rows[3]?).map Listing.indent = some 2 := by
  constructor
  · obtain ⟨d, hread, hd⟩ := Outcome.exists_of_passes
      (x := read .hash ("# smc:flag p\nn\n# smc:line a\nx\n# smc:end\n# smc:flag q\nn\n" ++
        "# smc:begin a\ny\n# smc:line b\nz\n# smc:end\n# smc:end\n").toList)
      (p := fun d => decide (d.DeepAsNamed ∧ ∃ b ∈ d.blocks[4]?, d.ancestors b = [3, 2]))
      (by decide +kernel)
    obtain ⟨hdeep, b, hb, houter⟩ := of_decide_eq_true hd
    have hindent := (table_indented hread).2.2.1.mpr hdeep 4 b hb
    rw [houter] at hindent
    exact ⟨d, hread, hdeep, b, hb, houter, hindent⟩
  · obtain ⟨d, hread, hd⟩ := Outcome.exists_of_passes
      (x := read .hash ("# smc:begin x\na\n# smc:end\n# smc:begin y\nb\n# smc:begin x\nc\n" ++
        "# smc:line z\nd\n# smc:end\n# smc:end\n").toList)
      (p := fun d => decide (¬ d.DeepAsNamed ∧ (d.rows[3]?).map Listing.indent = some 2 ∧
        ∃ b ∈ d.blocks[3]?, d.ancestors b = [2, 1])) (by decide +kernel)
    obtain ⟨hnot, hindent, b, hb, houter⟩ := of_decide_eq_true hd
    exact ⟨d, hread, hnot, b, hb, houter, hindent⟩

end Document

end CommentToggle
