import CommentToggle.Listing
import CommentToggle.Proofs.Document.Ancestors

/-!
What the listing says of a block. A block with text is shown as effective exactly when
some line of its text carries no layer at all, so the flag can be seen from the lines,
whatever states are read on the way. A block without text is as effective as the block
around it, and always is when there is none.
-/
namespace CommentToggle.Document

/-- The row of a block. -/
def infoOf (d : Document) (b : Block) : GroupInfo where
  group := b.group
  kind := kindOf b
  line := b.openedAt + 1
  parent := b.parent.bind fun i => (d.blocks[i]?).map (·.group)
  active := Plan.isActive d.states b.index
  effective := Plan.isActive d.states b.index && (d.ancestors b).all (Plan.isActive d.states)

theorem describe_eq_map (d : Document) : d.describe = d.blocks.map d.infoOf := rfl

theorem effective_infoOf_iff (d : Document) (b : Block) :
    (d.infoOf b).effective = true ↔ d.Effective d.states b := by
  simp only [infoOf, Effective, Bool.and_eq_true, List.all_eq_true]

/-- Some line of the block's text carries no layer. -/
def ShowsBare (d : Document) (b : Block) : Prop :=
  ∃ l ∈ b.ownText d.lines, Layer.strip? d.style l.content = none

/-- The row says of the block what its lines show. -/
structure Truthful (d : Document) (b : Block) (info : GroupInfo) : Prop where
  group : info.group = b.group
  line : info.line = b.openedAt + 1
  text : (∃ l, l ∈ b.ownText d.lines) → (info.effective = true ↔ d.ShowsBare b)
  bare : (¬ ∃ l, l ∈ b.ownText d.lines) →
    (info.effective = true ↔ ∀ c ∈ d.blocks, b.parent = some c.index → d.ShowsBare c)

section Effective

variable {d : Document} {n : Nat} {b : Block} {states : List Bool}

/-- A block is effective when it is active and lies at the top or in an effective block. -/
theorem effective_iff_parent (harena : Block.Arena d.blocks) (hfamily : Block.Family n d.blocks)
    (hb : b ∈ d.blocks) : d.Effective states b ↔ Plan.isActive states b.index = true ∧
      ∀ c ∈ d.blocks, b.parent = some c.index → d.Effective states c := by
  cases hparent : b.parent with
  | none => simp [Effective, ancestors_of_root hparent]
  | some p =>
    obtain ⟨c, hc, -⟩ := hfamily.parent b hb p hparent
    have hindex := harena.index p c hc
    have hout : (∀ e ∈ d.blocks, some p = some e.index → d.Effective states e) ↔
        d.Effective states c := by
      constructor
      · intro hall
        exact hall c (List.mem_of_getElem? hc) (congrArg some hindex.symm)
      · intro heffective e he heq
        rw [Option.some.injEq] at heq
        obtain rfl := harena.eq_of_index he (List.mem_of_getElem? hc) (heq.symm.trans hindex.symm)
        exact heffective
    rw [hout, Effective, Effective, ancestors_of_parent harena hfamily hparent hc, hindex]
    simp

/-- A block with nested blocks has text. -/
theorem Sound.exists_text_of_parent (h : d.Sound) (hfamily : Block.Family n d.blocks)
    {c : Block} (hb : b ∈ d.blocks) (hc : c ∈ d.blocks) (hparent : b.parent = some c.index) :
    ∃ l, l ∈ c.ownText d.lines := by
  have hchild : b.index ∈ c.children := by
    rw [hfamily.children c hc, Block.parentOf_eq (h.arena.getElem?_index hb), hparent]
  obtain ⟨l, hl, -⟩ := (h.leaf_or_own hc).resolve_left (List.ne_nil_of_mem hchild)
  exact ⟨l, hl⟩

theorem truthful_infoOf (h : d.Sound) (hfamily : Block.Family n d.blocks) (hb : b ∈ d.blocks) :
    d.Truthful b (d.infoOf b) where
  group := rfl
  line := rfl
  text := by
    intro htext
    rw [effective_infoOf_iff]
    exact effective_iff h.arena hfamily hb htext
  bare := by
    intro htext
    have hactive := isActive_of_no_text h.arena (h.arena.getElem?_index hb) htext
    rw [effective_infoOf_iff, effective_iff_parent h.arena hfamily hb, and_iff_right hactive]
    refine forall₂_congr fun c hc => imp_congr_right fun hparent => ?_
    exact effective_iff h.arena hfamily hc (h.exists_text_of_parent hfamily hb hc hparent)

end Effective

/-- The listing has one row for each block, in order, and each row is true to the text. -/
theorem describe_truthful {s : Style} {t : Text} {d : Document} (h : read s t = .ok d) :
    List.Forall₂ d.Truthful d.blocks d.describe := by
  have hfamily := family_of_read h
  rw [describe_eq_map, List.forall₂_map_right_iff, List.forall₂_same]
  exact fun b hb => truthful_infoOf (sound_of_read h) hfamily hb

/-- A group that is active and a flag without text, in a flag that is off; behind it a group
with one bare line. -/
theorem describe_truthful_nested :
    ∃ d, read .hash ("# smc:flag p\n#  n\n# smc:begin a\n#x\n# # y\n# smc:end\n" ++
        "# smc:flag e\n# smc:end\n# smc:end\n# smc:begin q\n# note\nz\n# smc:end\n").toList =
        .ok d ∧
      d.describe.map (·.active) = [false, true, true, true] ∧
      d.describe.map (·.effective) = [false, false, false, true] ∧
      List.Forall₂ d.Truthful d.blocks d.describe := by
  obtain ⟨d, hread, hflags⟩ := Outcome.exists_of_passes
    (x := read .hash ("# smc:flag p\n#  n\n# smc:begin a\n#x\n# # y\n# smc:end\n" ++
      "# smc:flag e\n# smc:end\n# smc:end\n# smc:begin q\n# note\nz\n# smc:end\n").toList)
    (p := fun d => decide (d.describe.map (·.active) = [false, true, true, true] ∧
      d.describe.map (·.effective) = [false, false, false, true])) (by decide +kernel)
  obtain ⟨hactive, heffective⟩ := of_decide_eq_true hflags
  exact ⟨d, hread, hactive, heffective, describe_truthful hread⟩

end CommentToggle.Document
