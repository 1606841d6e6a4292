import CommentToggle.Proofs.Document.Ancestors

/-!
The blocks that hold a line form one way out. The innermost of them comes last, and before
it stand exactly the blocks met by going from parent to parent, outermost first. So two
ranges never overlap in part, and a way out ends because each parent comes before its
children.
-/
namespace CommentToggle

namespace Document

/-- Going from parent to parent until a block has none. -/
inductive Climbs (bs : List Block) : Option Nat → List Nat → Prop
  | root : Climbs bs none []
  | parent {i : Nat} {b : Block} {rest : List Nat} : bs[i]? = some b → Climbs bs b.parent rest →
      Climbs bs (some i) (i :: rest)

section Family

variable {d : Document} {n : Nat} {b c : Block}

theorem climbs_ancestors (harena : Block.Arena d.blocks) (hfamily : Block.Family n d.blocks)
    (hb : b ∈ d.blocks) : Climbs d.blocks b.parent (d.ancestors b) := by
  induction hk : b.index using Nat.strong_induction_on generalizing b with
  | _ k ih =>
    cases hparent : b.parent with
    | none =>
      rw [ancestors_of_root hparent]
      exact .root
    | some p =>
      obtain ⟨c, hc, hencloses⟩ := hfamily.parent b hb p hparent
      rw [ancestors_of_parent harena hfamily hparent hc]
      exact .parent hc (ih c.index (hk ▸ hencloses.before) (List.mem_of_getElem? hc) rfl)

/-- Before the last block that holds a line stand the blocks around it. -/
theorem map_index_outer (harena : Block.Arena d.blocks) (hfamily : Block.Family n d.blocks)
    {line : Nat} {outer : List Block} (h : d.containing line = outer ++ [b]) :
    outer.map (·.index) = (d.ancestors b).reverse := by
  have hlast : b ∈ d.containing line := h ▸ List.mem_append_right outer (List.mem_singleton_self b)
  obtain ⟨hb, hin⟩ := List.mem_filter.mp hlast
  have hincreasing : (outer ++ [b]).Pairwise (·.index < ·.index) := by
    rw [← h]
    exact harena.increasing.filter _
  obtain ⟨houter, -, hbefore⟩ := List.pairwise_append.mp hincreasing
  refine map_index_eq_ancestors harena hfamily hb hin houter fun c => ?_
  rw [h, List.mem_append, List.mem_singleton]
  constructor
  · intro hc
    exact ⟨Or.inl hc, hbefore c hc b (List.mem_singleton_self b)⟩
  · rintro ⟨hc | rfl, hlt⟩
    · exact hc
    · exact absurd hlt (Nat.lt_irrefl _)

theorem outer_eq_ancestors (harena : Block.Arena d.blocks) (hfamily : Block.Family n d.blocks)
    {line : Nat} {outer : List Block} (h : d.containing line = outer ++ [b]) :
    outer.map some = (d.ancestors b).reverse.map (d.blocks[·]?) := by
  rw [← map_index_outer harena hfamily h, List.map_map]
  refine List.map_congr_left fun c hc => ?_
  have hmem : c ∈ d.containing line := h ▸ List.mem_append_left [b] hc
  exact (harena.getElem?_index (List.mem_filter.mp hmem).1).symm

/-- Two ranges share no line, or one lies in the other. -/
theorem laminar (harena : Block.Arena d.blocks) (hb : b ∈ d.blocks) (hc : c ∈ d.blocks) :
    (∀ i, b.contains i = true → c.contains i = false) ∨
      (∀ i, c.contains i = true → b.contains i = true) ∨
      (∀ i, b.contains i = true → c.contains i = true) := by
  by_cases hshared : ∃ i, b.contains i = true ∧ c.contains i = true
  · right
    obtain ⟨i, hin, hin'⟩ := hshared
    rcases Nat.lt_trichotomy b.index c.index with hlt | heq | hlt
    · exact Or.inl fun j hj => (harena.encloses_of_contains hb hc hlt hin hin').contains hj
    · obtain rfl := harena.eq_of_index hb hc heq
      exact Or.inl fun _ hj => hj
    · exact Or.inr fun j hj => (harena.encloses_of_contains hc hb hlt hin' hin).contains hj
  · left
    intro i hin
    by_contra hin'
    exact hshared ⟨i, hin, by simpa using hin'⟩

end Family

/-- The blocks that hold a line are none, or the innermost one behind all blocks around it,
outermost first. Ranges are disjoint or nested, a parent comes before its children, and
going from parent to parent ends. -/
theorem containing_eq_ancestors {s : Style} {t : Text} {d : Document} (h : read s t = .ok d) :
    (∀ line, d.containing line = [] ∨ ∃ outer b, d.containing line = outer ++ [b] ∧
      outer.map some = (d.ancestors b).reverse.map (d.blocks[·]?)) ∧
    (∀ b ∈ d.blocks, ∀ c ∈ d.blocks,
      (∀ i, b.contains i = true → c.contains i = false) ∨
        (∀ i, c.contains i = true → b.contains i = true) ∨
        (∀ i, b.contains i = true → c.contains i = true)) ∧
    (∀ b ∈ d.blocks, (∀ p ∈ b.parent, p < b.index) ∧ ∀ c ∈ b.children, b.index < c) ∧
    ∀ b ∈ d.blocks, Climbs d.blocks b.parent (d.ancestors b) := by
  have harena := (sound_of_read h).arena
  have hfamily := family_of_read h
  refine ⟨fun line => ?_, fun b hb c hc => laminar harena hb hc, fun b hb => ⟨?_, ?_⟩,
    fun b hb => climbs_ancestors harena hfamily hb⟩
  · rcases List.eq_nil_or_concat (d.containing line) with hnil | ⟨outer, b, hsplit⟩
    · exact Or.inl hnil
    · rw [List.concat_eq_append] at hsplit
      exact Or.inr ⟨outer, b, hsplit, outer_eq_ancestors harena hfamily hsplit⟩
  · intro p hp
    have hparent : Block.parentOf d.blocks b.index = some p :=
      (Block.parentOf_eq (harena.getElem?_index hb)).trans hp
    exact hfamily.parentOf_lt harena b.index p hparent
  · intro c hc
    exact hfamily.parentOf_lt harena c b.index ((hfamily.children b hb c).mp hc)

/-- A tagged line in a group in a flag. -/
theorem containing_eq_ancestors_tagged :
    ∃ d, read .hash ("# smc:flag p\nn\n# smc:begin a\nx\n# smc:line b\ny\n# smc:end\n" ++
        "# smc:end\n").toList = .ok d ∧
      (d.containing 5).map (·.group) = [['p'], ['a'], ['b']] ∧
      ∃ outer b, d.containing 5 = outer ++ [b] ∧ d.ancestors b = [1, 0] ∧
        outer.map some = (d.ancestors b).reverse.map (d.blocks[·]?) := by
  obtain ⟨d, hread, hd⟩ := Outcome.exists_of_passes
    (x := read .hash ("# smc:flag p\nn\n# smc:begin a\nx\n# smc:line b\ny\n# smc:end\n" ++
      "# smc:end\n").toList)
    (p := fun d => decide ((d.containing 5).map (·.group) = [['p'], ['a'], ['b']] ∧
      ((d.containing 5).getLast?).map d.ancestors = some [1, 0])) (by decide +kernel)
  obtain ⟨hgroups, hlast⟩ := of_decide_eq_true hd
  rcases (containing_eq_ancestors hread).1 5 with hnil | ⟨outer, b, hsplit, houter⟩
  · simp [hnil] at hgroups
  · rw [hsplit, List.getLast?_concat, Option.map_some, Option.some.injEq] at hlast
    exact ⟨d, hread, hgroups, outer, b, hsplit, hlast, houter⟩

end Document

end CommentToggle
