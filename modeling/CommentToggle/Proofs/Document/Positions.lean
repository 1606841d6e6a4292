import CommentToggle.Proofs.Document.Ancestors
import CommentToggle.Proofs.Selection.Sets

/-!
No position leads nowhere. While blocks are formed, what stands on the stack, the parents
and the children are blocks formed before, and no range leaves the lines. In a document
that was read, each line of a range is there when the block is read, going outwards from
a block ends, and the members of a group set are blocks, at least one of them.
-/
namespace CommentToggle

namespace Block.Forming

/-- The positions that `f` holds lead to its own blocks and to one of `n` lines. -/
structure Placed (n : Nat) (f : Forming) : Prop where
  opened : ∀ o ∈ f.opened, o < f.blocks.length
  top : ∀ group, f.openBlocks.any (·.group = group) = true →
    ∃ i outer b, f.opened = i :: outer ∧ f.blocks[i]? = some b
  within : ∀ b ∈ f.blocks, b.last < n
  children : ∀ b ∈ f.blocks, ∀ c ∈ b.children, c < f.blocks.length
  parent : ∀ b ∈ f.blocks, ∀ p ∈ b.parent, p < f.blocks.length

theorem Linked.placed {n m : Nat} {f : Forming} (h : Linked n f) (hnested : Nested m f) :
    Placed n f where
  opened := hnested.valid
  top := by
    intro group hany
    cases hopened : f.opened with
    | nil => simp [openBlocks, hopened] at hany
    | cons i outer =>
      exact ⟨i, outer, _, rfl, List.getElem?_eq_getElem (hnested.valid i (innermost_mem hopened))⟩
  within := by
    intro b hb
    obtain ⟨k, hk⟩ := List.mem_iff_getElem?.mp hb
    rw [← lastOf_eq hk]
    exact h.within k (List.getElem?_eq_some_iff.mp hk).1
  children := by
    intro b hb c hc
    obtain ⟨k, hk⟩ := List.mem_iff_getElem?.mp hb
    rw [← childrenOf_eq hk, h.children] at hc
    exact lt_of_parentOf hc
  parent := by
    intro b hb p hp
    obtain ⟨k, hk⟩ := List.mem_iff_getElem?.mp hb
    have hparent : parentOf f.blocks k = some p := (parentOf_eq hk).trans hp
    exact Nat.lt_trans (h.parent k p hparent).1 (lt_of_parentOf hparent)

theorem Ordered.take {ls : List Line} {ds : List Directive} (h : Ordered ls ds) (n : Nat) :
    Ordered ls (ds.take n) where
  increasing := h.increasing.sublist (List.take_sublist n ds)
  marked := fun d hd => h.marked d (List.mem_of_mem_take hd)

/-- However many directives have been read, all positions lead somewhere. -/
theorem placed_of_run {ls : List Line} {ds : List Directive} {n : Nat} {f : Forming}
    (hordered : Ordered ls ds) (hlines : ∀ d ∈ ds, d.line < ls.length)
    (hrun : (ds.take n).foldlM (Forming.step ls) .start = .ok f) : Placed ls.length f := by
  have hstart : ∀ d ∈ ds.take n, 0 ≤ d.line := fun d _ => Nat.zero_le _
  obtain ⟨m, hnested⟩ := nested_start.run (hordered.take n) hstart hrun
  have hlinked := (linked_start ls.length).run (hordered.take n)
    (fun d hd => hlines d (List.mem_of_mem_take hd)) nested_start hstart hrun
  exact hlinked.placed hnested

end Block.Forming

namespace Document

/-- The positions in a document lead to its own blocks and lines. -/
structure Placed (d : Document) : Prop where
  blocks : ∀ b ∈ d.blocks, d.blocks[b.index]? = some b
  lines : ∀ b ∈ d.blocks, ∀ i, b.contains i = true → ∃ l, d.lines[i]? = some l ∧ l.index = i
  children : ∀ b ∈ d.blocks, ∀ c ∈ b.children, c < d.blocks.length
  ancestors : ∀ b ∈ d.blocks, ∀ i ∈ d.ancestors b, i < b.index
  outward : ∀ b ∈ d.blocks, ∀ n, climb d.blocks (d.blocks.length + n) b.parent = d.ancestors b
  members : ∀ g ∈ d.groupSets, g.members ≠ [] ∧ ∀ i ∈ g.members, i < d.blocks.length
  reading : ∀ k, d.states.drop k = statesFrom d.style (d.peeledBefore k) (d.blocks.drop k)
  peeled : ∀ k, (d.peeledBefore k).map Prod.fst = d.lines

theorem placed_of_read {s : Style} {t : Text} {d : Document} (h : read s t = .ok d) :
    d.Placed := by
  have hsound := sound_of_read h
  have hfamily := family_of_read h
  have harena := hsound.arena
  refine ⟨fun b hb => harena.getElem?_index hb, ?_, ?_, ?_, ?_, ?_, d.drop_states,
    d.map_fst_peeledBefore⟩
  · intro b hb i hin
    simp only [Block.contains, Bool.and_eq_true, decide_eq_true_eq] at hin
    have hlast := hfamily.within b hb
    have hget : d.lines[i]? = some d.lines[i] := List.getElem?_eq_getElem (by omega)
    exact ⟨_, hget, hsound.indexed i _ hget⟩
  · intro b hb c hc
    exact Block.lt_of_parentOf ((hfamily.children b hb c).mp hc)
  · intro b hb i hi
    obtain ⟨c, hc, hencloses⟩ := encloses_of_mem_ancestors harena hfamily hb hi
    rw [← harena.index i c hc]
    exact hencloses.before
  · intro b hb n
    have hbound : ∀ p ∈ b.parent, p < d.blocks.length := by
      intro p hp
      obtain ⟨c, hc, -⟩ := hfamily.parent b hb p hp
      exact (List.getElem?_eq_some_iff.mp hc).1
    refine climb_congr (hfamily.parentOf_lt harena) (fun p hp => ?_) hbound
    have hp' := hbound p hp
    omega
  · intro g hg
    rw [hsound.sets] at hg
    refine ⟨GroupSet.members_ne_nil d.blocks g hg, fun i hi => ?_⟩
    obtain ⟨b, hb, rfl, -⟩ := (GroupSet.divides_ofBlocks harena).member g hg i hi
    exact (List.getElem?_eq_some_iff.mp (harena.getElem?_index hb)).1

end Document

end CommentToggle
