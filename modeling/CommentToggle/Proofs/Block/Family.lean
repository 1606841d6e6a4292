import CommentToggle.Proofs.Block.Arena

/-!
How blocks refer to each other and to the lines. The children of a block are the blocks
that name it as their parent; a parent comes before its children and its range takes
theirs in; and every range ends within the lines. So a block that shares a line with an
earlier one is a child of it or lies inside one of its children.
-/
namespace CommentToggle.Block

def parentOf (bs : List Block) (k : Nat) : Option Nat := bs[k]?.bind (·.parent)

theorem parentOf_eq {bs : List Block} {k : Nat} {b : Block} (h : bs[k]? = some b) :
    parentOf bs k = b.parent := by simp [parentOf, h]

theorem parentOf_eq_join (bs : List Block) (k : Nat) :
    parentOf bs k = (bs[k]?.map (·.parent)).join := by
  rw [parentOf]
  cases bs[k]? <;> rfl

theorem lt_of_parentOf {bs : List Block} {c k : Nat} (h : parentOf bs c = some k) :
    c < bs.length := by
  obtain ⟨b, hb, -⟩ := Option.bind_eq_some_iff.mp h
  exact (List.getElem?_eq_some_iff.mp hb).1

namespace Forming

section Grown

variable (f : Forming) (d : Directive) (first last : Nat)

theorem parentOf_grown (k : Nat) : parentOf (f.grown d first last) k =
    if k = f.blocks.length then f.parent else parentOf f.blocks k := by
  simp only [parentOf_eq_join]
  rw [map_getElem?_grown f d first last (·.parent) (fun _ _ => rfl)]
  split <;> rfl

theorem mem_childrenOf_grown_iff (hvalid : ∀ o ∈ f.opened, o < f.blocks.length) {c k : Nat} :
    c ∈ childrenOf (f.grown d first last) k ↔
      c ∈ childrenOf f.blocks k ∨ (c = f.blocks.length ∧ f.parent = some k) := by
  have hold : childrenOf (f.blocks ++ [f.fresh d first last]) k = childrenOf f.blocks k := by
    unfold childrenOf
    by_cases hk : k < f.blocks.length
    · rw [List.getElem?_append_left hk]
    · rw [List.getElem?_append_right (by omega), List.getElem?_eq_none (l := f.blocks) (by omega)]
      by_cases hzero : k - f.blocks.length = 0
      · simp [hzero, fresh]
      · rw [List.getElem?_eq_none (by simp; omega)]
  rw [grown, childrenOf_adopt, hold]
  split
  · rename_i hparent
    rw [List.mem_append, List.mem_singleton, and_iff_left hparent.1]
  · rename_i hparent
    have hnot : f.parent ≠ some k := by
      intro heq
      have hk := hvalid k (List.mem_of_mem_head? heq)
      exact hparent ⟨heq, by simp; omega⟩
    simp [hnot]

end Grown

theorem parentOf_ended (bs : List Block) (i line k : Nat) :
    parentOf (ended bs i line) k = parentOf bs k := by
  simp only [parentOf_eq_join, ended]
  rw [map_getElem?_modify (·.parent) (f := fun b => { b with last := line - 1 }) (fun _ => rfl)]

/-- How the blocks formed so far refer to each other and to `n` lines. -/
structure Linked (n : Nat) (f : Forming) : Prop where
  within : ∀ k < f.blocks.length, lastOf f.blocks k < n
  children : ∀ c k, c ∈ childrenOf f.blocks k ↔ parentOf f.blocks c = some k
  parent : ∀ c k, parentOf f.blocks c = some k → k < c ∧
    firstOf f.blocks k ≤ firstOf f.blocks c ∧
    (k ∈ f.opened ∨ (c ∉ f.opened ∧ lastOf f.blocks c ≤ lastOf f.blocks k))

theorem linked_start (n : Nat) : Linked n start where
  within := by simp [start]
  children := by simp [start, childrenOf, parentOf]
  parent := by simp [start, parentOf]

theorem Linked.grow {n m : Nat} {f : Forming} (h : Linked n f) (hnested : Nested m f)
    {d : Directive} {first last : Nat} {os : List Nat}
    (hos : ∀ i < f.blocks.length, i ∈ os ↔ i ∈ f.opened) (hfirst : m ≤ first) (hlast : last < n) :
    Linked n ⟨f.grown d first last, os⟩ where
  within := by
    intro k hk
    rw [length_grown] at hk
    rw [lastOf_grown]
    split
    · exact hlast
    · exact h.within k (by omega)
  children := by
    intro c k
    rw [mem_childrenOf_grown_iff f d first last hnested.valid, parentOf_grown, h.children]
    by_cases hnew : c = f.blocks.length
    · have hnone : parentOf f.blocks c ≠ some k := by
        intro hparent
        have hlt := lt_of_parentOf hparent
        omega
      simp [hnew, hnew ▸ hnone]
    · simp [hnew]
  parent := by
    intro c k hparent
    rw [parentOf_grown] at hparent
    simp only [firstOf_grown, lastOf_grown]
    by_cases hnew : c = f.blocks.length
    · rw [if_pos hnew] at hparent
      have hmem : k ∈ f.opened := List.mem_of_mem_head? hparent
      have hk := hnested.valid k hmem
      rw [if_neg (by omega), if_pos hnew]
      exact ⟨by omega, Nat.le_trans (hnested.first_le k hk) hfirst, Or.inl ((hos k hk).mpr hmem)⟩
    · rw [if_neg hnew] at hparent
      have hc := lt_of_parentOf hparent
      obtain ⟨hlt, hle, hcase⟩ := h.parent c k hparent
      rw [if_neg (by omega), if_neg hnew, if_neg hnew, if_neg (by omega)]
      refine ⟨hlt, hle, ?_⟩
      rcases hcase with hopen | ⟨hclosed, hlast⟩
      · exact Or.inl ((hos k (by omega)).mpr hopen)
      · exact Or.inr ⟨fun hmem => hclosed ((hos c hc).mp hmem), hlast⟩

/-- A parent that is closed takes its children in, all of which were closed before. -/
theorem Linked.close {n m line i : Nat} {f : Forming} {outer : List Nat} (h : Linked n f)
    (hnested : Nested m f) (hopened : f.opened = i :: outer) (hm : m ≤ line) (hline : line < n) :
    Linked n ⟨ended f.blocks i line, outer⟩ where
  within := by
    intro k hk
    rw [length_ended] at hk
    rw [lastOf_ended _ _ _ _ (hnested.valid i (innermost_mem hopened))]
    split
    · omega
    · exact h.within k hk
  children := by
    intro c k
    rw [childrenOf_ended, parentOf_ended]
    exact h.children c k
  parent := by
    intro c k hparent
    rw [parentOf_ended] at hparent
    have hi := hnested.valid i (innermost_mem hopened)
    obtain ⟨hlt, hle, hcase⟩ := h.parent c k hparent
    simp only [firstOf_ended, lastOf_ended _ _ _ _ hi]
    refine ⟨hlt, hle, ?_⟩
    by_cases hki : k = i
    · have hclosed : c ∉ f.opened := by
        intro hmem
        have hci := hnested.opened_le hopened hmem
        omega
      have hlast := hnested.last_lt c (lt_of_parentOf hparent) hclosed
      rw [if_neg (by omega), if_pos hki.symm]
      exact Or.inr ⟨fun hmem => hclosed (mem_opened hopened hmem), by omega⟩
    · rcases hcase with hopen | ⟨hclosed, hlast⟩
      · exact Or.inl (mem_outer hopened hopen hki)
      · have hci : i ≠ c := fun heq => hclosed (heq ▸ innermost_mem hopened)
        rw [if_neg hci, if_neg (Ne.symm hki)]
        exact Or.inr ⟨fun hmem => hclosed (mem_opened hopened hmem), hlast⟩

theorem Linked.step {ls : List Line} {m : Nat} {f g : Forming} {d : Directive}
    (h : Linked ls.length f) (hnested : Nested m f) (hm : m ≤ d.line) (hline : d.line < ls.length)
    (hstep : step ls f d = .ok g) : Linked ls.length g := by
  rcases step_cases hstep with ⟨-, -, rfl⟩ | ⟨-, i, outer, hopened, rfl⟩ |
    ⟨-, -, ⟨l, hl, -⟩, rfl⟩
  · refine h.grow hnested (fun i hi => ?_) (by omega) hline
    rw [List.mem_cons, or_iff_right (by omega)]
  · exact h.close hnested hopened hm hline
  · exact h.grow hnested (fun _ _ => Iff.rfl) (by omega) (List.getElem?_eq_some_iff.mp hl).1

theorem Linked.run {ls : List Line} {ds : List Directive} {m : Nat} {f g : Forming}
    (hordered : Ordered ls ds) (hlines : ∀ d ∈ ds, d.line < ls.length) (h : Linked ls.length f)
    (hnested : Nested m f) (hm : ∀ d ∈ ds, m ≤ d.line)
    (hrun : ds.foldlM (Forming.step ls) f = .ok g) : Linked ls.length g := by
  induction ds generalizing m f with
  | nil =>
    cases hrun
    exact h
  | cons d ds ih =>
    rw [List.foldlM_cons] at hrun
    obtain ⟨next, hstep, hrest⟩ := Outcome.bind_eq_ok_iff.mp hrun
    have hd := hm d (by simp)
    exact ih hordered.tail (fun e he => hlines e (List.mem_cons_of_mem d he))
      (h.step hnested hd (hlines d (by simp)) hstep) (hnested.step hd hstep)
      (fun e he => hordered.reach_le hstep he) hrest

end Forming

/-- The blocks of a document with `n` lines as a family. -/
structure Family (n : Nat) (bs : List Block) : Prop where
  within : ∀ b ∈ bs, b.last < n
  children : ∀ b ∈ bs, ∀ c, c ∈ b.children ↔ parentOf bs c = some b.index
  parent : ∀ b ∈ bs, ∀ p, b.parent = some p → ∃ c, bs[p]? = some c ∧ c.Encloses b
  between : ∀ b ∈ bs, ∀ c ∈ bs, b.index < c.index →
    ∀ i, b.contains i = true → c.contains i = true →
      ∃ e ∈ bs, e.parent = some b.index ∧ (e = c ∨ e.Encloses c)

/-- A parent comes before its children. -/
theorem Family.parentOf_lt {n : Nat} {bs : List Block} (h : Family n bs) (harena : Arena bs)
    (k p : Nat) (hp : parentOf bs k = some p) : p < k := by
  obtain ⟨b, hb, hparent⟩ := Option.bind_eq_some_iff.mp hp
  obtain ⟨c, hc, hencloses⟩ := h.parent b (List.mem_of_getElem? hb) p hparent
  have hbefore := hencloses.before
  rwa [harena.index p c hc, harena.index k b hb] at hbefore

theorem family_of_resolve {ls : List Line} {ds : List Directive} {bs : List Block}
    (hordered : Forming.Ordered ls ds) (hlines : ∀ d ∈ ds, d.line < ls.length)
    (harena : Arena bs) (h : resolve ls ds = .ok bs) : Family ls.length bs := by
  obtain ⟨f, hrun, hopen, -, rfl⟩ := resolve_eq_ok_iff.mp h
  obtain ⟨m, hnested⟩ := Forming.nested_start.run hordered (fun d _ => Nat.zero_le _) hrun
  have hlinked := (Forming.linked_start ls.length).run hordered hlines Forming.nested_start
    (fun d _ => Nat.zero_le _) hrun
  have hclosed : f.opened = [] := Forming.openBlocks_eq_nil hnested.valid hopen
  refine ⟨?_, ?_, ?_, ?_⟩
  · intro b hb
    have hget := harena.getElem?_index hb
    rw [← lastOf_eq hget]
    exact hlinked.within b.index (List.getElem?_eq_some_iff.mp hget).1
  · intro b hb c
    rw [← childrenOf_eq (harena.getElem?_index hb)]
    exact hlinked.children c b.index
  · intro b hb p hp
    have hget := harena.getElem?_index hb
    obtain ⟨hlt, hfirst, hcase⟩ := hlinked.parent b.index p (by rw [parentOf_eq hget, hp])
    have hb' := (List.getElem?_eq_some_iff.mp hget).1
    obtain ⟨c, hc⟩ : ∃ c, f.blocks[p]? = some c :=
      ⟨f.blocks[p], List.getElem?_eq_getElem (by omega)⟩
    rw [hclosed] at hcase
    obtain ⟨-, hlast⟩ := hcase.resolve_left (by simp)
    rw [firstOf_eq hget, firstOf_eq hc] at hfirst
    rw [lastOf_eq hget, lastOf_eq hc] at hlast
    exact ⟨c, hc, by rw [harena.index p c hc]; exact hlt, hfirst, hlast⟩
  · intro b hb c hc hbc i hin hin'
    have hget := harena.getElem?_index hb
    have hget' := harena.getElem?_index hc
    have hc' := (List.getElem?_eq_some_iff.mp hget').1
    simp only [contains, Bool.and_eq_true, decide_eq_true_eq] at hin hin'
    rcases hnested.behind b.index c.index hbc hc' (by rw [hclosed]; simp) with
      hlt | ⟨-, -, k, hk, hkc, hcovers⟩
    · rw [lastOf_eq hget, firstOf_eq hget'] at hlt
      omega
    · obtain ⟨e, he⟩ : ∃ e, f.blocks[k]? = some e :=
        ⟨f.blocks[k], List.getElem?_eq_getElem (by omega)⟩
      have hparent : e.parent = some b.index := by
        rw [← parentOf_eq he]
        exact (hlinked.children k b.index).mp hk
      have hindex := harena.index k e he
      unfold Covers at hcovers
      rw [firstOf_eq he, firstOf_eq hget', lastOf_eq he, lastOf_eq hget'] at hcovers
      refine ⟨e, List.mem_of_getElem? he, hparent, ?_⟩
      by_cases heq : k = c.index
      · exact Or.inl (harena.eq_of_index (List.mem_of_getElem? he) hc (hindex.trans heq))
      · exact Or.inr ⟨by omega, hcovers.1, hcovers.2⟩

end CommentToggle.Block
