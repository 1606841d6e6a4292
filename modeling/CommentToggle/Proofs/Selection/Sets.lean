import CommentToggle.Document
import CommentToggle.Proofs.Block.Arena
import Mathlib.Data.List.Basic

/-!
The group sets divide the blocks. Every block is a member of one set and of no other,
the members of a set are of one scope and one kind, and a scope has at most one
exclusive set.
-/
namespace CommentToggle.GroupSet

structure Divides (sets : List GroupSet) (bs : List Block) : Prop where
  member : ∀ g ∈ sets, ∀ k ∈ g.members,
    ∃ b ∈ bs, b.index = k ∧ b.exclusive = g.exclusive ∧ b.parent = g.parent
  nodup : ∀ g ∈ sets, g.members.Nodup
  disjoint : sets.Pairwise fun g h => ∀ k ∈ g.members, k ∉ h.members
  scopes : sets.Pairwise fun g h => g.exclusive = true → h.exclusive = true → g.parent ≠ h.parent
  cover : ∀ b ∈ bs, ∃ g ∈ sets, b.index ∈ g.members

/-- The set with the block as its last member. -/
def joined (b : Block) (g : GroupSet) : GroupSet := { g with members := g.members ++ [b.index] }

/-- The set after the block was offered to it. -/
def offered (b : Block) (g : GroupSet) : GroupSet := if g.accepts b then joined b g else g

theorem accepts_iff {g : GroupSet} {b : Block} :
    g.accepts b = true ↔ g.exclusive = true ∧ b.exclusive = true ∧ g.parent = b.parent := by
  simp [accepts, and_assoc]

theorem mem_offered_iff {g : GroupSet} {b : Block} {k : Nat} :
    k ∈ (offered b g).members ↔ k ∈ g.members ∨ (g.accepts b = true ∧ k = b.index) := by
  unfold offered
  cases g.accepts b <;> simp [joined]

theorem exclusive_offered (b : Block) (g : GroupSet) :
    (offered b g).exclusive = g.exclusive := by
  unfold offered
  split <;> rfl

theorem parent_offered (b : Block) (g : GroupSet) : (offered b g).parent = g.parent := by
  unfold offered
  split <;> rfl

theorem insert_eq (sets : List GroupSet) (b : Block) :
    insert sets b = if sets.any (·.accepts b) then sets.map (offered b)
      else sets ++ [⟨b.parent, b.exclusive, [b.index]⟩] := rfl

section Insert

variable {sets : List GroupSet} {bs : List Block} {b : Block}

theorem Divides.not_mem (h : Divides sets bs) (hfresh : ∀ c ∈ bs, c.index ≠ b.index)
    {g : GroupSet} (hg : g ∈ sets) : b.index ∉ g.members := by
  intro hmem
  obtain ⟨c, hc, hindex, -⟩ := h.member g hg _ hmem
  exact hfresh c hc hindex

theorem Divides.join (h : Divides sets bs) (hfresh : ∀ c ∈ bs, c.index ≠ b.index)
    (hany : sets.any (·.accepts b) = true) : Divides (sets.map (offered b)) (bs ++ [b]) where
  member := by
    intro g' hg' k hk
    obtain ⟨g, hg, rfl⟩ := List.mem_map.mp hg'
    rw [exclusive_offered, parent_offered]
    rcases mem_offered_iff.mp hk with hk | ⟨haccepts, rfl⟩
    · obtain ⟨c, hc, hrest⟩ := h.member g hg k hk
      exact ⟨c, List.mem_append_left _ hc, hrest⟩
    · obtain ⟨hexclusive, hexclusive', hparent⟩ := accepts_iff.mp haccepts
      exact ⟨b, List.mem_append_right _ (List.mem_singleton_self b), rfl,
        hexclusive'.trans hexclusive.symm, hparent.symm⟩
  nodup := by
    intro g' hg'
    obtain ⟨g, hg, rfl⟩ := List.mem_map.mp hg'
    have hnot := h.not_mem hfresh hg
    have hnodup := h.nodup g hg
    unfold offered
    split
    · rw [joined, List.nodup_append]
      exact ⟨hnodup, by simp, by simp; exact fun k hk heq => hnot (heq ▸ hk)⟩
    · exact hnodup
  disjoint := by
    rw [List.pairwise_map]
    apply (h.disjoint.and h.scopes).imp_of_mem
    intro g g' hg hg' ⟨hdisjoint, hscopes⟩ k hk hk'
    rcases mem_offered_iff.mp hk with hk | ⟨haccepts, rfl⟩
    · rcases mem_offered_iff.mp hk' with hk' | ⟨-, rfl⟩
      · exact hdisjoint k hk hk'
      · exact h.not_mem hfresh hg hk
    · rcases mem_offered_iff.mp hk' with hk' | ⟨haccepts', -⟩
      · exact h.not_mem hfresh hg' hk'
      · obtain ⟨hex, -, hparent⟩ := accepts_iff.mp haccepts
        obtain ⟨hex', -, hparent'⟩ := accepts_iff.mp haccepts'
        exact hscopes hex hex' (hparent.trans hparent'.symm)
  scopes := by
    rw [List.pairwise_map]
    apply h.scopes.imp
    intro g g' hscopes
    rw [exclusive_offered, exclusive_offered, parent_offered, parent_offered]
    exact hscopes
  cover := by
    intro c hc
    rcases List.mem_append.mp hc with hc | hc
    · obtain ⟨g, hg, hmem⟩ := h.cover c hc
      exact ⟨_, List.mem_map_of_mem hg, mem_offered_iff.mpr (Or.inl hmem)⟩
    · rw [List.mem_singleton] at hc
      subst hc
      obtain ⟨g, hg, haccepts⟩ := List.any_eq_true.mp hany
      exact ⟨_, List.mem_map_of_mem hg, mem_offered_iff.mpr (Or.inr ⟨haccepts, rfl⟩)⟩

theorem Divides.found (h : Divides sets bs) (hfresh : ∀ c ∈ bs, c.index ≠ b.index)
    (hany : sets.any (·.accepts b) = false) :
    Divides (sets ++ [⟨b.parent, b.exclusive, [b.index]⟩]) (bs ++ [b]) where
  member := by
    intro g hg k hk
    rcases List.mem_append.mp hg with hg | hg
    · obtain ⟨c, hc, hrest⟩ := h.member g hg k hk
      exact ⟨c, List.mem_append_left _ hc, hrest⟩
    · rw [List.mem_singleton] at hg
      subst hg
      rw [List.mem_singleton] at hk
      subst hk
      exact ⟨b, List.mem_append_right _ (List.mem_singleton_self b), rfl, rfl, rfl⟩
  nodup := by
    intro g hg
    rcases List.mem_append.mp hg with hg | hg
    · exact h.nodup g hg
    · rw [List.mem_singleton] at hg
      subst hg
      simp
  disjoint := by
    rw [List.pairwise_append]
    refine ⟨h.disjoint, List.pairwise_singleton _ _, ?_⟩
    intro g hg g' hg' k hk hk'
    rw [List.mem_singleton] at hg'
    subst hg'
    rw [List.mem_singleton] at hk'
    subst hk'
    exact h.not_mem hfresh hg hk
  scopes := by
    rw [List.pairwise_append]
    refine ⟨h.scopes, List.pairwise_singleton _ _, ?_⟩
    intro g hg g' hg' hex hex' hparent
    rw [List.mem_singleton] at hg'
    subst hg'
    have hnot := List.any_eq_false.mp hany g hg
    exact hnot (accepts_iff.mpr ⟨hex, hex', hparent⟩)
  cover := by
    intro c hc
    rcases List.mem_append.mp hc with hc | hc
    · obtain ⟨g, hg, hmem⟩ := h.cover c hc
      exact ⟨g, List.mem_append_left _ hg, hmem⟩
    · rw [List.mem_singleton] at hc
      subst hc
      exact ⟨_, List.mem_append_right _ (List.mem_singleton_self _), List.mem_singleton_self _⟩

theorem Divides.insert (h : Divides sets bs) (hfresh : ∀ c ∈ bs, c.index ≠ b.index) :
    Divides (GroupSet.insert sets b) (bs ++ [b]) := by
  rw [insert_eq]
  split
  · rename_i hany
    exact h.join hfresh hany
  · rename_i hany
    exact h.found hfresh (by simpa using hany)

end Insert

theorem divides_foldl {sets : List GroupSet} {bs cs : List Block} (h : Divides sets bs)
    (hdistinct : (bs ++ cs).Pairwise fun b c => b.index ≠ c.index) :
    Divides (cs.foldl insert sets) (bs ++ cs) := by
  induction cs generalizing sets bs with
  | nil => simpa using h
  | cons c cs ih =>
    have hfresh : ∀ b ∈ bs, b.index ≠ c.index :=
      fun b hb => (List.pairwise_append.mp hdistinct).2.2 b hb c (by simp)
    have hassoc : bs ++ c :: cs = (bs ++ [c]) ++ cs := by simp
    rw [hassoc] at hdistinct ⊢
    exact ih (h.insert hfresh) hdistinct

theorem divides_ofBlocks {bs : List Block} (h : Block.Arena bs) : Divides (ofBlocks bs) bs := by
  have hnone : Divides [] [] := ⟨by simp, by simp, by simp, by simp, by simp⟩
  apply divides_foldl hnone
  rw [List.nil_append]
  exact h.pairwise_index

theorem members_ne_nil_insert {sets : List GroupSet} (h : ∀ g ∈ sets, g.members ≠ [])
    (b : Block) : ∀ g ∈ insert sets b, g.members ≠ [] := by
  intro g hg
  rw [insert_eq] at hg
  split at hg
  · obtain ⟨old, hold, rfl⟩ := List.mem_map.mp hg
    unfold offered
    split
    · simp [joined]
    · exact h old hold
  · rcases List.mem_append.mp hg with hold | hnew
    · exact h g hold
    · rw [List.mem_singleton] at hnew
      subst hnew
      simp

/-- A set is there for its first member. -/
theorem members_ne_nil (bs : List Block) : ∀ g ∈ ofBlocks bs, g.members ≠ [] := by
  have hfold : ∀ sets : List GroupSet, (∀ g ∈ sets, g.members ≠ []) →
      ∀ g ∈ bs.foldl insert sets, g.members ≠ [] := by
    induction bs with
    | nil => exact fun sets h => h
    | cons b bs ih => exact fun sets h => ih _ (members_ne_nil_insert h b)
  exact hfold [] (by simp)

end CommentToggle.GroupSet
