import CommentToggle.Block.Resolve
import CommentToggle.Proofs.Outcome

/-!
What one directive does to the blocks being formed: an opening adds a block and
leaves it open, a closing ends the innermost open one, a tagging adds a block of
one line. Ranges and children are read by position, and each operation changes
them at one position only.
-/
namespace CommentToggle.Block

def firstOf (bs : List Block) (k : Nat) : Nat := (bs[k]?.map (·.first)).getD 0

def lastOf (bs : List Block) (k : Nat) : Nat := (bs[k]?.map (·.last)).getD 0

def childrenOf (bs : List Block) (k : Nat) : List Nat := (bs[k]?.map (·.children)).getD []

section At
variable {bs : List Block} {k : Nat} {b : Block}

theorem firstOf_eq (h : bs[k]? = some b) : firstOf bs k = b.first := by simp [firstOf, h]

theorem lastOf_eq (h : bs[k]? = some b) : lastOf bs k = b.last := by simp [lastOf, h]

theorem childrenOf_eq (h : bs[k]? = some b) : childrenOf bs k = b.children := by
  simp [childrenOf, h]

end At

theorem map_getElem?_modify {α : Type} (g : Block → α) {f : Block → Block}
    (hg : ∀ b, g (f b) = g b) (bs : List Block) (i k : Nat) :
    (bs.modify i f)[k]?.map g = bs[k]?.map g := by
  rw [List.getElem?_modify]
  cases bs[k]? with
  | none => rfl
  | some b =>
    change some (g (if i = k then f b else b)) = some (g b)
    split
    · rw [hg]
    · rfl

namespace Forming

theorem map_getElem?_adopt {α : Type} (g : Block → α)
    (hg : ∀ b cs, g { b with children := cs } = g b) (bs : List Block) (c : Nat)
    (p : Option Nat) (k : Nat) : (adopt bs c p)[k]?.map g = bs[k]?.map g := by
  cases p with
  | none => rfl
  | some i => exact map_getElem?_modify g (fun b => hg b _) bs i k

theorem length_adopt (bs : List Block) (c : Nat) (p : Option Nat) :
    (adopt bs c p).length = bs.length := by
  cases p with
  | none => rfl
  | some i => exact List.length_modify _ bs i

theorem childrenOf_adopt (bs : List Block) (c : Nat) (p : Option Nat) (k : Nat) :
    childrenOf (adopt bs c p) k =
      if p = some k ∧ k < bs.length then childrenOf bs k ++ [c] else childrenOf bs k := by
  unfold childrenOf
  cases p with
  | none => simp [adopt]
  | some i =>
    rw [adopt, List.getElem?_modify]
    by_cases hk : k < bs.length
    · by_cases hik : i = k
      · simp [hik, hk]
      · simp [hik]
    · simp [hk]

/-- The block that a directive adds. -/
def fresh (f : Forming) (d : Directive) (first last : Nat) : Block :=
  ⟨f.blocks.length, d.group, first, last, d.line, f.parent, d.exclusive, [], d.condition⟩

/-- The blocks once one is added in the innermost open scope. -/
def grown (f : Forming) (d : Directive) (first last : Nat) : List Block :=
  adopt (f.blocks ++ [f.fresh d first last]) f.blocks.length f.parent

theorem append_eq_ok_iff {f g : Forming} {d : Directive} {first last : Nat} :
    f.append d first last = .ok g ↔
      f.hasSibling d.group = false ∧ g = ⟨f.grown d first last, f.opened⟩ := by
  unfold append
  split
  · rename_i h
    simp [h]
  · rename_i h
    simp only [Bool.not_eq_true] at h
    simp only [Except.ok.injEq, h, true_and]
    exact eq_comm

section Grown
variable (f : Forming) (d : Directive) (first last : Nat)

theorem length_grown : (f.grown d first last).length = f.blocks.length + 1 := by
  simp [grown, length_adopt]

theorem map_getElem?_grown {α : Type} (g : Block → α)
    (hg : ∀ b cs, g { b with children := cs } = g b) (k : Nat) :
    (f.grown d first last)[k]?.map g =
      if k = f.blocks.length then some (g (f.fresh d first last)) else f.blocks[k]?.map g := by
  rw [grown, map_getElem?_adopt g hg]
  split
  · rename_i h
    simp [h]
  · rename_i h
    by_cases hk : k < f.blocks.length
    · rw [List.getElem?_append_left hk]
    · rw [List.getElem?_append_right (by omega), List.getElem?_eq_none (by simp; omega),
        List.getElem?_eq_none (by omega)]

theorem firstOf_grown (k : Nat) : firstOf (f.grown d first last) k =
    if k = f.blocks.length then first else firstOf f.blocks k := by
  unfold firstOf
  rw [map_getElem?_grown f d first last (·.first) (fun _ _ => rfl)]
  split <;> rfl

theorem lastOf_grown (k : Nat) : lastOf (f.grown d first last) k =
    if k = f.blocks.length then last else lastOf f.blocks k := by
  unfold lastOf
  rw [map_getElem?_grown f d first last (·.last) (fun _ _ => rfl)]
  split <;> rfl

theorem mem_childrenOf_grown {c k : Nat} (h : c ∈ childrenOf f.blocks k) :
    c ∈ childrenOf (f.grown d first last) k := by
  have hold : c ∈ childrenOf (f.blocks ++ [f.fresh d first last]) k := by
    unfold childrenOf at h ⊢
    cases hk : f.blocks[k]? with
    | none => simp [hk] at h
    | some b =>
      have hlt : k < f.blocks.length := (List.getElem?_eq_some_iff.mp hk).1
      rw [List.getElem?_append_left hlt]
      exact h
  rw [grown, childrenOf_adopt]
  split
  · exact List.mem_append_left _ hold
  · exact hold

/-- The new block is a child of the innermost open one. -/
theorem fresh_mem_childrenOf_grown {p : Nat} (hp : f.opened.head? = some p)
    (hlt : p < f.blocks.length) :
    f.blocks.length ∈ childrenOf (f.grown d first last) p := by
  rw [grown, childrenOf_adopt, if_pos]
  · exact List.mem_append_right _ (by simp)
  · exact ⟨hp, by simp; omega⟩

end Grown

section Closed
variable (bs : List Block) (i line k : Nat)

def ended : List Block := bs.modify i fun b => { b with last := line - 1 }

theorem length_ended : (ended bs i line).length = bs.length := List.length_modify _ bs i

theorem firstOf_ended : firstOf (ended bs i line) k = firstOf bs k := by
  unfold firstOf ended
  rw [map_getElem?_modify (·.first) (f := fun b => { b with last := line - 1 }) (fun _ => rfl)]

theorem childrenOf_ended : childrenOf (ended bs i line) k = childrenOf bs k := by
  unfold childrenOf ended
  rw [map_getElem?_modify (·.children) (f := fun b => { b with last := line - 1 }) (fun _ => rfl)]

theorem lastOf_ended (hi : i < bs.length) :
    lastOf (ended bs i line) k = if i = k then line - 1 else lastOf bs k := by
  unfold lastOf ended
  rw [List.getElem?_modify]
  by_cases hik : i = k
  · subst hik
    simp [hi]
  · simp [hik]

end Closed

/-- Everything that reading one directive can do. -/
theorem step_cases {ls : List Line} {f g : Forming} {d : Directive} (h : step ls f d = .ok g) :
    (d.kind = .opening ∧ f.hasSibling d.group = false ∧
      g = ⟨f.grown d (d.line + 1) d.line, f.blocks.length :: f.opened⟩) ∨
    (d.kind = .closing ∧ ∃ i outer, f.opened = i :: outer ∧ g = ⟨ended f.blocks i d.line, outer⟩) ∨
    (d.kind = .tagging ∧ f.hasSibling d.group = false ∧
      (∃ l, ls[d.line + 1]? = some l ∧ l.directive = false) ∧
      g = ⟨f.grown d (d.line + 1) (d.line + 1), f.opened⟩) := by
  unfold step at h
  cases hkind : d.kind with
  | opening =>
    left
    rw [hkind] at h
    obtain ⟨a, ha, hg⟩ := Outcome.bind_eq_ok_iff.mp h
    obtain ⟨hnew, rfl⟩ := append_eq_ok_iff.mp ha
    cases hg
    exact ⟨rfl, hnew, rfl⟩
  | closing =>
    right; left
    rw [hkind] at h
    simp only [close?] at h
    split at h
    · rename_i i outer top rest hopened hblocks
      split at h
      · cases h
        exact ⟨rfl, i, outer, hopened, rfl⟩
      · split at h <;> simp at h
    · simp at h
  | tagging =>
    right; right
    rw [hkind] at h
    simp only [tag?] at h
    split at h
    · simp at h
    · rename_i l hl
      split at h
      · simp at h
      · rename_i hdirective
        obtain ⟨hnew, hg⟩ := append_eq_ok_iff.mp h
        exact ⟨rfl, hnew, ⟨l, hl, by simpa using hdirective⟩, hg⟩

end Forming

end CommentToggle.Block
