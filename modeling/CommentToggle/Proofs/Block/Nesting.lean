import CommentToggle.Proofs.Block.Forming

/-!
How the ranges of blocks lie to each other. While the blocks are being formed,
everything that came after an open block lies within it, and everything that came
after a closed one either lies behind it or within it, inside one of its children. So two
blocks that share a line are nested, and a line that is in a block but in none of
its children is in no later block at all.
-/
namespace CommentToggle.Block

/-- The range of one block takes in that of another. -/
def Covers (bs : List Block) (k j : Nat) : Prop :=
  firstOf bs k ≤ firstOf bs j ∧ lastOf bs j ≤ lastOf bs k

namespace Forming

/-- Each open block is a child of the next one out. -/
def Path (bs : List Block) : List Nat → Prop
  | [] => True
  | [_] => True
  | i :: o :: rest => i ∈ childrenOf bs o ∧ Path bs (o :: rest)

/-- A child of an open block that `j` is in, or will be once that child is closed. -/
def Inside (f : Forming) (k j : Nat) : Prop :=
  ∃ c ∈ childrenOf f.blocks k, k < c ∧ c ≤ j ∧
    (c = j ∨ c ∈ f.opened ∨ (j ∉ f.opened ∧ Covers f.blocks c j))

/-- Blocks formed from directives that all stand before line `n`. -/
structure Nested (n : Nat) (f : Forming) : Prop where
  valid : ∀ o ∈ f.opened, o < f.blocks.length
  decreasing : f.opened.Pairwise (· > ·)
  path : Path f.blocks f.opened
  first_le : ∀ k < f.blocks.length, firstOf f.blocks k ≤ n
  last_lt : ∀ k < f.blocks.length, k ∉ f.opened → lastOf f.blocks k < n
  inside : ∀ k j, k < j → j < f.blocks.length → k ∈ f.opened →
    firstOf f.blocks k ≤ firstOf f.blocks j ∧ f.Inside k j
  behind : ∀ k j, k < j → j < f.blocks.length → k ∉ f.opened →
    lastOf f.blocks k < firstOf f.blocks j ∨
      (j ∉ f.opened ∧ Covers f.blocks k j ∧
        ∃ c ∈ childrenOf f.blocks k, c ≤ j ∧ Covers f.blocks c j)

theorem nested_start : Nested 0 start where
  valid := by simp [start]
  decreasing := List.Pairwise.nil
  path := trivial
  first_le := by simp [start]
  last_lt := by simp [start]
  inside := by simp [start]
  behind := by simp [start]

theorem Path.mono {bs bs' : List Block}
    (h : ∀ k c, c ∈ childrenOf bs k → c ∈ childrenOf bs' k) {os : List Nat}
    (hp : Path bs os) : Path bs' os := by
  induction os with
  | nil => trivial
  | cons i rest ih =>
    cases rest with
    | nil => trivial
    | cons o rest => exact ⟨h o i hp.1, ih hp.2⟩

theorem Path.tail {bs : List Block} {i : Nat} {os : List Nat} (h : Path bs (i :: os)) :
    Path bs os := by
  cases os with
  | nil => trivial
  | cons o rest => exact h.2

/-- Below any open block but the innermost there is an open child. -/
theorem Path.open_child {bs : List Block} {os : List Nat} (h : Path bs os)
    (hdec : os.Pairwise (· > ·)) {k : Nat} (hk : k ∈ os) :
    os.head? = some k ∨ ∃ c ∈ childrenOf bs k, k < c ∧ c ∈ os := by
  induction os with
  | nil => simp at hk
  | cons i rest ih =>
    rcases List.mem_cons.mp hk with rfl | hk
    · exact Or.inl rfl
    · right
      rcases ih h.tail hdec.tail hk with hhead | ⟨c, hc, hlt, hmem⟩
      · have hki : k < i := List.rel_of_pairwise_cons hdec hk
        cases rest with
        | nil => simp at hhead
        | cons o rest =>
          rw [List.head?_cons, Option.some.injEq] at hhead
          subst hhead
          exact ⟨i, h.1, hki, by simp⟩
      · exact ⟨c, hc, hlt, List.mem_cons_of_mem i hmem⟩

theorem covers_grown {f : Forming} {d : Directive} {first last k j : Nat}
    (hk : k < f.blocks.length) (hj : j < f.blocks.length) (h : Covers f.blocks k j) :
    Covers (f.grown d first last) k j := by
  unfold Covers at h ⊢
  simp only [firstOf_grown, lastOf_grown]
  rw [if_neg (by omega), if_neg (by omega), if_neg (by omega), if_neg (by omega)]
  exact h

theorem Inside.grown {f : Forming} {d : Directive} {first last k j : Nat} {os : List Nat}
    (hj : j < f.blocks.length) (hos : ∀ i < f.blocks.length, i ∈ os ↔ i ∈ f.opened)
    (h : f.Inside k j) : Inside ⟨f.grown d first last, os⟩ k j := by
  obtain ⟨c, hc, hlt, hle, hcase⟩ := h
  refine ⟨c, mem_childrenOf_grown f d first last hc, hlt, hle, ?_⟩
  rcases hcase with heq | hopen | ⟨hclosed, hcovers⟩
  · exact Or.inl heq
  · exact Or.inr (Or.inl ((hos c (by omega)).mpr hopen))
  · right; right
    exact ⟨fun hmem => hclosed ((hos j hj).mp hmem), covers_grown (by omega) hj hcovers⟩

/-- A new block is inside every block that is open. -/
theorem Nested.inside_fresh {n : Nat} {f : Forming} (h : Nested n f) {d : Directive}
    {first last : Nat} {os : List Nat} (hos : ∀ i < f.blocks.length, i ∈ os ↔ i ∈ f.opened)
    {k : Nat} (hk : k ∈ f.opened) :
    Inside ⟨f.grown d first last, os⟩ k f.blocks.length := by
  have hvalid : k < f.blocks.length := h.valid k hk
  rcases h.path.open_child h.decreasing hk with hhead | ⟨c, hc, hkc, hmem⟩
  · exact ⟨f.blocks.length, fresh_mem_childrenOf_grown f d first last hhead hvalid, hvalid,
      Nat.le_refl _, Or.inl rfl⟩
  · have hlt : c < f.blocks.length := h.valid c hmem
    exact ⟨c, mem_childrenOf_grown f d first last hc, hkc, by omega,
      Or.inr (Or.inl ((hos c hlt).mpr hmem))⟩

/-- Adding a block keeps the ranges nested, whether it stays open or not. -/
theorem Nested.grow {n m : Nat} {f : Forming} (h : Nested n f) {d : Directive}
    {first last : Nat} {os : List Nat} (hos : ∀ i < f.blocks.length, i ∈ os ↔ i ∈ f.opened)
    (hvalid : ∀ o ∈ os, o < f.blocks.length + 1) (hdecreasing : os.Pairwise (· > ·))
    (hpath : Path (f.grown d first last) os) (hn : n ≤ first) (hm : first ≤ m)
    (hlast : f.blocks.length ∉ os → last < m) : Nested m ⟨f.grown d first last, os⟩ where
  valid := by
    intro o ho
    simp only [length_grown]
    exact hvalid o ho
  decreasing := hdecreasing
  path := hpath
  first_le := by
    intro k hk
    simp only [length_grown] at hk
    rw [firstOf_grown]
    split
    · exact hm
    · have hold := h.first_le k (by omega)
      omega
  last_lt := by
    intro k hk hclosed
    simp only [length_grown] at hk
    rw [lastOf_grown]
    split
    · rename_i heq
      subst heq
      exact hlast hclosed
    · have hlt : k < f.blocks.length := by omega
      have hold := h.last_lt k hlt fun hmem => hclosed ((hos k hlt).mpr hmem)
      omega
  inside := by
    intro k j hkj hj hopen
    simp only [length_grown] at hj
    have hk : k < f.blocks.length := by omega
    have hopen' : k ∈ f.opened := (hos k hk).mp hopen
    simp only [firstOf_grown]
    rw [if_neg (by omega)]
    by_cases hnew : j = f.blocks.length
    · subst hnew
      rw [if_pos rfl]
      exact ⟨Nat.le_trans (h.first_le k hk) hn, h.inside_fresh hos hopen'⟩
    · have hj' : j < f.blocks.length := by omega
      rw [if_neg hnew]
      obtain ⟨hle, hinside⟩ := h.inside k j hkj hj' hopen'
      exact ⟨hle, hinside.grown hj' hos⟩
  behind := by
    intro k j hkj hj hclosed
    simp only [length_grown] at hj
    have hk : k < f.blocks.length := by omega
    have hclosed' : k ∉ f.opened := fun hmem => hclosed ((hos k hk).mpr hmem)
    simp only [firstOf_grown, lastOf_grown]
    rw [if_neg (by omega)]
    by_cases hnew : j = f.blocks.length
    · left
      rw [if_pos hnew]
      exact Nat.lt_of_lt_of_le (h.last_lt k hk hclosed') hn
    · have hj' : j < f.blocks.length := by omega
      rw [if_neg hnew]
      rcases h.behind k j hkj hj' hclosed' with hlt | ⟨hjclosed, hin, c, hc, hle, hcovers⟩
      · exact Or.inl hlt
      · right
        exact ⟨fun hmem => hjclosed ((hos j hj').mp hmem), covers_grown hk hj' hin, c,
          mem_childrenOf_grown f d first last hc, hle, covers_grown (by omega) hj' hcovers⟩

theorem covers_ended {bs : List Block} {i line k j : Nat} (hi : i < bs.length) (hk : i ≠ k)
    (hj : i ≠ j) (h : Covers bs k j) : Covers (ended bs i line) k j := by
  unfold Covers at h ⊢
  simp only [firstOf_ended, lastOf_ended _ _ _ _ hi]
  rw [if_neg hk, if_neg hj]
  exact h

section Close

variable {n i line k j : Nat} {f : Forming} {outer : List Nat}

theorem mem_opened (hopened : f.opened = i :: outer) (hk : k ∈ outer) : k ∈ f.opened := by
  rw [hopened]
  exact List.mem_cons_of_mem i hk

theorem mem_outer (hopened : f.opened = i :: outer) (hk : k ∈ f.opened) (hne : k ≠ i) :
    k ∈ outer := by
  rw [hopened] at hk
  exact (List.mem_cons.mp hk).resolve_left hne

theorem innermost_mem (hopened : f.opened = i :: outer) : i ∈ f.opened := by
  rw [hopened]
  exact List.mem_cons_self

/-- The innermost open block has the highest position of the open ones. -/
theorem Nested.opened_le (h : Nested n f) (hopened : f.opened = i :: outer) (hk : k ∈ f.opened) :
    k ≤ i := by
  have hdec := h.decreasing
  rw [hopened] at hk hdec
  rcases List.mem_cons.mp hk with rfl | hk
  · exact Nat.le_refl _
  · exact Nat.le_of_lt (List.rel_of_pairwise_cons hdec hk)

/-- A block that is closed takes in everything that came after it. -/
theorem Nested.covers_closed (h : Nested n f) (hopened : f.opened = i :: outer) (hn : n ≤ line)
    (hij : i < j) (hj : j < f.blocks.length) :
    j ∉ f.opened ∧ Covers (ended f.blocks i line) i j := by
  have hi := innermost_mem hopened
  have hclosed : j ∉ f.opened := by
    intro hmem
    have hle := h.opened_le hopened hmem
    omega
  have hlast := h.last_lt j hj hclosed
  refine ⟨hclosed, ?_, ?_⟩
  · simp only [firstOf_ended]
    exact (h.inside i j hij hj hi).1
  · rw [lastOf_ended _ _ _ _ (h.valid i hi), lastOf_ended _ _ _ _ (h.valid i hi),
      if_neg (by omega), if_pos rfl]
    omega

/-- What took in a closed block still does. -/
theorem Nested.covers_after (h : Nested n f) (hopened : f.opened = i :: outer) (hn : n ≤ line)
    (hkj : k ≤ j) (hj : j < f.blocks.length) (hclosed : j ∉ f.opened)
    (hcovers : Covers f.blocks k j) : Covers (ended f.blocks i line) k j := by
  have hi := innermost_mem hopened
  have hji : j ≠ i := fun heq => hclosed (heq ▸ hi)
  by_cases hki : k = i
  · subst hki
    exact (h.covers_closed hopened hn (by omega) hj).2
  · exact covers_ended (h.valid i hi) (Ne.symm hki) (Ne.symm hji) hcovers

theorem Nested.inside_close (h : Nested n f) (hopened : f.opened = i :: outer) (hn : n ≤ line)
    (hkj : k < j) (hj : j < f.blocks.length) (hopen : k ∈ outer) :
    firstOf f.blocks k ≤ firstOf f.blocks j ∧ Inside ⟨ended f.blocks i line, outer⟩ k j := by
  obtain ⟨hle, c, hc, hkc, hcj, hcase⟩ := h.inside k j hkj hj (mem_opened hopened hopen)
  refine ⟨hle, c, by rwa [childrenOf_ended], hkc, hcj, ?_⟩
  rcases hcase with heq | hcopen | ⟨hclosed, hcovers⟩
  · exact Or.inl heq
  · by_cases hci : c = i
    · subst hci
      by_cases heq : c = j
      · exact Or.inl heq
      · obtain ⟨hclosed, hcovers⟩ := h.covers_closed hopened hn (by omega : c < j) hj
        exact Or.inr (Or.inr ⟨fun hjopen => hclosed (mem_opened hopened hjopen), hcovers⟩)
    · exact Or.inr (Or.inl (mem_outer hopened hcopen hci))
  · exact Or.inr (Or.inr ⟨fun hjopen => hclosed (mem_opened hopened hjopen),
      h.covers_after hopened hn hcj hj hclosed hcovers⟩)

/-- The block that is closed now has its own children to be inside; the others keep them. -/
theorem Nested.behind_close (h : Nested n f) (hopened : f.opened = i :: outer) (hn : n ≤ line)
    (hkj : k < j) (hj : j < f.blocks.length) (hclosed : k ∉ outer) :
    lastOf (ended f.blocks i line) k < firstOf f.blocks j ∨
      (j ∉ outer ∧ Covers (ended f.blocks i line) k j ∧
        ∃ c ∈ childrenOf f.blocks k, c ≤ j ∧ Covers (ended f.blocks i line) c j) := by
  have hi := innermost_mem hopened
  by_cases hki : k = i
  · subst hki
    obtain ⟨hjclosed, hin⟩ := h.covers_closed hopened hn hkj hj
    obtain ⟨-, c, hc, hkc, hcj, hcase⟩ := h.inside k j hkj hj hi
    refine Or.inr ⟨fun hjopen => hjclosed (mem_opened hopened hjopen), hin, c, hc, hcj, ?_⟩
    rcases hcase with rfl | hcopen | ⟨-, hcovers⟩
    · exact ⟨Nat.le_refl _, Nat.le_refl _⟩
    · have hle := h.opened_le hopened hcopen
      omega
    · exact h.covers_after hopened hn hcj hj hjclosed hcovers
  · have hclosed' : k ∉ f.opened := fun hopen => hclosed (mem_outer hopened hopen hki)
    rw [lastOf_ended _ _ _ _ (h.valid i hi), if_neg (Ne.symm hki)]
    rcases h.behind k j hkj hj hclosed' with hlt | ⟨hjclosed, hin, c, hc, hcj, hcovers⟩
    · exact Or.inl hlt
    · exact Or.inr ⟨fun hjopen => hjclosed (mem_opened hopened hjopen),
        h.covers_after hopened hn (Nat.le_of_lt hkj) hj hjclosed hin, c, hc, hcj,
        h.covers_after hopened hn hcj hj hjclosed hcovers⟩

theorem Nested.close (h : Nested n f) (hopened : f.opened = i :: outer) (hn : n ≤ line) :
    Nested (line + 1) ⟨ended f.blocks i line, outer⟩ where
  valid := by
    intro o ho
    simp only [length_ended]
    exact h.valid o (mem_opened hopened ho)
  decreasing := by
    have hdec := h.decreasing
    rw [hopened] at hdec
    exact hdec.tail
  path := by
    have hpath := h.path
    rw [hopened] at hpath
    exact hpath.tail.mono fun k c hc => by rwa [childrenOf_ended]
  first_le := by
    intro k hk
    simp only [length_ended] at hk
    rw [firstOf_ended]
    have hold := h.first_le k hk
    omega
  last_lt := by
    intro k hk hclosed
    simp only [length_ended] at hk
    rw [lastOf_ended _ _ _ _ (h.valid i (innermost_mem hopened))]
    split
    · omega
    · rename_i hne
      have hold := h.last_lt k hk fun hopen => hclosed (mem_outer hopened hopen (Ne.symm hne))
      omega
  inside := by
    intro k j hkj hj hopen
    simp only [length_ended] at hj
    simp only [firstOf_ended]
    exact h.inside_close hopened hn hkj hj hopen
  behind := by
    intro k j hkj hj hclosed
    simp only [length_ended] at hj
    simp only [firstOf_ended, childrenOf_ended]
    exact h.behind_close hopened hn hkj hj hclosed

end Close

/-- The first line that a later directive can stand on. -/
def reach (d : Directive) : Nat := if d.kind = .tagging then d.line + 2 else d.line + 1

theorem Nested.step {ls : List Line} {n : Nat} {f g : Forming} {d : Directive} (h : Nested n f)
    (hn : n ≤ d.line) (hstep : step ls f d = .ok g) : Nested (reach d) g := by
  have hmono {first last : Nat} : Path (f.grown d first last) f.opened :=
    h.path.mono fun k c hc => mem_childrenOf_grown f d first last hc
  rcases step_cases hstep with ⟨hkind, -, rfl⟩ | ⟨hkind, i, outer, hopened, rfl⟩ |
    ⟨hkind, -, -, rfl⟩
  · have hreach : reach d = d.line + 1 := by simp [reach, hkind]
    rw [hreach]
    refine h.grow ?_ ?_ ?_ ?_ (by omega) (Nat.le_refl _) (by simp)
    · intro i hi
      rw [List.mem_cons, or_iff_right (by omega)]
    · intro o ho
      rcases List.mem_cons.mp ho with rfl | ho
      · omega
      · have hlt := h.valid o ho
        omega
    · exact List.pairwise_cons.mpr ⟨fun o ho => h.valid o ho, h.decreasing⟩
    · cases hopened : f.opened with
      | nil => trivial
      | cons o rest =>
        have ho : o < f.blocks.length := h.valid o (by rw [hopened]; simp)
        have hpath : Path (f.grown d (d.line + 1) d.line) f.opened := hmono
        rw [hopened] at hpath
        exact ⟨fresh_mem_childrenOf_grown f d _ _ (by rw [hopened]; rfl) ho, hpath⟩
  · have hreach : reach d = d.line + 1 := by simp [reach, hkind]
    rw [hreach]
    exact h.close hopened hn
  · have hreach : reach d = d.line + 2 := by simp [reach, hkind]
    rw [hreach]
    refine h.grow (fun _ _ => Iff.rfl) ?_ h.decreasing hmono (by omega) (by omega) (by omega)
    intro o ho
    have hlt := h.valid o ho
    omega

/-- Directives stand on lines of their own, in order. -/
structure Ordered (ls : List Line) (ds : List Directive) : Prop where
  increasing : ds.Pairwise (·.line < ·.line)
  marked : ∀ d ∈ ds, ∀ l, ls[d.line]? = some l → l.directive = true

theorem Ordered.tail {ls : List Line} {d : Directive} {ds : List Directive}
    (h : Ordered ls (d :: ds)) : Ordered ls ds :=
  ⟨h.increasing.tail, fun e he => h.marked e (List.mem_cons_of_mem d he)⟩

/-- The line that a tagging tags carries no directive, so the next one is behind it. -/
theorem Ordered.reach_le {ls : List Line} {f g : Forming} {d : Directive} {ds : List Directive}
    (h : Ordered ls (d :: ds)) (hstep : Forming.step ls f d = .ok g) {e : Directive} (he : e ∈ ds) :
    reach d ≤ e.line := by
  have hlt : d.line < e.line := List.rel_of_pairwise_cons h.increasing he
  unfold reach
  split
  · rename_i hkind
    rcases step_cases hstep with ⟨hopening, _⟩ | ⟨hclosing, _⟩ | ⟨_, _, ⟨l, hl, hplain⟩, _⟩
    · rw [hkind] at hopening
      exact absurd hopening (by simp)
    · rw [hkind] at hclosing
      exact absurd hclosing (by simp)
    · have hne : e.line ≠ d.line + 1 := by
        intro heq
        have hdirective := h.marked e (List.mem_cons_of_mem d he) l (by rw [heq]; exact hl)
        rw [hplain] at hdirective
        exact absurd hdirective (by simp)
      omega
  · omega

theorem Nested.run {ls : List Line} {ds : List Directive} {n : Nat} {f g : Forming}
    (hordered : Ordered ls ds) (h : Nested n f) (hn : ∀ d ∈ ds, n ≤ d.line)
    (hrun : ds.foldlM (Forming.step ls) f = .ok g) : ∃ m, Nested m g := by
  induction ds generalizing n f with
  | nil =>
    cases hrun
    exact ⟨n, h⟩
  | cons d ds ih =>
    rw [List.foldlM_cons] at hrun
    obtain ⟨next, hstep, hrest⟩ := Outcome.bind_eq_ok_iff.mp hrun
    exact ih hordered.tail (h.step (hn d (by simp)) hstep)
      (fun e he => hordered.reach_le hstep he) hrest

end Forming

end CommentToggle.Block
