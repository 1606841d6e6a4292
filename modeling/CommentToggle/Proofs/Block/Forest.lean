import CommentToggle.Proofs.Block.Derivation
import CommentToggle.Proofs.Block.Family

/-!
The blocks as a forest. Each block stands over its children, in order. Going through the
forest, each block before those nested in it, meets every block once and in the order of
the openings, which is how the blocks are kept.
-/
namespace CommentToggle

/-- Values in a row, each over the values nested in it. -/
inductive Forest (α : Type)
  | nil
  | cons (root : α) (inner rest : Forest α)
  deriving DecidableEq

namespace Forest

variable {α β : Type}

def map (f : α → β) : Forest α → Forest β
  | nil => nil
  | cons a inner rest => cons (f a) (inner.map f) (rest.map f)

/-- Each value before those nested in it. -/
def flatten : Forest α → List α
  | nil => []
  | cons a inner rest => a :: (inner.flatten ++ rest.flatten)

/-- The given roots in a row, each over a forest of its own. -/
def ofRoots (inner : α → Forest α) : List α → Forest α
  | [] => nil
  | a :: roots => cons a (inner a) (ofRoots inner roots)

theorem flatten_map (f : α → β) (t : Forest α) : (t.map f).flatten = t.flatten.map f := by
  induction t with
  | nil => rfl
  | cons a inner rest ihi ihr => simp [map, flatten, ihi, ihr]

theorem ofRoots_congr {f g : α → Forest α} {roots : List α} (h : ∀ a ∈ roots, f a = g a) :
    ofRoots f roots = ofRoots g roots := by
  induction roots with
  | nil => rfl
  | cons a roots ih =>
    rw [List.forall_mem_cons] at h
    rw [ofRoots, ofRoots, h.1, ih h.2]

theorem flatten_ofRoots_singleton (inner : α → Forest α) (a : α) :
    (ofRoots inner [a]).flatten = a :: (inner a).flatten := by simp [ofRoots, flatten]

theorem flatten_ofRoots_append (inner : α → Forest α) (left right : List α) :
    (ofRoots inner (left ++ right)).flatten =
      (ofRoots inner left).flatten ++ (ofRoots inner right).flatten := by
  induction left with
  | nil => rfl
  | cons a left ih => simp [ofRoots, flatten, ih]

end Forest

namespace Block

/-- The blocks at the given positions. -/
def pick (bs : List Block) (is : List Nat) : List Block := is.filterMap (bs[·]?)

theorem pick_append (bs : List Block) (is js : List Nat) :
    pick bs (is ++ js) = pick bs is ++ pick bs js := List.filterMap_append

theorem pick_singleton {bs : List Block} {i : Nat} {b : Block} (h : bs[i]? = some b) :
    pick bs [i] = [b] := List.filterMap_cons_some h

/-- The blocks inside a block, at most `n` levels of them. -/
def nestedIn (bs : List Block) : Nat → Block → Forest Block
  | 0, _ => .nil
  | n + 1, b => .ofRoots (nestedIn bs n) (pick bs b.children)

section Family

variable {bs : List Block} {n : Nat} {b c : Block}

theorem mem_pick_children (harena : Arena bs) (hfamily : Family n bs) (hb : b ∈ bs) :
    c ∈ pick bs b.children ↔ c ∈ bs ∧ c.parent = some b.index := by
  rw [pick, List.mem_filterMap]
  constructor
  · rintro ⟨i, hi, hc⟩
    refine ⟨List.mem_of_getElem? hc, ?_⟩
    rw [← parentOf_eq hc]
    exact (hfamily.children b hb i).mp hi
  · rintro ⟨hc, hparent⟩
    have hget := harena.getElem?_index hc
    refine ⟨c.index, (hfamily.children b hb c.index).mpr ?_, hget⟩
    rw [parentOf_eq hget]
    exact hparent

theorem index_lt_of_child (harena : Arena bs) (hfamily : Family n bs) (hc : c ∈ bs) {p : Nat}
    (hparent : c.parent = some p) : p < c.index := by
  refine hfamily.parentOf_lt harena c.index p ?_
  rw [parentOf_eq (harena.getElem?_index hc)]
  exact hparent

/-- Below a block there are no more levels than blocks behind it. -/
theorem nestedIn_succ (harena : Arena bs) (hfamily : Family n bs) {k : Nat} (hb : b ∈ bs)
    (hk : bs.length ≤ b.index + k + 1) : nestedIn bs (k + 1) b = nestedIn bs k b := by
  induction k generalizing b with
  | zero =>
    have hnone : pick bs b.children = [] := by
      refine List.eq_nil_iff_forall_not_mem.mpr fun c hmem => ?_
      obtain ⟨hc, hparent⟩ := (mem_pick_children harena hfamily hb).mp hmem
      have hlt := index_lt_of_child harena hfamily hc hparent
      have hlen := (List.getElem?_eq_some_iff.mp (harena.getElem?_index hc)).1
      omega
    change Forest.ofRoots _ (pick bs b.children) = .nil
    rw [hnone]
    rfl
  | succ k ih =>
    refine Forest.ofRoots_congr fun c hmem => ?_
    obtain ⟨hc, hparent⟩ := (mem_pick_children harena hfamily hb).mp hmem
    have hlt := index_lt_of_child harena hfamily hc hparent
    exact ih hc (by omega)

end Family

namespace Items

variable {bs : List Block}

/-- The blocks at the roots of items are those that stand in the same block as the items. -/
theorem pick_roots (t : Items) {parent : Option Nat} {n : Nat}
    (hparent : ∀ p, parent = some p → p < n)
    (hplaced : ∀ b ∈ t.blocks parent n, bs[b.index]? = some b) :
    pick bs (t.roots n) = (t.blocks parent n).filter (·.parent = parent) := by
  induction t generalizing parent n with
  | empty => rfl
  | group before o inner c ihb ihi =>
    simp only [blocks, List.mem_append, List.mem_cons] at hplaced
    have hbefore := ihb hparent fun b hb => hplaced b (.inl hb)
    have hown : bs[n + before.size]? = some _ := hplaced _ (.inr (.inl rfl))
    have hinner : (inner.blocks (some (n + before.size)) (n + before.size + 1)).filter
        (·.parent = parent) = [] := by
      refine List.filter_eq_nil_iff.mpr fun b hb => ?_
      rw [decide_eq_true_eq]
      intro heq
      rcases parent_of_mem _ _ _ hb with ⟨hp, -⟩ | ⟨p, hp, hle, -⟩
      · have hlt := hparent _ (heq.symm.trans hp)
        omega
      · have hlt := hparent _ (heq.symm.trans hp)
        omega
    rw [roots, blocks, pick_append, List.filter_append, hbefore, pick_singleton hown,
      List.filter_cons_of_pos (by simp [block]), hinner]
  | tagged before d ih =>
    simp only [blocks, List.mem_append, List.mem_singleton] at hplaced
    have hbefore := ih hparent fun b hb => hplaced b (.inl hb)
    have hown : bs[n + before.size]? = some _ := hplaced _ (.inr rfl)
    rw [roots, blocks, pick_append, List.filter_append, hbefore, pick_singleton hown,
      List.filter_cons_of_pos (by simp [block]), List.filter_nil]

/-- A forest in which the blocks stand over their children has the blocks of the items in
their order. -/
theorem flatten_ofRoots (t : Items) {parent : Option Nat} {n : Nat}
    {nested : Block → Forest Block}
    (hnested : ∀ b ∈ t.blocks parent n, nested b = .ofRoots nested (pick bs b.children))
    (hplaced : ∀ b ∈ t.blocks parent n, bs[b.index]? = some b) :
    (Forest.ofRoots nested (pick bs (t.roots n))).flatten = t.blocks parent n := by
  induction t generalizing parent n with
  | empty => rfl
  | group before o inner c ihb ihi =>
    simp only [blocks, List.mem_append, List.mem_cons] at hnested hplaced
    have hbefore := ihb (fun b hb => hnested b (.inl hb)) fun b hb => hplaced b (.inl hb)
    have hinner := ihi (fun b hb => hnested b (.inr (.inr hb)))
      fun b hb => hplaced b (.inr (.inr hb))
    have hown : bs[n + before.size]? = some _ := hplaced _ (.inr (.inl rfl))
    rw [roots, pick_append, Forest.flatten_ofRoots_append, hbefore,
      pick_singleton hown, Forest.flatten_ofRoots_singleton, hnested _ (.inr (.inl rfl))]
    exact congrArg (fun rest => before.blocks parent n ++ _ :: rest) hinner
  | tagged before d ih =>
    simp only [blocks, List.mem_append, List.mem_singleton] at hnested hplaced
    have hbefore := ih (fun b hb => hnested b (.inl hb)) fun b hb => hplaced b (.inl hb)
    have hown : bs[n + before.size]? = some _ := hplaced _ (.inr rfl)
    rw [roots, pick_append, Forest.flatten_ofRoots_append, hbefore,
      pick_singleton hown, Forest.flatten_ofRoots_singleton, hnested _ (.inr rfl)]
    rfl

end Items

end Block

end CommentToggle
