import CommentToggle.Proofs.Block.Family
import CommentToggle.Proofs.Document.Depth

/-!
The blocks around a block, met by going from parent to parent. They are the earlier
blocks that share a line with it, and their ranges take its range in; so on each of its
lines the same inactive blocks come before it. And a block and all blocks around it are
active exactly when some line of its text carries no layer at all.
-/
namespace CommentToggle

namespace Document

theorem lt_of_directive {s : Style} {t : Text} {d : Document} (h : read s t = .ok d)
    {e : Directive} (he : e ∈ d.directives) : e.line < d.lines.length := by
  obtain ⟨-, hscan, hlines, -⟩ := read_eq_ok_iff.mp h
  rw [hlines, Directive.mark, List.length_map]
  exact lt_of_scan hscan he

theorem family_of_read {s : Style} {t : Text} {d : Document} (h : read s t = .ok d) :
    Block.Family d.lines.length d.blocks := by
  obtain ⟨-, -, -, hresolve, -⟩ := read_eq_ok_iff.mp h
  exact Block.family_of_resolve (ordered_of_read h) (fun _ he => lt_of_directive h he)
    (sound_of_read h).arena hresolve

/-- Going from parent to parent ends by itself, so the bound does not matter. -/
theorem climb_congr {bs : List Block} (hdec : ∀ c p, Block.parentOf bs c = some p → p < c)
    {n m : Nat} {o : Option Nat} (hn : ∀ p ∈ o, p < n) (hm : ∀ p ∈ o, p < m) :
    climb bs n o = climb bs m o := by
  induction n generalizing m o with
  | zero =>
    cases o with
    | none => cases m <;> rfl
    | some p => exact absurd (hn p rfl) (Nat.not_lt_zero p)
  | succ n ih =>
    cases o with
    | none => cases m <;> rfl
    | some p =>
      have hpn := hn p rfl
      have hpm := hm p rfl
      obtain ⟨m, rfl⟩ : ∃ k, m = k + 1 := ⟨m - 1, by omega⟩
      have hrest : climb bs n (Block.parentOf bs p) = climb bs m (Block.parentOf bs p) := by
        refine ih (fun q hq => ?_) (fun q hq => ?_)
        · have hlt := hdec p q hq
          omega
        · have hlt := hdec p q hq
          omega
      change p :: climb bs n (Block.parentOf bs p) = p :: climb bs m (Block.parentOf bs p)
      rw [hrest]

section Family

variable {d : Document} {n : Nat} {b c : Block}

theorem ancestors_of_root (h : b.parent = none) : d.ancestors b = [] := by
  unfold ancestors
  rw [h]
  cases d.blocks.length <;> rfl

theorem ancestors_of_parent (harena : Block.Arena d.blocks) (hfamily : Block.Family n d.blocks)
    {p : Nat} (hparent : b.parent = some p) (hc : d.blocks[p]? = some c) :
    d.ancestors b = p :: d.ancestors c := by
  have hdec := hfamily.parentOf_lt harena
  have hp : p < d.blocks.length := (List.getElem?_eq_some_iff.mp hc).1
  obtain ⟨m, hm⟩ : ∃ m, d.blocks.length = m + 1 := ⟨d.blocks.length - 1, by omega⟩
  have hup : d.blocks[p]?.bind (·.parent) = c.parent := Block.parentOf_eq hc
  have hwalk : climb d.blocks m c.parent = climb d.blocks (m + 1) c.parent := by
    apply climb_congr hdec
    · intro q hq
      have hlt := hdec p q ((Block.parentOf_eq hc).trans hq)
      omega
    · intro q hq
      have hlt := hdec p q ((Block.parentOf_eq hc).trans hq)
      omega
  rw [ancestors, ancestors, hparent, hm, climb, hup, hwalk]

/-- A block that is met on the way out lies around the one where the way began. -/
theorem encloses_of_mem_ancestors (harena : Block.Arena d.blocks)
    (hfamily : Block.Family n d.blocks) (hb : b ∈ d.blocks) {i : Nat} (hi : i ∈ d.ancestors b) :
    ∃ c, d.blocks[i]? = some c ∧ c.Encloses b := by
  induction hk : b.index using Nat.strong_induction_on generalizing b with
  | _ k ih =>
    cases hparent : b.parent with
    | none => simp [ancestors_of_root hparent] at hi
    | some p =>
      obtain ⟨c, hc, hencloses⟩ := hfamily.parent b hb p hparent
      rw [ancestors_of_parent harena hfamily hparent hc] at hi
      rcases List.mem_cons.mp hi with rfl | hi
      · exact ⟨c, hc, hencloses⟩
      · obtain ⟨e, he, hec⟩ := ih c.index (hk ▸ hencloses.before) (List.mem_of_getElem? hc) hi rfl
        exact ⟨e, he, hec.trans hencloses⟩

/-- The way out goes on from every block that is met on it. -/
theorem mem_ancestors_of_parent (harena : Block.Arena d.blocks)
    (hfamily : Block.Family n d.blocks) (hb : b ∈ d.blocks) (hc : c ∈ d.blocks)
    (hi : c.index ∈ d.ancestors b) {p : Nat} (hp : c.parent = some p) : p ∈ d.ancestors b := by
  induction hk : b.index using Nat.strong_induction_on generalizing b with
  | _ k ih =>
    cases hparent : b.parent with
    | none => simp [ancestors_of_root hparent] at hi
    | some q =>
      obtain ⟨e, he, hencloses⟩ := hfamily.parent b hb q hparent
      have hemem := List.mem_of_getElem? he
      rw [ancestors_of_parent harena hfamily hparent he] at hi ⊢
      apply List.mem_cons_of_mem
      rcases List.mem_cons.mp hi with hcq | hi
      · obtain rfl := harena.eq_of_index hc hemem (hcq.trans (harena.index q e he).symm)
        obtain ⟨f, hf, -⟩ := hfamily.parent c hc p hp
        rw [ancestors_of_parent harena hfamily hp hf]
        exact List.mem_cons_self
      · exact ih e.index (hk ▸ hencloses.before) hemem hi rfl

/-- An earlier block that shares a line is met on the way out. -/
theorem mem_ancestors_of_contains (harena : Block.Arena d.blocks)
    (hfamily : Block.Family n d.blocks) (hb : b ∈ d.blocks) (hc : c ∈ d.blocks)
    (hbefore : b.index < c.index) {i : Nat} (hin : b.contains i = true)
    (hin' : c.contains i = true) : b.index ∈ d.ancestors c := by
  -- The distance shrinks with each step from `b` to its child around `c`.
  induction hk : c.index - b.index using Nat.strong_induction_on generalizing b with
  | _ k ih =>
    obtain ⟨e, he, hparent, hcase⟩ := hfamily.between b hb c hc hbefore i hin hin'
    obtain ⟨f, hf, hfe⟩ := hfamily.parent e he b.index hparent
    have hbe : b.index < e.index := by
      have hlt := hfe.before
      rwa [harena.index _ f hf] at hlt
    rcases hcase with rfl | hec
    · rw [ancestors_of_parent harena hfamily hparent hf]
      exact List.mem_cons_self
    · have hlt := hec.before
      have hmem := ih (c.index - e.index) (by omega) he hlt (hec.contains hin') rfl
      exact mem_ancestors_of_parent harena hfamily hc he hmem hparent

/-- Each step of a way out leads to an earlier block. -/
theorem pairwise_ancestors (harena : Block.Arena d.blocks) (hfamily : Block.Family n d.blocks)
    (hb : b ∈ d.blocks) : (d.ancestors b).Pairwise (· > ·) := by
  induction hk : b.index using Nat.strong_induction_on generalizing b with
  | _ k ih =>
    cases hparent : b.parent with
    | none =>
      rw [ancestors_of_root hparent]
      exact List.Pairwise.nil
    | some p =>
      obtain ⟨c, hc, hencloses⟩ := hfamily.parent b hb p hparent
      have hmem := List.mem_of_getElem? hc
      rw [ancestors_of_parent harena hfamily hparent hc, List.pairwise_cons]
      refine ⟨fun i hi => ?_, ih c.index (hk ▸ hencloses.before) hmem rfl⟩
      obtain ⟨e, he, hec⟩ := encloses_of_mem_ancestors harena hfamily hmem hi
      have hbefore := hec.before
      rwa [harena.index i e he, harena.index p c hc] at hbefore

/-- From a block that holds a line, the way out meets the earlier blocks that hold it. -/
theorem mem_ancestors_iff (harena : Block.Arena d.blocks) (hfamily : Block.Family n d.blocks)
    (hb : b ∈ d.blocks) {line : Nat} (hin : b.contains line = true) {k : Nat} :
    k ∈ d.ancestors b ↔ ∃ c ∈ d.containing line, c.index = k ∧ c.index < b.index := by
  constructor
  · intro hk
    obtain ⟨c, hc, hencloses⟩ := encloses_of_mem_ancestors harena hfamily hb hk
    exact ⟨c, List.mem_filter.mpr ⟨List.mem_of_getElem? hc, hencloses.contains hin⟩,
      harena.index k c hc, hencloses.before⟩
  · rintro ⟨c, hc, rfl, hbefore⟩
    obtain ⟨hc, hcontains⟩ := List.mem_filter.mp hc
    exact mem_ancestors_of_contains harena hfamily hc hb hbefore hcontains hin

/-- The earlier blocks that share a line with a block are those around it, outermost first. -/
theorem map_index_eq_ancestors (harena : Block.Arena d.blocks)
    (hfamily : Block.Family n d.blocks) (hb : b ∈ d.blocks) {line : Nat}
    (hin : b.contains line = true) {earlier : List Block}
    (hincreasing : earlier.Pairwise (·.index < ·.index))
    (hmem : ∀ c, c ∈ earlier ↔ c ∈ d.containing line ∧ c.index < b.index) :
    earlier.map (·.index) = (d.ancestors b).reverse := by
  have hsorted : (earlier.map (·.index)).Pairwise (· < ·) := List.pairwise_map.mpr hincreasing
  have hsorted' : (d.ancestors b).reverse.Pairwise (· < ·) :=
    List.pairwise_reverse.mpr (pairwise_ancestors harena hfamily hb)
  have hsame : ∀ k, k ∈ earlier.map (·.index) ↔ k ∈ (d.ancestors b).reverse := by
    intro k
    rw [List.mem_reverse, mem_ancestors_iff harena hfamily hb hin, List.mem_map]
    constructor
    · rintro ⟨c, hc, rfl⟩
      exact ⟨c, ((hmem c).mp hc).1, rfl, ((hmem c).mp hc).2⟩
    · rintro ⟨c, hc, rfl, hlt⟩
      exact ⟨c, (hmem c).mpr ⟨hc, hlt⟩, rfl⟩
  have hperm : (earlier.map (·.index)).Perm (d.ancestors b).reverse :=
    (List.perm_ext_iff_of_nodup (hsorted.imp Nat.ne_of_lt) (hsorted'.imp Nat.ne_of_lt)).mpr hsame
  exact hperm.eq_of_pairwise (fun _ _ _ _ hlt hlt' => absurd hlt (Nat.lt_asymm hlt'))
    hsorted hsorted'

end Family

/-- The number of inactive blocks around a block. -/
def depthAround (d : Document) (states : List Bool) (b : Block) : Nat :=
  (d.ancestors b).countP fun i => !Plan.isActive states i

section Depth

variable {d : Document} {n : Nat} {b c : Block} (states : List Bool)

theorem depthAround_of_root (h : b.parent = none) : d.depthAround states b = 0 := by
  rw [depthAround, ancestors_of_root h, List.countP_nil]

theorem depthAround_of_parent (harena : Block.Arena d.blocks) (hfamily : Block.Family n d.blocks)
    (hb : b ∈ d.blocks) (h : c.parent = some b.index) : d.depthAround states c =
      if Plan.isActive states b.index then d.depthAround states b
      else d.depthAround states b + 1 := by
  rw [depthAround, ancestors_of_parent harena hfamily h (harena.getElem?_index hb),
    List.countP_cons]
  cases Plan.isActive states b.index <;> rfl

/-- On every line of a block, the inactive blocks before it are those around it. -/
theorem outer_eq_depthAround (harena : Block.Arena d.blocks) (hfamily : Block.Family n d.blocks)
    (hb : b ∈ d.blocks) {line : Nat} (hin : b.contains line = true) :
    d.outer states b.index line = d.depthAround states b := by
  have hindices : ((d.blocks.take b.index).filter (·.contains line)).map (·.index) =
      (d.ancestors b).reverse := by
    refine map_index_eq_ancestors harena hfamily hb hin
      ((harena.increasing.take).filter _) fun c => ?_
    rw [List.mem_filter, harena.mem_take_iff, containing, List.mem_filter]
    exact and_right_comm
  rw [depthAround, ← List.countP_reverse, ← hindices, List.countP_map]
  rfl

end Depth

/-- The block and every block around it are active. -/
def Effective (d : Document) (states : List Bool) (b : Block) : Prop :=
  Plan.isActive states b.index = true ∧ ∀ i ∈ d.ancestors b, Plan.isActive states i = true

instance (d : Document) (states : List Bool) (b : Block) : Decidable (d.Effective states b) :=
  inferInstanceAs (Decidable (_ ∧ _))

section Effective

variable {d : Document} {n : Nat} {b : Block} {states : List Bool}

/-- No inactive block comes before an effective one around any of its lines. -/
theorem Effective.outer_eq_zero (h : d.Effective states b) (harena : Block.Arena d.blocks)
    (hfamily : Block.Family n d.blocks) (hb : b ∈ d.blocks) {line : Nat}
    (hin : b.contains line = true) : d.outer states b.index line = 0 := by
  rw [outer_eq_depthAround states harena hfamily hb hin, depthAround, List.countP_eq_zero]
  intro i hi
  rw [h.2 i hi]
  exact Bool.false_ne_true

/-- A bare line of a block shows that the block and all blocks around it are active. -/
theorem effective_iff (harena : Block.Arena d.blocks) (hfamily : Block.Family n d.blocks)
    (hb : b ∈ d.blocks) (htext : ∃ l, l ∈ b.ownText d.lines) : d.Effective d.states b ↔
      ∃ l ∈ b.ownText d.lines, Layer.strip? d.style l.content = none := by
  have hget := harena.getElem?_index hb
  constructor
  · intro heffective
    obtain ⟨l, hl, hnone⟩ := (states_active_iff harena hget htext).mp heffective.1
    obtain ⟨-, hin, -⟩ := mem_ownText.mp hl
    rw [heffective.outer_eq_zero harena hfamily hb hin, Layer.stripTimes?_one] at hnone
    exact ⟨l, hl, hnone⟩
  · rintro ⟨l, hl, hstrip⟩
    obtain ⟨hmem, hin, hown⟩ := mem_ownText.mp hl
    -- An inactive block around the line would have taken a layer off it.
    have hactive : ∀ c ∈ d.blocks, c.contains l.index = true →
        Plan.isActive d.states c.index = true := by
      intro c hc hcontains
      rw [← Bool.not_eq_false, states_inactive_iff harena (harena.getElem?_index hc)]
      rintro ⟨-, hall⟩
      have hsome := hall l (mem_ownText.mpr ⟨hmem, hcontains, hown⟩)
      rw [Nat.add_comm, Layer.stripTimes?_add, Layer.stripTimes?_one, hstrip] at hsome
      simp at hsome
    refine ⟨hactive b hb hin, fun i hi => ?_⟩
    obtain ⟨c, hc, hencloses⟩ := encloses_of_mem_ancestors harena hfamily hb hi
    rw [← harena.index i c hc]
    exact hactive c (List.mem_of_getElem? hc) (hencloses.contains hin)

end Effective

end Document

end CommentToggle
