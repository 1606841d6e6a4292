import CommentToggle.Proofs.Selection.Switch
import Mathlib.Data.List.Pairwise

/-!
What a request chooses in an exclusive set. The members of such a set are the exclusive
blocks of one scope, a request clashes in it when it asks for two of them, and a member's
new state depends on whether some member is asked for.
-/
namespace CommentToggle

/-- Exclusive blocks of one scope. -/
def Block.Alternatives (b c : Block) : Prop :=
  b.exclusive = true ∧ c.exclusive = true ∧ b.parent = c.parent

instance (b c : Block) : Decidable (b.Alternatives c) := inferInstanceAs (Decidable (_ ∧ _))

theorem Block.isConditional_eq_false_iff {b : Block} :
    b.isConditional = false ↔ b.condition = [] := by
  simp [Block.isConditional]

theorem Block.Arena.eq_of_alternatives {bs : List Block} (h : Block.Arena bs) {b c : Block}
    (hb : b ∈ bs) (hc : c ∈ bs) (halternatives : b.Alternatives c) (hgroup : b.group = c.group) :
    b = c :=
  h.eq_of_index hb hc (h.siblings _ _ b c (h.getElem?_index hb) (h.getElem?_index hc)
    halternatives.2.2 hgroup)

/-- A scope has one exclusive set. -/
theorem GroupSet.Divides.eq_of_parent {sets : List GroupSet} {bs : List Block}
    (h : Divides sets bs) {g g' : GroupSet} (hg : g ∈ sets) (hg' : g' ∈ sets)
    (hexclusive : g.exclusive = true) (hexclusive' : g'.exclusive = true)
    (hparent : g.parent = g'.parent) : g = g' := by
  by_contra hne
  have : Std.Symm fun g g' : GroupSet =>
      g.exclusive = true → g'.exclusive = true → g.parent ≠ g'.parent :=
    ⟨fun _ _ hapart hex hex' => (hapart hex' hex).symm⟩
  exact h.scopes.forall hg hg' hne hexclusive hexclusive' hparent

namespace Request

variable {r : Request}

section Members

variable {d : Document} {g : GroupSet} {b c : Block}

/-- Every plain or conditional block is a member of some set. -/
theorem exists_membersOf (h : d.Sound) (hb : b ∈ d.blocks) :
    ∃ g ∈ d.groupSets, b ∈ membersOf d.blocks g := by
  obtain ⟨g, hg, hmember⟩ := h.divides.cover b hb
  exact ⟨g, hg, (mem_membersOf_iff h.arena).mpr ⟨hmember, h.arena.getElem?_index hb⟩⟩

/-- The members of an exclusive set are all exclusive blocks of its scope. -/
theorem mem_membersOf_iff_alternatives (h : d.Sound) (hg : g ∈ d.groupSets)
    (hexclusive : g.exclusive = true) (hb : b ∈ membersOf d.blocks g) :
    c ∈ membersOf d.blocks g ↔ c ∈ d.blocks ∧ b.Alternatives c := by
  obtain ⟨hkind, hparent⟩ := kind_of_mem_membersOf h hg hb
  constructor
  · intro hc
    obtain ⟨hkind', hparent'⟩ := kind_of_mem_membersOf h hg hc
    exact ⟨mem_of_mem_membersOf hc, hkind.trans hexclusive, hkind'.trans hexclusive,
      hparent.trans hparent'.symm⟩
  · rintro ⟨hc, -, hcexclusive, hscope⟩
    obtain ⟨g', hg', hc'⟩ := exists_membersOf h hc
    obtain ⟨hkind', hparent'⟩ := kind_of_mem_membersOf h hg' hc'
    have hsame : g = g' := h.divides.eq_of_parent hg hg' hexclusive (hkind'.symm.trans hcexclusive)
      (hparent.symm.trans (hscope.trans hparent'))
    rwa [hsame]

theorem getElem?_selected_of_member (h : d.Sound) (hg : g ∈ d.groupSets)
    (hb : b ∈ membersOf d.blocks g) (hplain : b.isConditional = false) (states : List Bool) :
    (r.selected d states)[b.index]? = states[b.index]?.map (r.stateIn d.blocks g b) := by
  obtain ⟨hmember, hget⟩ := (mem_membersOf_iff h.arena).mp hb
  rw [getElem?_selected_of_plain h hget hplain, getElem?_plainStates h hget hg hmember]

end Members

theorem one_lt_length_sortedDistinct {ts : List Text} :
    1 < (Text.sortedDistinct ts).length ↔ ∃ x ∈ ts, ∃ y ∈ ts, x ≠ y := by
  constructor
  · intro hlen
    by_contra hnone
    cases ts with
    | nil => simp [Text.sortedDistinct] at hlen
    | cons x ts =>
      have hall : ∀ y ∈ x :: ts, y = x := by
        intro y hy
        by_contra hne
        exact hnone ⟨y, hy, x, List.mem_cons_self, hne⟩
      simp [sortedDistinct_of_forall_eq hall] at hlen
  · rintro ⟨x, hx, y, hy, hne⟩
    by_contra hlen
    rw [← Text.mem_sortedDistinct] at hx hy
    cases hts : Text.sortedDistinct ts with
    | nil => simp [hts] at hx
    | cons z zs =>
      obtain rfl : zs = [] := by
        simp only [hts, List.length_cons] at hlen
        exact List.length_eq_zero_iff.mp (by omega)
      rw [hts, List.mem_singleton] at hx hy
      exact hne (hx.trans hy.symm)

/-- A request that does not clash asks for at most one group of an exclusive set. -/
theorem clashes_eq_false_iff {bs : List Block} {g : GroupSet} :
    r.clashes bs g = false ↔ (g.exclusive = true → ∀ b ∈ membersOf bs g, ∀ c ∈ membersOf bs g,
      b.group ∈ r.targets → c.group ∈ r.targets → b.group = c.group) := by
  have hlen : 1 < (r.chosen (membersOf bs g)).length ↔ ∃ b ∈ membersOf bs g,
      ∃ c ∈ membersOf bs g, b.group ∈ r.targets ∧ c.group ∈ r.targets ∧ b.group ≠ c.group := by
    rw [chosen, one_lt_length_sortedDistinct]
    simp only [List.mem_filter, List.mem_map, List.contains_iff_mem]
    constructor
    · rintro ⟨_, ⟨⟨b, hb, rfl⟩, hasked⟩, _, ⟨⟨c, hc, rfl⟩, hasked'⟩, hne⟩
      exact ⟨b, hb, c, hc, hasked, hasked', hne⟩
    · rintro ⟨b, hb, c, hc, hasked, hasked', hne⟩
      exact ⟨_, ⟨⟨b, hb, rfl⟩, hasked⟩, _, ⟨⟨c, hc, rfl⟩, hasked'⟩, hne⟩
  unfold clashes
  rw [Bool.and_eq_false_imp]
  refine forall_congr' fun _ => ?_
  rw [decide_eq_false_iff_not, hlen]
  constructor
  · intro hnone b hb c hc hasked hasked'
    by_contra hne
    exact hnone ⟨b, hb, c, hc, hasked, hasked', hne⟩
  · rintro hall ⟨b, hb, c, hc, hasked, hasked', hne⟩
    exact hne (hall b hb c hc hasked hasked')

/-- What becomes of a member of an exclusive set. -/
theorem stateInSet_chosen {ms : List Block} {b : Block} (hb : b ∈ ms) (state : Bool) :
    r.stateInSet (r.chosen ms) b state =
      if ∃ c ∈ ms, c.group ∈ r.targets then decide (b.group ∈ r.targets)
      else state && decide (b.group ∉ r.disabled) := by
  have hsome : r.chosen ms = [] ↔ ¬ ∃ c ∈ ms, c.group ∈ r.targets := by
    rw [List.eq_nil_iff_forall_not_mem]
    constructor
    · rintro hnone ⟨c, hc, hasked⟩
      exact hnone c.group (mem_chosen_iff.mpr ⟨⟨c, hc, rfl⟩, hasked⟩)
    · intro hnone x hx
      obtain ⟨⟨c, hc, rfl⟩, hasked⟩ := mem_chosen_iff.mp hx
      exact hnone ⟨c, hc, hasked⟩
  have hmem : b.group ∈ r.chosen ms ↔ b.group ∈ r.targets :=
    mem_chosen_iff.trans (and_iff_right ⟨b, hb, rfl⟩)
  unfold stateInSet
  simp only [List.isEmpty_iff, hsome, List.contains_eq_mem, hmem]
  by_cases hany : ∃ c ∈ ms, c.group ∈ r.targets <;> simp [hany]

end Request

end CommentToggle
