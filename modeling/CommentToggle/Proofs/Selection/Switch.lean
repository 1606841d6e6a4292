import CommentToggle.Proofs.Selection.Stable

/-!
Switching one group off and on again. Off, the blocks of that name go inactive and nothing
else changes; on, they become active and the other members of their exclusive sets do not
stay so. The second request undoes the first in a document where the group prevails: its
blocks are active and the members that they exclude are not.
-/
namespace CommentToggle

namespace Request

def off (g : Text) : Request := ⟨[], [g], false⟩

def on (g : Text) : Request := ⟨[g], [], false⟩

theorem check_on (g : Text) (names : List Text) :
    (on g).check names = (off g).check names := by
  simp [check, on, off]

theorem chosen_off (g : Text) (ms : List Block) : (off g).chosen ms = [] := by
  have hnone : (ms.map (·.group)).filter (off g).targets.contains = [] := by simp [off]
  rw [chosen, hnone]
  rfl

theorem sortedDistinct_of_forall_eq {g : Text} {ts : List Text} (h : ∀ t ∈ ts, t = g) :
    Text.sortedDistinct ts = if ts = [] then [] else [g] := by
  induction ts with
  | nil => rfl
  | cons t ts ih =>
    obtain rfl := h t (by simp)
    have hfold : Text.sortedDistinct (t :: ts) = Text.insertSorted t (Text.sortedDistinct ts) := rfl
    rw [hfold, ih fun u hu => h u (List.mem_cons_of_mem t hu)]
    by_cases hnil : ts = [] <;> simp [hnil, Text.insertSorted]

theorem chosen_on (g : Text) (ms : List Block) :
    (on g).chosen ms = if ∃ c ∈ ms, c.group = g then [g] else [] := by
  have hall : ∀ t ∈ (ms.map (·.group)).filter (on g).targets.contains, t = g := by
    intro t ht
    simpa [on] using (List.mem_filter.mp ht).2
  have hnil : (ms.map (·.group)).filter (on g).targets.contains = [] ↔
      ¬ ∃ c ∈ ms, c.group = g := by
    simp [on, List.filter_eq_nil_iff]
  rw [chosen, sortedDistinct_of_forall_eq hall]
  by_cases hmember : ∃ c ∈ ms, c.group = g
  · rw [if_pos hmember, if_neg (hnil.not.mpr (not_not.mpr hmember))]
  · rw [if_neg hmember, if_pos (hnil.mpr hmember)]

theorem clashes_on (g : Text) (bs : List Block) (gs : GroupSet) :
    (on g).clashes bs gs = false := by
  unfold clashes
  rw [chosen_on]
  split <;> simp

/-- What becomes of a plain block depends on the set it is a member of. -/
theorem isActive_selected_of_plain {d : Document} (h : d.Sound) (r : Request)
    {states : List Bool} (hlen : states.length = d.blocks.length) {b : Block} (hb : b ∈ d.blocks)
    (hplain : b.isConditional = false) : ∃ gs ∈ d.groupSets, b ∈ membersOf d.blocks gs ∧
      Plan.isActive (r.selected d states) b.index =
        r.stateIn d.blocks gs b (Plan.isActive states b.index) := by
  obtain ⟨gs, hgs, hmember⟩ := h.divides.cover b hb
  have hget := h.arena.getElem?_index hb
  have hlt : b.index < states.length := by
    rw [hlen]
    exact (List.getElem?_eq_some_iff.mp hget).1
  have hstate := getElem?_plainStates (r := r) h hget hgs hmember states
  rw [← getElem?_selected_of_plain h hget hplain] at hstate
  exact ⟨gs, hgs, (mem_membersOf_iff h.arena).mpr ⟨hmember, hget⟩, isActive_of_map hlt hstate⟩

/-- The blocks of the group go off, the others are as they were. -/
theorem isActive_selected_off {d : Document} (h : d.Sound) (g : Text) {states : List Bool}
    (hlen : states.length = d.blocks.length) {b : Block} (hb : b ∈ d.blocks)
    (hplain : b.isConditional = false) : Plan.isActive ((off g).selected d states) b.index =
      (Plan.isActive states b.index && decide (b.group ≠ g)) := by
  obtain ⟨gs, -, -, hstate⟩ := isActive_selected_of_plain h (off g) hlen hb hplain
  rw [hstate, stateIn, chosen_off]
  by_cases hgroup : b.group = g <;>
    simp [stateInSet, stateOfFlag, hplain, off, hgroup]

end Request

/-- Blocks of which only one is to be active at a time. -/
def Block.Rivals (b c : Block) : Prop :=
  b.exclusive = true ∧ c.exclusive = true ∧ b.parent = c.parent ∧ b.group ≠ c.group

instance (b c : Block) : Decidable (b.Rivals c) := inferInstanceAs (Decidable (_ ∧ _))

namespace Document

theorem Sound.rivals {d : Document} (h : d.Sound) {gs : GroupSet} (hgs : gs ∈ d.groupSets)
    (hexclusive : gs.exclusive = true) {b c : Block} (hb : b ∈ Request.membersOf d.blocks gs)
    (hc : c ∈ Request.membersOf d.blocks gs) (hne : b.group ≠ c.group) : b.Rivals c := by
  obtain ⟨hkind, hparent⟩ := Request.kind_of_mem_membersOf h hgs hb
  obtain ⟨hkind', hparent'⟩ := Request.kind_of_mem_membersOf h hgs hc
  exact ⟨hkind.trans hexclusive, hkind'.trans hexclusive, hparent.trans hparent'.symm, hne⟩

/-- The blocks of the group are active, and their rivals with text are not. -/
structure Prevails (d : Document) (g : Text) : Prop where
  active : ∀ b ∈ d.blocks, b.group = g → Plan.isActive d.states b.index = true
  rivals : ∀ b ∈ d.blocks, ∀ c ∈ d.blocks, b.group = g → b.Rivals c →
    (∃ l, l ∈ c.ownText d.lines) → Plan.isActive d.states c.index = false

instance (d : Document) (g : Text) : Decidable (d.Prevails g) :=
  decidable_of_iff
    ((∀ b ∈ d.blocks, b.group = g → Plan.isActive d.states b.index = true) ∧
      ∀ b ∈ d.blocks, ∀ c ∈ d.blocks, b.group = g → b.Rivals c →
        (c.ownText d.lines).isEmpty = false → Plan.isActive d.states c.index = false)
    ⟨fun h => ⟨h.1, fun b hb c hc hgroup hrivals htext =>
        h.2 b hb c hc hgroup hrivals (List.isEmpty_eq_false_iff_exists_mem.mpr htext)⟩,
      fun h => ⟨h.active, fun b hb c hc hgroup hrivals htext =>
        h.rivals b hb c hc hgroup hrivals (List.isEmpty_eq_false_iff_exists_mem.mp htext)⟩⟩

/-- Switching the group on finds back to the states before it was switched off. -/
theorem Prevails.isActive_selected_on {d : Document} (h : d.Sound) {g : Text}
    (hg : d.Prevails g) {states : List Bool} (hlen : states.length = d.blocks.length) {b : Block}
    (hb : b ∈ d.blocks) (hplain : b.isConditional = false) (htext : ∃ l, l ∈ b.ownText d.lines)
    (hstates : Plan.isActive states b.index =
      (Plan.isActive d.states b.index && decide (b.group ≠ g))) :
    Plan.isActive ((Request.on g).selected d states) b.index = Plan.isActive d.states b.index := by
  obtain ⟨gs, hgs, hmember, hstate⟩ :=
    Request.isActive_selected_of_plain h (.on g) hlen hb hplain
  rw [hstate, hstates, Request.stateIn, Request.chosen_on]
  by_cases hgroup : b.group = g
  · rw [hg.active b hb hgroup]
    cases hexclusive : gs.exclusive with
    | false => simp [Request.stateOfFlag, Request.on, hplain, hgroup]
    | true =>
      have hany : ∃ c ∈ Request.membersOf d.blocks gs, c.group = g := ⟨b, hmember, hgroup⟩
      simp [Request.stateInSet, hany, hgroup]
  · cases hexclusive : gs.exclusive with
    | false => simp [Request.stateOfFlag, Request.on, hplain, hgroup]
    | true =>
      by_cases hany : ∃ c ∈ Request.membersOf d.blocks gs, c.group = g
      · obtain ⟨c, hc, hcgroup⟩ := hany
        have hrivals : c.Rivals b := h.rivals hgs hexclusive hc hmember fun heq =>
          hgroup (heq.symm.trans hcgroup)
        have hoff := hg.rivals c (Request.mem_of_mem_membersOf hc) b hb hcgroup hrivals htext
        have hany' : ∃ c ∈ Request.membersOf d.blocks gs, c.group = g := ⟨c, hc, hcgroup⟩
        simp [Request.stateInSet, hany', hgroup, hoff]
      · simp [Request.stateInSet, hany, Request.on, hgroup]

end Document

end CommentToggle
