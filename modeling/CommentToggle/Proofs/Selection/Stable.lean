import CommentToggle.Proofs.Document.Depth
import CommentToggle.Proofs.Selection.States

/-!
Selecting in a document that was read. A selection stands when it is made again, also
where a block fell back to its state before; and of two members of an exclusive set
that are active afterwards, both were active before.
-/
namespace CommentToggle

theorem Document.Sound.divides {d : Document} (h : d.Sound) :
    GroupSet.Divides d.groupSets d.blocks := by
  rw [h.sets]
  exact GroupSet.divides_ofBlocks h.arena

namespace Request

variable {r : Request} {d : Document} {states desired : List Bool}

/-- A member is of the kind and the scope of its set. -/
theorem kind_of_mem_membersOf {g : GroupSet} {b : Block} (h : d.Sound) (hg : g ∈ d.groupSets)
    (hb : b ∈ membersOf d.blocks g) : b.exclusive = g.exclusive ∧ b.parent = g.parent := by
  obtain ⟨hmember, hget⟩ := (mem_membersOf_iff h.arena).mp hb
  obtain ⟨e, he, hindex, hkind, hparent⟩ := h.divides.member g hg _ hmember
  obtain rfl := h.arena.eq_of_index he (List.mem_of_getElem? hget) hindex
  exact ⟨hkind, hparent⟩

theorem length_foldl_placed (r : Request) (bs : List Block) (gs : List GroupSet)
    (states : List Bool) : (gs.foldl (r.placed bs) states).length = states.length := by
  induction gs generalizing states with
  | nil => rfl
  | cons g gs ih =>
    rw [List.foldl_cons, ih, placed]
    split <;> exact length_updates _ _ _

theorem length_foldl_applyCondition (r : Request) (bs cs : List Block) (states : List Bool) :
    (cs.foldl (r.applyCondition bs) states).length = states.length := by
  induction cs generalizing states with
  | nil => rfl
  | cons c cs ih =>
    rw [List.foldl_cons, ih, applyCondition_eq, update, List.length_modify]

theorem length_selected (r : Request) (d : Document) (states : List Bool) :
    (r.selected d states).length = states.length := by
  rw [selected, length_foldl_applyCondition, plainStates, length_foldl_placed]

theorem length_of_select (h : r.select d states = .ok desired) :
    desired.length = states.length := by
  obtain ⟨-, rfl⟩ := select_eq_ok_iff.mp h
  exact length_selected r d states

theorem stateInSet_stateInSet (r : Request) (chosen : List Text) (b : Block) (state : Bool) :
    r.stateInSet chosen b (r.stateInSet chosen b state) = r.stateInSet chosen b state := by
  unfold stateInSet
  cases chosen.isEmpty <;> simp

theorem stateOfFlag_stateOfFlag (r : Request) (b : Block) (state : Bool) :
    r.stateOfFlag b (r.stateOfFlag b state) = r.stateOfFlag b state := by
  unfold stateOfFlag
  cases r.targets.contains b.group <;> cases r.disabled.contains b.group || r.reset <;> simp

theorem stateIn_stateIn (r : Request) (bs : List Block) (g : GroupSet) (b : Block) (state : Bool) :
    r.stateIn bs g b (r.stateIn bs g b state) = r.stateIn bs g b state := by
  unfold stateIn
  cases g.exclusive with
  | true => simp [stateInSet_stateInSet]
  | false => cases b.isConditional <;> simp [stateOfFlag_stateOfFlag]

theorem stateWhen_stateWhen (r : Request) (bs : List Block) (plain : List Bool) (b : Block)
    (state : Bool) :
    r.stateWhen bs plain b (r.stateWhen bs plain b state) = r.stateWhen bs plain b state := by
  unfold stateWhen
  cases b.condition.filterMap (r.holds bs plain) <;> rfl

section Blocks

variable {k : Nat} {b : Block}

theorem getElem?_plainStates (h : d.Sound) (hb : d.blocks[k]? = some b) {g : GroupSet}
    (hg : g ∈ d.groupSets) (hk : k ∈ g.members) (states : List Bool) :
    (r.plainStates d states)[k]? = states[k]?.map (r.stateIn d.blocks g b) :=
  getElem?_foldl_placed_of_mem h.arena h.divides.nodup h.divides.disjoint
    hg hk hb states

theorem getElem?_plainStates_of_conditional (h : d.Sound) (hb : d.blocks[k]? = some b)
    (hconditional : b.isConditional = true) (states : List Bool) :
    (r.plainStates d states)[k]? = states[k]? := by
  have hmem := List.mem_of_getElem? hb
  obtain ⟨g, hg, hk⟩ := h.divides.cover b hmem
  rw [h.arena.index k b hb] at hk
  have hexclusive : g.exclusive = false := by
    obtain ⟨c, hc, hindex, hkind, -⟩ := h.divides.member g hg k hk
    obtain rfl := h.arena.eq_of_index hmem hc ((h.arena.index k b hb).trans hindex.symm)
    by_contra hne
    have hplain := h.arena.plain b hmem (hkind.trans (Bool.not_eq_false _ ▸ hne))
    simp [Block.isConditional, hplain] at hconditional
  have hsame : r.stateIn d.blocks g b = id := by
    funext state
    simp [stateIn, hexclusive, hconditional]
  rw [getElem?_plainStates h hb hg hk, hsame, Option.map_id]
  rfl

theorem getElem?_selected_of_plain (h : d.Sound) (hb : d.blocks[k]? = some b)
    (hplain : b.isConditional = false) (states : List Bool) :
    (r.selected d states)[k]? = (r.plainStates d states)[k]? := by
  refine getElem?_foldl_applyCondition_of_not_mem (fun c hc heq => ?_) _
  obtain ⟨hc, hconditional⟩ := List.mem_filter.mp hc
  obtain rfl := h.arena.eq_of_index hc (List.mem_of_getElem? hb)
    (heq.trans (h.arena.index k b hb).symm)
  rw [hplain] at hconditional
  simp at hconditional

theorem getElem?_selected_of_conditional (h : d.Sound) (hb : d.blocks[k]? = some b)
    (hconditional : b.isConditional = true) (states : List Bool) :
    (r.selected d states)[k]? =
      states[k]?.map (r.stateWhen d.blocks (r.plainStates d states) b) := by
  have hapart : ∀ c ∈ d.blocks.filter (·.isConditional), ∀ e ∈ d.blocks,
      e.isConditional = false → c.index ≠ e.index := by
    intro c hc e he hplain heq
    obtain ⟨hc, hcond⟩ := List.mem_filter.mp hc
    obtain rfl := h.arena.eq_of_index hc he heq
    rw [hplain] at hcond
    simp at hcond
  have hmem : b ∈ d.blocks.filter (·.isConditional) :=
    List.mem_filter.mpr ⟨List.mem_of_getElem? hb, hconditional⟩
  have hstate := getElem?_foldl_applyCondition_of_mem (r := r)
    (h.arena.pairwise_index.filter _) hapart hmem (r.plainStates d states)
  rw [h.arena.index k b hb] at hstate
  rw [← getElem?_plainStates_of_conditional (r := r) h hb hconditional states]
  exact hstate

end Blocks

/-- What settles in one step stays when it is done again, from the result or from the start. -/
theorem map_again {f : Bool → Bool} (hf : ∀ state, f (f state) = f state) {old new : Option Bool}
    (h : new = old.map f ∨ new = old) : new.map f = old.map f := by
  rcases h with rfl | rfl
  · rw [Option.map_map]
    congr 1
    funext state
    exact hf state
  · rfl

theorem plainStates_again (h : d.Sound) {states' : List Bool}
    (hback : ∀ k < d.blocks.length,
      states'[k]? = (r.selected d states)[k]? ∨ states'[k]? = states[k]?)
    {k : Nat} {b : Block} (hb : d.blocks[k]? = some b) (hplain : b.isConditional = false) :
    (r.plainStates d states')[k]? = (r.plainStates d states)[k]? := by
  obtain ⟨g, hg, hk⟩ := h.divides.cover b (List.mem_of_getElem? hb)
  rw [h.arena.index k b hb] at hk
  have hstate := hback k (List.getElem?_eq_some_iff.mp hb).1
  rw [getElem?_selected_of_plain h hb hplain, getElem?_plainStates h hb hg hk] at hstate
  rw [getElem?_plainStates h hb hg hk, getElem?_plainStates h hb hg hk]
  exact map_again (stateIn_stateIn r d.blocks g b) hstate

/-- Selecting again changes nothing, even where a block is back in its old state. -/
theorem selected_again (h : d.Sound) {states' : List Bool} (hlen : states.length = d.blocks.length)
    (hlen' : states'.length = d.blocks.length)
    (hback : ∀ k < d.blocks.length,
      states'[k]? = (r.selected d states)[k]? ∨ states'[k]? = states[k]?) :
    r.selected d states' = r.selected d states := by
  have hterms (b : Block) : r.stateWhen d.blocks (r.plainStates d states') b =
      r.stateWhen d.blocks (r.plainStates d states) b := by
    apply stateWhen_congr
    intro c hc hplain
    exact plainStates_again h hback (h.arena.getElem?_index hc) hplain
  apply List.ext_getElem?
  intro k
  by_cases hk : k < d.blocks.length
  · have hb : d.blocks[k]? = some d.blocks[k] := List.getElem?_eq_getElem hk
    cases hconditional : (d.blocks[k]).isConditional with
    | false =>
      rw [getElem?_selected_of_plain h hb hconditional,
        getElem?_selected_of_plain h hb hconditional]
      exact plainStates_again h hback hb hconditional
    | true =>
      have hstate := hback k hk
      rw [getElem?_selected_of_conditional h hb hconditional] at hstate
      rw [getElem?_selected_of_conditional h hb hconditional,
        getElem?_selected_of_conditional h hb hconditional, hterms]
      exact map_again (stateWhen_stateWhen r d.blocks _ _) hstate
  · rw [List.getElem?_eq_none (by rw [length_selected]; omega),
      List.getElem?_eq_none (by rw [length_selected]; omega)]

theorem isActive_of_map {states states' : List Bool} {f : Bool → Bool} {k : Nat}
    (hk : k < states.length) (h : states'[k]? = states[k]?.map f) :
    Plan.isActive states' k = f (Plan.isActive states k) := by
  unfold Plan.isActive
  rw [h, List.getElem?_eq_getElem hk]
  rfl

/-- What becomes of a member of an exclusive set depends on the members chosen in it. -/
theorem isActive_selected_of_exclusive (h : d.Sound) (hlen : states.length = d.blocks.length)
    {g : GroupSet} (hg : g ∈ d.groupSets) (hexclusive : g.exclusive = true) {k : Nat}
    (hk : k ∈ g.members) : ∃ b, d.blocks[k]? = some b ∧ b.parent = g.parent ∧
      Plan.isActive (r.selected d states) k =
        r.stateInSet (r.chosen (membersOf d.blocks g)) b (Plan.isActive states k) := by
  obtain ⟨b, hb, rfl, hkind, hparent⟩ := h.divides.member g hg k hk
  have hget := h.arena.getElem?_index hb
  have hplain : b.isConditional = false := by
    simp [Block.isConditional, h.arena.plain b hb (hkind.trans hexclusive)]
  have hlt : b.index < states.length := by
    rw [hlen]
    exact (List.getElem?_eq_some_iff.mp hget).1
  have hstate := getElem?_plainStates (r := r) h hget hg hk states
  rw [← getElem?_selected_of_plain h hget hplain] at hstate
  refine ⟨b, hget, hparent, ?_⟩
  rw [isActive_of_map hlt hstate, stateIn, if_pos hexclusive]

/-- Two members of an exclusive set that are active after a selection were so before. -/
theorem active_before_select (h : d.Sound) (hlen : states.length = d.blocks.length)
    (hselect : r.select d states = .ok desired) {g : GroupSet} (hg : g ∈ d.groupSets)
    (hexclusive : g.exclusive = true) {j k : Nat} (hj : j ∈ g.members) (hk : k ∈ g.members)
    (hjk : j ≠ k) (hactive : Plan.isActive desired j = true)
    (hactive' : Plan.isActive desired k = true) :
    Plan.isActive states j = true ∧ Plan.isActive states k = true := by
  obtain ⟨hfree, rfl⟩ := select_eq_ok_iff.mp hselect
  obtain ⟨b, hb, hparent, hbstate⟩ :=
    isActive_selected_of_exclusive (r := r) h hlen hg hexclusive hj
  obtain ⟨c, hc, hparent', hcstate⟩ :=
    isActive_selected_of_exclusive (r := r) h hlen hg hexclusive hk
  rw [hactive, stateInSet] at hbstate
  rw [hactive', stateInSet] at hcstate
  have hone := hfree g hg
  cases hchosen : r.chosen (membersOf d.blocks g) with
  | nil =>
    simp only [hchosen, List.isEmpty_nil, if_true] at hbstate hcstate
    simp only [eq_comm (a := true), Bool.and_eq_true] at hbstate hcstate
    exact ⟨hbstate.1, hcstate.1⟩
  | cons x xs =>
    -- Only one group is chosen, and siblings of one name are the same block.
    have hxs : xs = [] := by
      simp only [clashes, hexclusive, hchosen, Bool.true_and, decide_eq_false_iff_not,
        List.length_cons] at hone
      exact List.length_eq_zero_iff.mp (by omega)
    subst hxs
    simp only [hchosen, List.isEmpty_cons, Bool.false_eq_true, if_false, List.contains_eq_mem,
      List.mem_singleton, eq_comm (a := true), decide_eq_true_eq] at hbstate hcstate
    exact absurd (h.arena.siblings j k b c hb hc (hparent.trans hparent'.symm)
      (hbstate.trans hcstate.symm)) hjk

theorem mem_chosen_iff {ms : List Block} {x : Text} :
    x ∈ r.chosen ms ↔ (∃ b ∈ ms, b.group = x) ∧ x ∈ r.targets := by
  rw [chosen, Text.mem_sortedDistinct, List.mem_filter, List.mem_map, List.contains_iff_mem]

/-- When a member of an exclusive set is asked for, the members not asked for go off. -/
theorem inactive_of_unchosen (h : d.Sound) (hlen : states.length = d.blocks.length)
    (hselect : r.select d states = .ok desired) {g : GroupSet} (hg : g ∈ d.groupSets)
    (hexclusive : g.exclusive = true) {b c : Block} (hb : b ∈ membersOf d.blocks g)
    (hasked : b.group ∈ r.targets) (hc : c ∈ membersOf d.blocks g) (hnot : c.group ∉ r.targets) :
    Plan.isActive desired c.index = false := by
  obtain ⟨-, rfl⟩ := select_eq_ok_iff.mp hselect
  obtain ⟨hmember, hget⟩ := (mem_membersOf_iff h.arena).mp hc
  obtain ⟨e, he, -, hstate⟩ := isActive_selected_of_exclusive (r := r) h hlen hg hexclusive hmember
  rw [hget, Option.some.injEq] at he
  subst he
  have hsome : b.group ∈ r.chosen (membersOf d.blocks g) :=
    mem_chosen_iff.mpr ⟨⟨b, hb, rfl⟩, hasked⟩
  have hother : c.group ∉ r.chosen (membersOf d.blocks g) :=
    fun hmem => hnot (mem_chosen_iff.mp hmem).2
  rw [hstate, stateInSet, if_neg (by simpa using List.ne_nil_of_mem hsome)]
  simpa using hother

end Request

end CommentToggle
