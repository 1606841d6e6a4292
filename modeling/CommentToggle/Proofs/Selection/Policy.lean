import CommentToggle.Proofs.Selection.Choice

/-!
The policy of a selection, said without its steps. Of the exclusive blocks of a scope the
one asked for is the only active one, a flag goes by its own name, and a conditional flag
by the values that its terms have in the end. New states are what a request selects
exactly when they follow this policy, and the policy can be followed unless the request
asks for two exclusive blocks of one scope. In which order sets and conditions are
gone through makes no difference.
-/
namespace CommentToggle.Request

/-- The value of a name by the states in the end: whether some plain block that carries it
is active, or what is asked of it when there is none. -/
def truth (r : Request) (bs : List Block) (states : List Bool) (name : Text) : Option Bool :=
  if ∃ b ∈ bs, b.group = name ∧ b.condition = [] then
    some (decide (∃ b ∈ bs, b.group = name ∧ b.condition = [] ∧
      Plan.isActive states b.index = true))
  else if r.targets.contains name then some true
  else if r.disabled.contains name || r.reset then some false
  else none

/-- The new states are those that the request asks for, given the old ones. -/
structure Follows (r : Request) (bs : List Block) (old new : List Bool) : Prop where
  chosen : ∀ b ∈ bs, ∀ c ∈ bs, b.Alternatives c → c.group ∈ r.targets →
    (Plan.isActive new b.index = true ↔ b = c)
  unchosen : ∀ b ∈ bs, b.exclusive = true →
    (∀ c ∈ bs, b.Alternatives c → c.group ∉ r.targets) →
    Plan.isActive new b.index = (Plan.isActive old b.index && decide (b.group ∉ r.disabled))
  flag : ∀ b ∈ bs, b.exclusive = false → b.condition = [] →
    Plan.isActive new b.index =
      if b.group ∈ r.targets then true
      else if b.group ∈ r.disabled ∨ r.reset = true then false
      else Plan.isActive old b.index
  conditional : ∀ b ∈ bs, b.condition ≠ [] →
    Plan.isActive new b.index =
      if ∃ t ∈ b.condition, (r.truth bs new t.name).isSome = true then
        decide (∀ t ∈ b.condition, r.truth bs new t.name ≠ some t.negated)
      else Plan.isActive old b.index

variable {r : Request} {d : Document} {states desired : List Bool} {b c : Block}

/-- The request asks for two exclusive blocks of one scope. -/
def Overreaches (r : Request) (bs : List Block) : Prop :=
  ∃ b ∈ bs, ∃ c ∈ bs, b ≠ c ∧ b.Alternatives c ∧ b.group ∈ r.targets ∧ c.group ∈ r.targets

theorem not_overreaches_iff {bs : List Block} : ¬ r.Overreaches bs ↔
    ∀ b ∈ bs, ∀ c ∈ bs, b.Alternatives c → b.group ∈ r.targets → c.group ∈ r.targets → b = c := by
  unfold Overreaches
  constructor
  · intro hnone b hb c hc halternatives hasked hasked'
    by_contra hne
    exact hnone ⟨b, hb, c, hc, hne, halternatives, hasked, hasked'⟩
  · rintro hall ⟨b, hb, c, hc, hne, halternatives, hasked, hasked'⟩
    exact hne (hall b hb c hc halternatives hasked hasked')

theorem forall_clashes_eq_false_iff (h : d.Sound) :
    (∀ g ∈ d.groupSets, r.clashes d.blocks g = false) ↔ ¬ r.Overreaches d.blocks := by
  rw [not_overreaches_iff]
  constructor
  · intro hfree b hb c hc halternatives hasked hasked'
    obtain ⟨g, hg, hmember⟩ := exists_membersOf h hb
    have hexclusive : g.exclusive = true :=
      (kind_of_mem_membersOf h hg hmember).1.symm.trans halternatives.1
    have hmember' : c ∈ membersOf d.blocks g :=
      (mem_membersOf_iff_alternatives h hg hexclusive hmember).mpr ⟨hc, halternatives⟩
    exact h.arena.eq_of_alternatives hb hc halternatives
      (clashes_eq_false_iff.mp (hfree g hg) hexclusive b hmember c hmember' hasked hasked')
  · intro hone g hg
    rw [clashes_eq_false_iff]
    intro hexclusive b hb c hc hasked hasked'
    obtain ⟨hmem, halternatives⟩ := (mem_membersOf_iff_alternatives h hg hexclusive hb).mp hc
    rw [hone b (mem_of_mem_membersOf hb) c hmem halternatives hasked hasked']

section Plain

theorem isActive_selected_exclusive (h : d.Sound) (r : Request)
    (hlen : states.length = d.blocks.length) (hb : b ∈ d.blocks) (hexclusive : b.exclusive = true) :
    Plan.isActive (r.selected d states) b.index =
      if ∃ c ∈ d.blocks, b.Alternatives c ∧ c.group ∈ r.targets then decide (b.group ∈ r.targets)
      else Plan.isActive states b.index && decide (b.group ∉ r.disabled) := by
  have hplain : b.isConditional = false :=
    Block.isConditional_eq_false_iff.mpr (h.arena.plain b hb hexclusive)
  obtain ⟨g, hg, hmember, hstate⟩ := isActive_selected_of_plain h r hlen hb hplain
  have hkind : g.exclusive = true := (kind_of_mem_membersOf h hg hmember).1.symm.trans hexclusive
  rw [hstate, stateIn, if_pos hkind, stateInSet_chosen hmember]
  simp only [mem_membersOf_iff_alternatives h hg hkind hmember, and_assoc]

theorem isActive_selected_flag (h : d.Sound) (r : Request)
    (hlen : states.length = d.blocks.length) (hb : b ∈ d.blocks) (hexclusive : b.exclusive = false)
    (hplain : b.condition = []) : Plan.isActive (r.selected d states) b.index =
      if b.group ∈ r.targets then true
      else if b.group ∈ r.disabled ∨ r.reset = true then false
      else Plan.isActive states b.index := by
  have hplain := Block.isConditional_eq_false_iff.mpr hplain
  obtain ⟨g, hg, hmember, hstate⟩ := isActive_selected_of_plain h r hlen hb hplain
  have hkind : g.exclusive = false := (kind_of_mem_membersOf h hg hmember).1.symm.trans hexclusive
  rw [hstate, stateIn, hkind, hplain]
  simp [stateOfFlag]

/-- A plain block asked for is active in the end, also in an exclusive set. -/
theorem isActive_selected_of_target (h : d.Sound) (hlen : states.length = d.blocks.length)
    (hb : b ∈ d.blocks) (hplain : b.condition = []) (hasked : b.group ∈ r.targets) :
    Plan.isActive (r.selected d states) b.index = true := by
  cases hexclusive : b.exclusive with
  | true =>
    rw [isActive_selected_exclusive h r hlen hb hexclusive,
      if_pos ⟨b, hb, ⟨hexclusive, hexclusive, rfl⟩, hasked⟩]
    exact decide_eq_true hasked
  | false => rw [isActive_selected_flag h r hlen hb hexclusive hplain, if_pos hasked]

theorem isActive_selected_of_disabled (h : d.Sound) (hlen : states.length = d.blocks.length)
    (hb : b ∈ d.blocks) (hplain : b.condition = []) (hoff : b.group ∈ r.disabled)
    (hnot : b.group ∉ r.targets) : Plan.isActive (r.selected d states) b.index = false := by
  cases hexclusive : b.exclusive with
  | true =>
    rw [isActive_selected_exclusive h r hlen hb hexclusive]
    simp [hoff, hnot]
  | false =>
    rw [isActive_selected_flag h r hlen hb hexclusive hplain, if_neg hnot, if_pos (Or.inl hoff)]

end Plain

section Conditions

theorem getD_plainStates (h : d.Sound) (hlen : states.length = d.blocks.length) (hb : b ∈ d.blocks)
    (hplain : b.condition = []) : ((r.plainStates d states)[b.index]?).getD false =
      Plan.isActive (r.selected d states) b.index := by
  have hget := h.arena.getElem?_index hb
  have hlt : b.index < (r.selected d states).length := by
    rw [length_selected, hlen]
    exact (List.getElem?_eq_some_iff.mp hget).1
  rw [← getElem?_selected_of_plain h hget (Block.isConditional_eq_false_iff.mpr hplain)]
  unfold Plan.isActive
  rw [List.getElem?_eq_getElem hlt]
  rfl

/-- What a request says of a name never contradicts the plain blocks of that name. -/
theorem valueOf_plainStates (h : d.Sound) (hlen : states.length = d.blocks.length) (name : Text) :
    r.valueOf d.blocks (r.plainStates d states) name =
      r.truth d.blocks (r.selected d states) name := by
  have hnamed : ∀ b, b ∈ d.blocks.filter (fun b => b.group = name && !b.isConditional) ↔
      b ∈ d.blocks ∧ b.group = name ∧ b.condition = [] := by
    intro b
    simp [Block.isConditional_eq_false_iff]
  unfold valueOf truth
  simp only [List.contains_iff_mem]
  by_cases hany : ∃ b ∈ d.blocks, b.group = name ∧ b.condition = []
  · rw [if_pos hany]
    by_cases hasked : name ∈ r.targets
    · obtain ⟨b, hb, rfl, hplain⟩ := hany
      have hactive := isActive_selected_of_target h hlen hb hplain hasked
      rw [if_pos hasked, decide_eq_true ⟨b, hb, rfl, hplain, hactive⟩]
    · by_cases hoff : name ∈ r.disabled
      · have hnone : ¬ ∃ b ∈ d.blocks, b.group = name ∧ b.condition = [] ∧
            Plan.isActive (r.selected d states) b.index = true := by
          rintro ⟨b, hb, rfl, hplain, hactive⟩
          rw [isActive_selected_of_disabled h hlen hb hplain hoff hasked] at hactive
          cases hactive
        rw [if_neg hasked, if_pos hoff, decide_eq_false hnone]
      · rw [if_neg hasked, if_neg hoff]
        cases hms : d.blocks.filter fun b => b.group = name && !b.isConditional with
        | nil =>
          obtain ⟨b, hb⟩ := hany
          exact absurd ((hnamed b).mpr hb) (hms ▸ List.not_mem_nil)
        | cons e ms =>
          simp only [Option.some.injEq]
          rw [← hms, Bool.eq_iff_iff, List.any_eq_true, decide_eq_true_eq]
          refine exists_congr fun b => ?_
          rw [hnamed]
          constructor
          · rintro ⟨⟨hb, hgroup, hplain⟩, hactive⟩
            exact ⟨hb, hgroup, hplain, getD_plainStates h hlen hb hplain ▸ hactive⟩
          · rintro ⟨hb, hgroup, hplain, hactive⟩
            exact ⟨⟨hb, hgroup, hplain⟩, (getD_plainStates h hlen hb hplain).trans hactive⟩
  · have hnil : d.blocks.filter (fun b => b.group = name && !b.isConditional) = [] := by
      rw [List.eq_nil_iff_forall_not_mem]
      exact fun b hb => hany ⟨b, (hnamed b).mp hb⟩
    rw [if_neg hany, hnil]
    by_cases hasked : name ∈ r.targets <;> by_cases hoff : name ∈ r.disabled <;>
      simp [hasked, hoff]

/-- A conditional block is active when all its decided terms hold. -/
theorem stateWhen_eq (r : Request) (bs : List Block) (plain : List Bool) (b : Block)
    (state : Bool) : r.stateWhen bs plain b state =
      if ∃ t ∈ b.condition, (r.valueOf bs plain t.name).isSome = true then
        decide (∀ t ∈ b.condition, r.valueOf bs plain t.name ≠ some t.negated)
      else state := by
  have hmem : ∀ v, v ∈ b.condition.filterMap (r.holds bs plain) ↔
      ∃ t ∈ b.condition, (r.valueOf bs plain t.name).map (· != t.negated) = some v :=
    fun v => List.mem_filterMap
  unfold stateWhen
  cases hdecided : b.condition.filterMap (r.holds bs plain) with
  | nil =>
    rw [if_neg]
    rintro ⟨t, ht, hsome⟩
    obtain ⟨v, hv⟩ := Option.isSome_iff_exists.mp hsome
    have := (hmem (v != t.negated)).mpr ⟨t, ht, by rw [hv]; rfl⟩
    simp [hdecided] at this
  | cons v decided =>
    have hsome : ∃ t ∈ b.condition, (r.valueOf bs plain t.name).isSome = true := by
      obtain ⟨t, ht, hv⟩ := (hmem v).mp (hdecided ▸ List.mem_cons_self)
      obtain ⟨w, hw, -⟩ := Option.map_eq_some_iff.mp hv
      exact ⟨t, ht, by rw [hw]; rfl⟩
    rw [if_pos hsome]
    simp only
    rw [← hdecided, Bool.eq_iff_iff, List.all_eq_true, decide_eq_true_eq]
    constructor
    · intro hall t ht hvalue
      have := hall false ((hmem false).mpr ⟨t, ht, by rw [hvalue]; simp⟩)
      cases this
    · intro hall v hv
      obtain ⟨t, ht, hvalue⟩ := (hmem v).mp hv
      obtain ⟨w, hw, rfl⟩ := Option.map_eq_some_iff.mp hvalue
      simpa [bne_iff_ne] using fun heq : w = t.negated => hall t ht (heq ▸ hw)

theorem isActive_selected_conditional (h : d.Sound) (hlen : states.length = d.blocks.length)
    (hb : b ∈ d.blocks) (hcondition : b.condition ≠ []) :
    Plan.isActive (r.selected d states) b.index =
      if ∃ t ∈ b.condition, (r.truth d.blocks (r.selected d states) t.name).isSome = true then
        decide (∀ t ∈ b.condition,
          r.truth d.blocks (r.selected d states) t.name ≠ some t.negated)
      else Plan.isActive states b.index := by
  have hget := h.arena.getElem?_index hb
  have hlt : b.index < states.length := by
    rw [hlen]
    exact (List.getElem?_eq_some_iff.mp hget).1
  have hconditional : b.isConditional = true := by
    simpa [Block.isConditional] using hcondition
  rw [isActive_of_map hlt (getElem?_selected_of_conditional h hget hconditional states),
    stateWhen_eq]
  simp only [valueOf_plainStates h hlen]

end Conditions

theorem follows_selected (h : d.Sound) (hlen : states.length = d.blocks.length)
    (hone : ¬ r.Overreaches d.blocks) : r.Follows d.blocks states (r.selected d states) where
  chosen := by
    intro b hb c hc halternatives hasked
    rw [isActive_selected_exclusive h r hlen hb halternatives.1,
      if_pos ⟨c, hc, halternatives, hasked⟩, decide_eq_true_eq]
    constructor
    · exact fun hasked' => not_overreaches_iff.mp hone b hb c hc halternatives hasked' hasked
    · rintro rfl
      exact hasked
  unchosen := by
    intro b hb hexclusive hnone
    rw [isActive_selected_exclusive h r hlen hb hexclusive, if_neg]
    rintro ⟨c, hc, halternatives, hasked⟩
    exact hnone c hc halternatives hasked
  flag := fun _ hb hexclusive hplain => isActive_selected_flag h r hlen hb hexclusive hplain
  conditional := fun _ hb hcondition =>
    isActive_selected_conditional h hlen hb hcondition

namespace Follows

variable {bs : List Block} {old new new' : List Bool}

/-- A request that can be followed does not ask for two exclusive blocks of one scope. -/
theorem not_overreaches (h : r.Follows bs old new) : ¬ r.Overreaches bs := by
  rw [not_overreaches_iff]
  intro b hb c hc halternatives hasked hasked'
  have hself : b.Alternatives b := ⟨halternatives.1, halternatives.1, rfl⟩
  have hactive := (h.chosen b hb b hb hself hasked).mpr rfl
  exact (h.chosen b hb c hc halternatives hasked').mp hactive

theorem isActive_eq_of_plain (h : r.Follows bs old new) (h' : r.Follows bs old new')
    (hb : b ∈ bs) (hplain : b.condition = []) :
    Plan.isActive new b.index = Plan.isActive new' b.index := by
  cases hexclusive : b.exclusive with
  | false => rw [h.flag b hb hexclusive hplain, h'.flag b hb hexclusive hplain]
  | true =>
    by_cases hany : ∃ c ∈ bs, b.Alternatives c ∧ c.group ∈ r.targets
    · obtain ⟨c, hc, halternatives, hasked⟩ := hany
      rw [Bool.eq_iff_iff, h.chosen b hb c hc halternatives hasked,
        h'.chosen b hb c hc halternatives hasked]
    · have hnone : ∀ c ∈ bs, b.Alternatives c → c.group ∉ r.targets :=
        fun c hc halternatives hasked => hany ⟨c, hc, halternatives, hasked⟩
      rw [h.unchosen b hb hexclusive hnone, h'.unchosen b hb hexclusive hnone]

theorem truth_eq (h : r.Follows bs old new) (h' : r.Follows bs old new') (name : Text) :
    r.truth bs new name = r.truth bs new' name := by
  have hactive : (∃ b ∈ bs, b.group = name ∧ b.condition = [] ∧
        Plan.isActive new b.index = true) ↔
      ∃ b ∈ bs, b.group = name ∧ b.condition = [] ∧ Plan.isActive new' b.index = true := by
    refine exists_congr fun b => and_congr_right fun hb => and_congr_right fun _ =>
      and_congr_right fun hplain => ?_
    rw [h.isActive_eq_of_plain h' hb hplain]
  unfold truth
  simp only [hactive]

/-- The policy leaves no choice. -/
theorem isActive_eq (h : r.Follows bs old new) (h' : r.Follows bs old new') (hb : b ∈ bs) :
    Plan.isActive new b.index = Plan.isActive new' b.index := by
  by_cases hplain : b.condition = []
  · exact h.isActive_eq_of_plain h' hb hplain
  · rw [h.conditional b hb hplain, h'.conditional b hb hplain]
    simp only [h.truth_eq h']

end Follows

theorem select_eq_ok_iff_follows (h : d.Sound) (hlen : states.length = d.blocks.length) :
    r.select d states = .ok desired ↔
      desired.length = d.blocks.length ∧ r.Follows d.blocks states desired := by
  rw [select_eq_ok_iff, forall_clashes_eq_false_iff h]
  have hlen' : (r.selected d states).length = d.blocks.length :=
    (length_selected r d states).trans hlen
  constructor
  · rintro ⟨hone, rfl⟩
    exact ⟨hlen', follows_selected h hlen hone⟩
  · rintro ⟨hlength, hfollows⟩
    have hone := hfollows.not_overreaches
    refine ⟨hone, List.ext_getElem? fun k => ?_⟩
    by_cases hk : k < d.blocks.length
    · have hget : d.blocks[k]? = some d.blocks[k] := List.getElem?_eq_getElem hk
      have hactive := hfollows.isActive_eq (follows_selected h hlen hone)
        (List.mem_of_getElem? hget)
      rw [h.arena.index k _ hget] at hactive
      exact Document.getElem?_of_isActive (hlength ▸ hk) (hlen' ▸ hk) hactive
    · rw [List.getElem?_eq_none (by omega), List.getElem?_eq_none (by omega)]

section Order

/-- Sets without a common member can be decided in either order. -/
theorem placed_comm (h : d.Sound) {g g' : GroupSet} (hg : g ∈ d.groupSets)
    (hg' : g' ∈ d.groupSets) (hdisjoint : ∀ k ∈ g.members, k ∉ g'.members)
    (states : List Bool) :
    r.placed d.blocks (r.placed d.blocks states g) g' =
      r.placed d.blocks (r.placed d.blocks states g') g := by
  have hblock : ∀ e ∈ d.groupSets, ∀ k ∈ e.members, ∃ b, d.blocks[k]? = some b := by
    intro e he k hk
    obtain ⟨b, hb, rfl, -⟩ := h.divides.member e he k hk
    exact ⟨b, h.arena.getElem?_index hb⟩
  apply List.ext_getElem?
  intro k
  by_cases hk : k ∈ g.members
  · obtain ⟨b, hb⟩ := hblock g hg k hk
    rw [getElem?_placed_of_not_mem h.arena (hdisjoint k hk),
      getElem?_placed_of_mem h.arena (h.divides.nodup g hg) hk hb,
      getElem?_placed_of_mem h.arena (h.divides.nodup g hg) hk hb,
      getElem?_placed_of_not_mem h.arena (hdisjoint k hk)]
  · rw [getElem?_placed_of_not_mem (g := g) h.arena hk]
    by_cases hk' : k ∈ g'.members
    · obtain ⟨b, hb⟩ := hblock g' hg' k hk'
      rw [getElem?_placed_of_mem h.arena (h.divides.nodup g' hg') hk' hb,
        getElem?_placed_of_mem h.arena (h.divides.nodup g' hg') hk' hb,
        getElem?_placed_of_not_mem h.arena hk]
    · rw [getElem?_placed_of_not_mem h.arena hk', getElem?_placed_of_not_mem h.arena hk',
        getElem?_placed_of_not_mem h.arena hk]

/-- A condition does not read the states of conditional blocks. -/
theorem applyCondition_comm (h : d.Sound) (hb : b ∈ d.blocks) (hc : c ∈ d.blocks)
    (hconditional : b.isConditional = true) (hconditional' : c.isConditional = true)
    (hne : b ≠ c) (states : List Bool) :
    r.applyCondition d.blocks (r.applyCondition d.blocks states b) c =
      r.applyCondition d.blocks (r.applyCondition d.blocks states c) b := by
  have hindex : b.index ≠ c.index := fun heq => hne (h.arena.eq_of_index hb hc heq)
  have hterms : ∀ e ∈ d.blocks, e.isConditional = true → ∀ e' st,
      r.stateWhen d.blocks (r.applyCondition d.blocks st e) e' = r.stateWhen d.blocks st e' := by
    intro e he hflag e' st
    refine stateWhen_congr (fun p hp hplain => ?_) e'
    rw [applyCondition_eq, getElem?_update, if_neg]
    intro heq
    obtain rfl := h.arena.eq_of_index he hp heq
    rw [hplain] at hflag
    cases hflag
  apply List.ext_getElem?
  intro k
  rw [applyCondition_eq r _ _ c, hterms b hb hconditional, applyCondition_eq r _ _ b,
    applyCondition_eq r _ _ b, hterms c hc hconditional', applyCondition_eq r _ _ c]
  simp only [getElem?_update]
  by_cases hkb : b.index = k
  · have hkc : c.index ≠ k := fun heq => hindex (hkb.trans heq.symm)
    simp [hkb, hkc]
  · simp [hkb]

theorem selectVia_perm (h : d.Sound) {sets : List GroupSet} {flags : List Block}
    (hsets : sets.Perm d.groupSets) (hflags : flags.Perm (d.blocks.filter (·.isConditional))) :
    r.selectVia d.blocks sets flags states = .ok desired ↔ r.select d states = .ok desired := by
  have hplaced : sets.foldl (r.placed d.blocks) states = r.plainStates d states := by
    refine hsets.foldl_eq' (fun g hg g' hg' st => ?_) states
    have hg := hsets.mem_iff.mp hg
    have hg' := hsets.mem_iff.mp hg'
    by_cases heq : g = g'
    · rw [heq]
    · have : Std.Symm fun g g' : GroupSet => ∀ k ∈ g.members, k ∉ g'.members :=
        ⟨fun _ _ hapart k hk' hk => hapart k hk hk'⟩
      exact placed_comm h hg hg' (h.divides.disjoint.forall hg hg' heq) st
  have hdecided : ∀ st, flags.foldl (r.applyCondition d.blocks) st =
      (d.blocks.filter (·.isConditional)).foldl (r.applyCondition d.blocks) st := by
    intro st
    refine hflags.foldl_eq' (fun b hb c hc st => ?_) st
    obtain ⟨hb, hconditional⟩ := List.mem_filter.mp (hflags.mem_iff.mp hb)
    obtain ⟨hc, hconditional'⟩ := List.mem_filter.mp (hflags.mem_iff.mp hc)
    by_cases heq : b = c
    · rw [heq]
    · exact applyCondition_comm h hb hc hconditional hconditional' heq st
  rw [selectVia_eq_ok_iff, select_eq_ok_iff, hplaced, hdecided]
  simp only [hsets.mem_iff]
  rfl

end Order

theorem select_eq_error_iff (h : d.Sound) :
    (∃ groups, r.select d states = .error (.conflicting groups)) ↔ r.Overreaches d.blocks := by
  constructor
  · rintro ⟨groups, herror⟩
    by_contra hone
    have hok : r.select d states = .ok (r.selected d states) :=
      select_eq_ok_iff.mpr ⟨(forall_clashes_eq_false_iff h).mpr hone, rfl⟩
    rw [hok] at herror
    cases herror
  · intro hover
    cases hselect : r.select d states with
    | ok desired =>
      exact absurd hover ((forall_clashes_eq_false_iff h).mp (select_eq_ok_iff.mp hselect).1)
    | error f =>
      obtain ⟨groups, rfl⟩ := conflicting_of_select hselect
      exact ⟨groups, rfl⟩

/-- New states are selected exactly when they follow the policy; the selection is refused
exactly when two exclusive blocks of one scope are asked for; it stands when it is made
again, and no order of the sets and of the conditional blocks makes a difference. -/
theorem select_policy {s : Style} {t : Text} (h : Document.read s t = .ok d) (r : Request)
    (hlen : states.length = d.blocks.length) :
    (∀ desired, r.select d states = .ok desired ↔
      desired.length = d.blocks.length ∧ r.Follows d.blocks states desired) ∧
    ((∃ groups, r.select d states = .error (.conflicting groups)) ↔ r.Overreaches d.blocks) ∧
    (∀ desired, r.select d states = .ok desired → r.select d desired = .ok desired) ∧
    ∀ sets flags, sets.Perm d.groupSets → flags.Perm (d.blocks.filter (·.isConditional)) →
      ∀ desired, r.selectVia d.blocks sets flags states = .ok desired ↔
        r.select d states = .ok desired := by
  have hd := Document.sound_of_read h
  refine ⟨fun desired => select_eq_ok_iff_follows hd hlen, select_eq_error_iff hd, ?_,
    fun sets flags hsets hflags desired => selectVia_perm hd hsets hflags⟩
  intro desired hselect
  obtain ⟨hfree, rfl⟩ := select_eq_ok_iff.mp hselect
  have hagain := selected_again (r := r) hd hlen ((length_selected r d states).trans hlen)
    fun _ _ => Or.inl rfl
  exact select_eq_ok_iff.mpr ⟨hfree, hagain.symm⟩

/-- On a page with two exclusive blocks, a flag and two conditional flags: what choosing the
second block does, and that both cannot be chosen. -/
theorem select_policy_page :
    ∃ d, Document.read .hash ("# smc:begin a\nx\n# smc:end\n# smc:begin b\n# y\n# smc:end\n" ++
        "# smc:flag p\nz\n# smc:end\n# smc:flag b && !p\nu\n# smc:end\n" ++
        "# smc:flag !b && q\nv\n# smc:end\n").toList = .ok d ∧
      d.states.length = d.blocks.length ∧
      Follows ⟨[['b']], [['p']], false⟩ d.blocks d.states [false, true, false, true, false] ∧
      select ⟨[['b']], [['p']], false⟩ d [false, true, false, true, false] =
        .ok [false, true, false, true, false] ∧
      selectVia ⟨[['b']], [['p']], false⟩ d.blocks d.groupSets.reverse
        (d.blocks.filter (·.isConditional)).reverse d.states =
          .ok [false, true, false, true, false] ∧
      ∃ groups, select ⟨[['b'], ['a']], [], false⟩ d d.states = .error (.conflicting groups) := by
  obtain ⟨d, hread, hd⟩ := Outcome.exists_of_passes
    (x := Document.read .hash ("# smc:begin a\nx\n# smc:end\n# smc:begin b\n# y\n# smc:end\n" ++
      "# smc:flag p\nz\n# smc:end\n# smc:flag b && !p\nu\n# smc:end\n" ++
      "# smc:flag !b && q\nv\n# smc:end\n").toList)
    (p := fun d => Outcome.passes (select ⟨[['b']], [['p']], false⟩ d d.states)
        (fun desired => decide (desired = [false, true, false, true, false])) &&
      decide (∃ b ∈ d.blocks, ∃ c ∈ d.blocks,
        b.Alternatives c ∧ b.group = ['a'] ∧ c.group = ['b'])) (by decide +kernel)
  rw [Bool.and_eq_true, decide_eq_true_eq] at hd
  obtain ⟨hselect, b, hb, c, hc, halternatives, hbgroup, hcgroup⟩ := hd
  have hover : Overreaches ⟨[['b'], ['a']], [], false⟩ d.blocks := by
    refine ⟨b, hb, c, hc, ?_, halternatives, by simp [hbgroup], by simp [hcgroup]⟩
    rintro rfl
    simp [hbgroup] at hcgroup
  obtain ⟨desired, hdesired, heq⟩ := Outcome.exists_of_passes hselect
  obtain rfl := of_decide_eq_true heq
  have hlen := d.length_states
  obtain ⟨hpolicy, -, hagain, horder⟩ := select_policy hread ⟨[['b']], [['p']], false⟩ hlen
  obtain ⟨-, hrefused, -⟩ := select_policy hread ⟨[['b'], ['a']], [], false⟩ hlen
  exact ⟨d, hread, hlen, ((hpolicy _).mp hdesired).2, hagain _ hdesired,
    (horder _ _ (List.reverse_perm _) (List.reverse_perm _) _).mpr hdesired, hrefused.mpr hover⟩

end CommentToggle.Request
