import CommentToggle.Proofs.Selection.Choice

/-!
Two requests made at once and one after the other. Where they do not contradict each other
and neither resets, a plain block ends up in the same state either way: in a set where one
of them chooses, the choice stands however they are ordered, and in the others each
disabled member goes off once.
-/
namespace CommentToggle.Request

/-- Both requests in one. -/
def both (r₁ r₂ : Request) : Request :=
  ⟨r₁.targets ++ r₂.targets, r₁.disabled ++ r₂.disabled, r₁.reset || r₂.reset⟩

/-- `r` asks for what one of two requests without reset asks for, and contradicts itself
nowhere. -/
structure Joins (r r₁ r₂ : Request) : Prop where
  targets : ∀ x, x ∈ r.targets ↔ x ∈ r₁.targets ∨ x ∈ r₂.targets
  disabled : ∀ x, x ∈ r.disabled ↔ x ∈ r₁.disabled ∨ x ∈ r₂.disabled
  kept : r.reset = false ∧ r₁.reset = false ∧ r₂.reset = false
  apart : ∀ x ∈ r.targets, x ∉ r.disabled

variable {r r₁ r₂ : Request}

theorem joins_both (hkept₁ : r₁.reset = false) (hkept₂ : r₂.reset = false)
    (hapart : ∀ x ∈ (r₁.both r₂).targets, x ∉ (r₁.both r₂).disabled) :
    Joins (r₁.both r₂) r₁ r₂ where
  targets := fun _ => List.mem_append
  disabled := fun _ => List.mem_append
  kept := ⟨by simp [both, hkept₁, hkept₂], hkept₁, hkept₂⟩
  apart := hapart

theorem Joins.symm (h : Joins r r₁ r₂) : Joins r r₂ r₁ where
  targets := fun x => (h.targets x).trans or_comm
  disabled := fun x => (h.disabled x).trans or_comm
  kept := ⟨h.kept.1, h.kept.2.2, h.kept.2.1⟩
  apart := h.apart

section Members

variable {bs : List Block} {g : GroupSet} {b : Block}

theorem Joins.clashes_eq_false (h : Joins r r₁ r₂) (hfree : r.clashes bs g = false) :
    r₁.clashes bs g = false := by
  rw [clashes_eq_false_iff] at hfree ⊢
  intro hexclusive b hb c hc hasked hasked'
  exact hfree hexclusive b hb c hc ((h.targets _).mpr (Or.inl hasked))
    ((h.targets _).mpr (Or.inl hasked'))

theorem Joins.stateOfFlag (h : Joins r r₁ r₂) (b : Block) (state : Bool) :
    r₂.stateOfFlag b (r₁.stateOfFlag b state) = r.stateOfFlag b state := by
  obtain ⟨hkept, hkept₁, hkept₂⟩ := h.kept
  have hapart := h.apart b.group
  rw [h.targets, h.disabled] at hapart
  unfold Request.stateOfFlag
  simp only [hkept, hkept₁, hkept₂, Bool.or_false, List.contains_iff_mem, h.targets, h.disabled]
  by_cases hasked₂ : b.group ∈ r₂.targets
  · simp [hasked₂]
  · by_cases hasked₁ : b.group ∈ r₁.targets
    · have hon : b.group ∉ r₂.disabled := fun hoff => hapart (Or.inl hasked₁) (Or.inr hoff)
      simp [hasked₂, hasked₁, hon]
    · by_cases hoff₂ : b.group ∈ r₂.disabled <;> simp [hasked₂, hasked₁, hoff₂]

theorem Joins.stateInSet (h : Joins r r₁ r₂) (hfree : r.clashes bs g = false)
    (hexclusive : g.exclusive = true) (hb : b ∈ membersOf bs g) (state : Bool) :
    r₂.stateInSet (r₂.chosen (membersOf bs g)) b
        (r₁.stateInSet (r₁.chosen (membersOf bs g)) b state) =
      r.stateInSet (r.chosen (membersOf bs g)) b state := by
  have hone := clashes_eq_false_iff.mp hfree hexclusive
  have hapart := h.apart b.group
  simp only [h.targets, h.disabled] at hone hapart
  simp only [stateInSet_chosen hb, h.targets, h.disabled]
  by_cases hchosen₂ : ∃ c ∈ membersOf bs g, c.group ∈ r₂.targets
  · -- The second request chooses, and the first may only have chosen the same group.
    obtain ⟨c, hc, hasked⟩ := hchosen₂
    have hsame : b.group ∈ r₁.targets → b.group ∈ r₂.targets := fun hasked₁ =>
      hone b hb c hc (Or.inl hasked₁) (Or.inr hasked) ▸ hasked
    rw [if_pos ⟨c, hc, hasked⟩, if_pos ⟨c, hc, Or.inr hasked⟩]
    simp only [decide_eq_decide]
    exact ⟨Or.inr, fun hany => hany.elim hsame id⟩
  · have hnot₂ : b.group ∉ r₂.targets := fun hasked => hchosen₂ ⟨b, hb, hasked⟩
    rw [if_neg hchosen₂]
    by_cases hchosen₁ : ∃ c ∈ membersOf bs g, c.group ∈ r₁.targets
    · obtain ⟨c, hc, hasked⟩ := hchosen₁
      rw [if_pos ⟨c, hc, hasked⟩, if_pos ⟨c, hc, Or.inl hasked⟩]
      by_cases hasked₁ : b.group ∈ r₁.targets
      · have hon : b.group ∉ r₂.disabled := fun hoff => hapart (Or.inl hasked₁) (Or.inr hoff)
        simp [hasked₁, hon]
      · simp [hasked₁, hnot₂]
    · have hneither : ¬ ∃ c ∈ membersOf bs g, c.group ∈ r₁.targets ∨ c.group ∈ r₂.targets := by
        rintro ⟨c, hc, hasked | hasked⟩
        · exact hchosen₁ ⟨c, hc, hasked⟩
        · exact hchosen₂ ⟨c, hc, hasked⟩
      rw [if_neg hchosen₁, if_neg hneither]
      simp [Bool.and_assoc]

/-- A plain member of a set: both requests one after the other do what they do at once. -/
theorem Joins.stateIn (h : Joins r r₁ r₂) (hfree : r.clashes bs g = false)
    (hb : b ∈ membersOf bs g) (hplain : b.isConditional = false) (state : Bool) :
    r₂.stateIn bs g b (r₁.stateIn bs g b state) = r.stateIn bs g b state := by
  unfold Request.stateIn
  cases hexclusive : g.exclusive with
  | true => exact h.stateInSet hfree hexclusive hb state
  | false =>
    simp only [hplain, Bool.false_eq_true, if_false]
    exact h.stateOfFlag b state

end Members

theorem Joins.select {d : Document} (hd : d.Sound) (h : Joins r r₁ r₂)
    {states joint : List Bool} (hjoint : r.select d states = .ok joint) :
    ∃ one two, r₁.select d states = .ok one ∧ r₂.select d one = .ok two ∧
      ∀ b ∈ d.blocks, b.condition = [] → two[b.index]? = joint[b.index]? := by
  obtain ⟨hfree, rfl⟩ := select_eq_ok_iff.mp hjoint
  have hfree₁ : ∀ g ∈ d.groupSets, r₁.clashes d.blocks g = false :=
    fun g hg => h.clashes_eq_false (hfree g hg)
  have hfree₂ : ∀ g ∈ d.groupSets, r₂.clashes d.blocks g = false :=
    fun g hg => h.symm.clashes_eq_false (hfree g hg)
  refine ⟨_, _, select_eq_ok_iff.mpr ⟨hfree₁, rfl⟩, select_eq_ok_iff.mpr ⟨hfree₂, rfl⟩, ?_⟩
  intro b hb hcondition
  have hplain := Block.isConditional_eq_false_iff.mpr hcondition
  obtain ⟨g, hg, hmember⟩ := exists_membersOf hd hb
  simp only [getElem?_selected_of_member hd hg hmember hplain, Option.map_map]
  congr 1
  funext state
  exact h.stateIn (hfree g hg) hmember hplain state

/-- Requests without reset that do not contradict each other do to plain blocks what they do
at once, whichever comes first, and none of them is refused. -/
theorem select_both {s : Style} {t : Text} {d : Document} (h : Document.read s t = .ok d)
    {r₁ r₂ : Request} (hkept₁ : r₁.reset = false) (hkept₂ : r₂.reset = false)
    (hapart : ∀ x ∈ (r₁.both r₂).targets, x ∉ (r₁.both r₂).disabled)
    {states joint : List Bool} (hjoint : (r₁.both r₂).select d states = .ok joint) :
    ∃ one onetwo two twoone, r₁.select d states = .ok one ∧ r₂.select d one = .ok onetwo ∧
      r₂.select d states = .ok two ∧ r₁.select d two = .ok twoone ∧
      ∀ b ∈ d.blocks, b.condition = [] →
        onetwo[b.index]? = joint[b.index]? ∧ twoone[b.index]? = joint[b.index]? := by
  have hd := Document.sound_of_read h
  have hjoins := joins_both hkept₁ hkept₂ hapart
  obtain ⟨one, onetwo, hone, honetwo, hsame⟩ := hjoins.select hd hjoint
  obtain ⟨two, twoone, htwo, htwoone, hsame'⟩ := hjoins.symm.select hd hjoint
  exact ⟨one, onetwo, two, twoone, hone, honetwo, htwo, htwoone,
    fun b hb hplain => ⟨hsame b hb hplain, hsame' b hb hplain⟩⟩

/-- A name in two scopes, chosen by both requests in a set where one of them also disables a
member, and a flag that one of them disables. -/
theorem select_both_scopes :
    ∃ d, Document.read .hash ("# smc:flag p\nn\n# smc:begin a\nx\n# smc:end\n# smc:begin b\n" ++
        "# y\n# smc:end\n# smc:end\n# smc:begin b\n# z\n# smc:end\n# smc:begin c\nu\n" ++
        "# smc:end\n").toList = .ok d ∧
      (both ⟨[['b']], [], false⟩ ⟨[['b']], [['a'], ['p']], false⟩).select d d.states =
        .ok [false, false, true, true, false] ∧
      ∃ one onetwo two twoone, select ⟨[['b']], [], false⟩ d d.states = .ok one ∧
        select ⟨[['b']], [['a'], ['p']], false⟩ d one = .ok onetwo ∧
        select ⟨[['b']], [['a'], ['p']], false⟩ d d.states = .ok two ∧
        select ⟨[['b']], [], false⟩ d two = .ok twoone ∧
        ∀ b ∈ d.blocks, b.condition = [] →
          onetwo[b.index]? = [false, false, true, true, false][b.index]? ∧
            twoone[b.index]? = [false, false, true, true, false][b.index]? := by
  obtain ⟨d, hread, hd⟩ := Outcome.exists_of_passes
    (x := Document.read .hash ("# smc:flag p\nn\n# smc:begin a\nx\n# smc:end\n# smc:begin b\n" ++
      "# y\n# smc:end\n# smc:end\n# smc:begin b\n# z\n# smc:end\n# smc:begin c\nu\n" ++
      "# smc:end\n").toList)
    (p := fun d => Outcome.passes
      ((both ⟨[['b']], [], false⟩ ⟨[['b']], [['a'], ['p']], false⟩).select d d.states)
      fun joint => decide (joint = [false, false, true, true, false])) (by decide +kernel)
  obtain ⟨joint, hjoint, heq⟩ := Outcome.exists_of_passes hd
  obtain rfl := of_decide_eq_true heq
  exact ⟨d, hread, hjoint, select_both hread rfl rfl (by decide) hjoint⟩

end CommentToggle.Request
