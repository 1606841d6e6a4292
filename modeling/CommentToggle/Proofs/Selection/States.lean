import CommentToggle.Plan
import CommentToggle.Proofs.Block.Arena
import CommentToggle.Proofs.Selection.Sets

/-!
What a request makes of each block. Whether it can be selected does not depend on the
states; if it can, the new state of a block depends on its old one alone, apart from
conditional blocks, whose terms are judged by the new states of the others. Selecting
twice gives what selecting once gives.
-/
namespace CommentToggle.Request

section Updates

/-- The states after each of the blocks was given a new one. -/
def updates (f : Block → Bool → Bool) (ms : List Block) (states : List Bool) : List Bool :=
  ms.foldl (fun st b => update st b (f b)) states

variable {f : Block → Bool → Bool} {ms : List Block} {states : List Bool}

theorem getElem?_update (states : List Bool) (b : Block) (f : Bool → Bool) (k : Nat) :
    (update states b f)[k]? = if b.index = k then states[k]?.map f else states[k]? := by
  rw [update, List.getElem?_modify]
  split <;> simp_all

theorem length_updates (f : Block → Bool → Bool) (ms : List Block) (states : List Bool) :
    (updates f ms states).length = states.length := by
  induction ms generalizing states with
  | nil => rfl
  | cons b ms ih =>
    have hrest := ih (update states b (f b))
    rw [update, List.length_modify] at hrest
    exact hrest

theorem getElem?_updates_of_not_mem {k : Nat} (h : ∀ b ∈ ms, b.index ≠ k) :
    (updates f ms states)[k]? = states[k]? := by
  induction ms generalizing states with
  | nil => rfl
  | cons b ms ih =>
    change (updates f ms (update states b (f b)))[k]? = _
    rw [ih fun c hc => h c (List.mem_cons_of_mem b hc), getElem?_update, if_neg (h b (by simp))]

theorem getElem?_updates_of_mem {b : Block} (hdistinct : ms.Pairwise fun b c => b.index ≠ c.index)
    (hb : b ∈ ms) : (updates f ms states)[b.index]? = states[b.index]?.map (f b) := by
  induction ms generalizing states with
  | nil => simp at hb
  | cons c ms ih =>
    obtain ⟨hfirst, hrest⟩ := List.pairwise_cons.mp hdistinct
    change (updates f ms (update states c (f c)))[b.index]? = _
    rcases List.mem_cons.mp hb with rfl | hb
    · rw [getElem?_updates_of_not_mem fun c hc => Ne.symm (hfirst c hc), getElem?_update,
        if_pos rfl]
    · rw [ih hrest hb, getElem?_update, if_neg (hfirst b hb)]

end Updates

def membersOf (blocks : List Block) (g : GroupSet) : List Block := g.members.filterMap (blocks[·]?)

/-- The request asks for more than one group of an exclusive set. -/
def clashes (r : Request) (blocks : List Block) (g : GroupSet) : Bool :=
  g.exclusive && 1 < (r.chosen (membersOf blocks g)).length

/-- The new state of a member of the set. -/
def stateIn (r : Request) (blocks : List Block) (g : GroupSet) (b : Block) (state : Bool) : Bool :=
  if g.exclusive then r.stateInSet (r.chosen (membersOf blocks g)) b state
  else if b.isConditional then state
  else r.stateOfFlag b state

def placed (r : Request) (blocks : List Block) (states : List Bool) (g : GroupSet) : List Bool :=
  if g.exclusive then
    updates (r.stateInSet (r.chosen (membersOf blocks g))) (membersOf blocks g) states
  else updates r.stateOfFlag ((membersOf blocks g).filter (!·.isConditional)) states

/-- The state of a conditional block, judged by the states of the others. -/
def stateWhen (r : Request) (blocks : List Block) (states : List Bool) (b : Block)
    (state : Bool) : Bool :=
  match b.condition.filterMap (r.holds blocks states) with
  | [] => state
  | decided => decided.all id

def plainStates (r : Request) (d : Document) (states : List Bool) : List Bool :=
  d.groupSets.foldl (r.placed d.blocks) states

/-- The states that the request asks for, if it does not ask for too many. -/
def selected (r : Request) (d : Document) (states : List Bool) : List Bool :=
  (d.blocks.filter (·.isConditional)).foldl (r.applyCondition d.blocks) (r.plainStates d states)

theorem applySet_eq (r : Request) (blocks : List Block) (states : List Bool) (g : GroupSet) :
    r.applySet blocks states g =
      if r.clashes blocks g then .error (.conflicting (r.chosen (membersOf blocks g)))
      else .ok (r.placed blocks states g) := by
  have hmembers : g.members.filterMap (blocks[·]?) = membersOf blocks g := rfl
  unfold applySet clashes placed updates
  simp only [hmembers]
  cases g.exclusive <;> simp

theorem foldlM_applySet_eq_ok_iff {r : Request} {blocks : List Block} {gs : List GroupSet}
    {states states' : List Bool} :
    gs.foldlM (r.applySet blocks) states = .ok states' ↔
      (∀ g ∈ gs, r.clashes blocks g = false) ∧ states' = gs.foldl (r.placed blocks) states := by
  induction gs generalizing states with
  | nil =>
    rw [List.foldlM_nil, List.foldl_nil]
    exact ⟨fun h => ⟨by simp, (Except.ok.inj h).symm⟩, fun h => congrArg Except.ok h.2.symm⟩
  | cons g gs ih =>
    rw [List.foldlM_cons, applySet_eq]
    cases hclash : r.clashes blocks g with
    | true => simp [hclash, bind, Except.bind]
    | false =>
      change gs.foldlM (r.applySet blocks) (r.placed blocks states g) = .ok states' ↔ _
      rw [ih]
      simp [hclash]

/-- Selecting with the sets and the conditional blocks in the given orders. -/
def selectVia (r : Request) (blocks : List Block) (sets : List GroupSet) (flags : List Block)
    (states : List Bool) : Except Fault (List Bool) := do
  let plain ← sets.foldlM (r.applySet blocks) states
  return flags.foldl (r.applyCondition blocks) plain

theorem select_eq_selectVia (r : Request) (d : Document) (states : List Bool) :
    r.select d states = r.selectVia d.blocks d.groupSets (d.blocks.filter (·.isConditional))
      states := rfl

theorem selectVia_eq_ok_iff {r : Request} {blocks flags : List Block} {sets : List GroupSet}
    {states desired : List Bool} : r.selectVia blocks sets flags states = .ok desired ↔
      (∀ g ∈ sets, r.clashes blocks g = false) ∧
        desired = flags.foldl (r.applyCondition blocks) (sets.foldl (r.placed blocks) states) := by
  unfold selectVia
  rw [Outcome.bind_eq_ok_iff]
  simp only [foldlM_applySet_eq_ok_iff]
  constructor
  · intro h
    obtain ⟨plain, ⟨hfree, rfl⟩, hdesired⟩ := h
    cases hdesired
    exact ⟨hfree, rfl⟩
  · intro h
    obtain ⟨hfree, rfl⟩ := h
    exact ⟨_, ⟨hfree, rfl⟩, rfl⟩

theorem select_eq_ok_iff {r : Request} {d : Document} {states desired : List Bool} :
    r.select d states = .ok desired ↔
      (∀ g ∈ d.groupSets, r.clashes d.blocks g = false) ∧ desired = r.selected d states := by
  rw [select_eq_selectVia, selectVia_eq_ok_iff]
  rfl

/-- A request that cannot be selected asks for too many groups of a set. -/
theorem conflicting_of_select {r : Request} {d : Document} {states : List Bool} {f : Fault}
    (h : r.select d states = .error f) : ∃ groups, f = .conflicting groups := by
  unfold select at h
  rcases Outcome.bind_eq_error_iff.mp h with hsets | ⟨plain, -, hlast⟩
  · obtain ⟨st, g, -, hset⟩ := Outcome.exists_of_foldlM_error hsets
    rw [applySet_eq] at hset
    split at hset
    · cases hset
      exact ⟨_, rfl⟩
    · cases hset
  · cases hlast

theorem fault_of_check {r : Request} {names : List Text} {f : Fault}
    (h : r.check names = .error f) :
    (∃ g known, f = .unknownGroup g known) ∨ ∃ groups, f = .conflicting groups := by
  unfold check at h
  split at h
  · cases h
    exact Or.inl ⟨_, _, rfl⟩
  · split at h
    · cases h
    · cases h
      exact Or.inr ⟨_, rfl⟩

theorem applyCondition_eq (r : Request) (blocks : List Block) (states : List Bool) (b : Block) :
    r.applyCondition blocks states b = update states b (r.stateWhen blocks states b) := by
  unfold applyCondition stateWhen
  cases b.condition.filterMap (r.holds blocks states) with
  | nil =>
    apply List.ext_getElem?
    intro k
    rw [getElem?_update]
    split <;> simp
  | cons v decided => rfl

section Blocks

variable {r : Request} {bs : List Block}

theorem mem_membersOf_iff (harena : Block.Arena bs) {g : GroupSet} {b : Block} :
    b ∈ membersOf bs g ↔ b.index ∈ g.members ∧ bs[b.index]? = some b := by
  rw [membersOf, List.mem_filterMap]
  constructor
  · intro h
    obtain ⟨k, hk, hb⟩ := h
    rw [harena.index k b hb]
    exact ⟨hk, hb⟩
  · intro h
    obtain ⟨hk, hb⟩ := h
    exact ⟨_, hk, hb⟩

theorem mem_of_mem_membersOf {g : GroupSet} {b : Block} (h : b ∈ membersOf bs g) : b ∈ bs := by
  obtain ⟨k, -, hb⟩ := List.mem_filterMap.mp h
  exact List.mem_of_getElem? hb

theorem pairwise_membersOf (harena : Block.Arena bs) {g : GroupSet} (hnodup : g.members.Nodup) :
    (membersOf bs g).Pairwise fun b c => b.index ≠ c.index := by
  refine List.Pairwise.filterMap (fun k => bs[k]?) (R := fun j k => j ≠ k) ?_ hnodup
  intro j k hjk b hb c hc
  rw [harena.index j b hb, harena.index k c hc]
  exact hjk

theorem getElem?_placed_of_not_mem (harena : Block.Arena bs) {g : GroupSet} {k : Nat}
    (hk : k ∉ g.members) (states : List Bool) : (r.placed bs states g)[k]? = states[k]? := by
  have hnot : ∀ b ∈ membersOf bs g, b.index ≠ k := by
    intro b hb heq
    obtain ⟨hmem, -⟩ := (mem_membersOf_iff harena).mp hb
    exact hk (heq ▸ hmem)
  unfold placed
  split
  · exact getElem?_updates_of_not_mem hnot
  · exact getElem?_updates_of_not_mem fun b hb => hnot b (List.mem_filter.mp hb).1

theorem getElem?_placed_of_mem (harena : Block.Arena bs) {g : GroupSet}
    (hnodup : g.members.Nodup) {k : Nat} {b : Block} (hk : k ∈ g.members) (hb : bs[k]? = some b)
    (states : List Bool) : (r.placed bs states g)[k]? = states[k]?.map (r.stateIn bs g b) := by
  obtain rfl := harena.index k b hb
  have hmem := (mem_membersOf_iff harena).mpr ⟨hk, hb⟩
  have hdistinct := pairwise_membersOf harena hnodup
  unfold placed stateIn
  cases g.exclusive with
  | true => exact getElem?_updates_of_mem hdistinct hmem
  | false =>
    simp only [Bool.false_eq_true, if_false]
    cases hconditional : b.isConditional with
    | true =>
      have hnot : ∀ c ∈ (membersOf bs g).filter (!·.isConditional), c.index ≠ b.index := by
        intro c hc heq
        obtain ⟨hc, hplain⟩ := List.mem_filter.mp hc
        obtain rfl := harena.eq_of_index (mem_of_mem_membersOf hc) (List.mem_of_getElem? hb) heq
        simp [hconditional] at hplain
      rw [getElem?_updates_of_not_mem hnot]
      simp
    | false =>
      simp only [Bool.false_eq_true, if_false]
      exact getElem?_updates_of_mem (hdistinct.filter _)
        (List.mem_filter.mpr ⟨hmem, by simp [hconditional]⟩)

theorem getElem?_foldl_placed_of_not_mem (harena : Block.Arena bs) {gs : List GroupSet}
    {k : Nat} (hk : ∀ g ∈ gs, k ∉ g.members) (states : List Bool) :
    (gs.foldl (r.placed bs) states)[k]? = states[k]? := by
  induction gs generalizing states with
  | nil => rfl
  | cons g gs ih =>
    rw [List.foldl_cons, ih (fun h hh => hk h (List.mem_cons_of_mem g hh)),
      getElem?_placed_of_not_mem harena (hk g (by simp))]

/-- Each block gets its state from the one set it is in. -/
theorem getElem?_foldl_placed_of_mem (harena : Block.Arena bs) {gs : List GroupSet}
    (hnodup : ∀ g ∈ gs, g.members.Nodup)
    (hdisjoint : gs.Pairwise fun g h => ∀ k ∈ g.members, k ∉ h.members) {g : GroupSet}
    (hg : g ∈ gs) {k : Nat} {b : Block} (hk : k ∈ g.members) (hb : bs[k]? = some b)
    (states : List Bool) :
    (gs.foldl (r.placed bs) states)[k]? = states[k]?.map (r.stateIn bs g b) := by
  induction gs generalizing states with
  | nil => simp at hg
  | cons h gs ih =>
    obtain ⟨hfirst, hrest⟩ := List.pairwise_cons.mp hdisjoint
    rw [List.foldl_cons]
    rcases List.mem_cons.mp hg with rfl | hg
    · rw [getElem?_foldl_placed_of_not_mem harena fun h hh => hfirst h hh k hk,
        getElem?_placed_of_mem harena (hnodup g (by simp)) hk hb]
    · rw [ih (fun h hh => hnodup h (List.mem_cons_of_mem _ hh)) hrest hg,
        getElem?_placed_of_not_mem harena fun hk' => hfirst g hg k hk' hk]

theorem any_active_congr {states states' : List Bool} {ms : List Block}
    (h : ∀ b ∈ ms, states[b.index]? = states'[b.index]?) :
    (ms.any fun b => (states[b.index]?).getD false) =
      ms.any fun b => (states'[b.index]?).getD false := by
  induction ms with
  | nil => rfl
  | cons b ms ih =>
    rw [List.any_cons, List.any_cons, h b (by simp),
      ih fun c hc => h c (List.mem_cons_of_mem b hc)]

theorem valueOf_congr {states states' : List Bool}
    (h : ∀ b ∈ bs, b.isConditional = false → states[b.index]? = states'[b.index]?)
    (name : Text) : r.valueOf bs states name = r.valueOf bs states' name := by
  have hnamed : ∀ c ∈ bs.filter (fun c => c.group = name && !c.isConditional),
      states[c.index]? = states'[c.index]? := by
    intro c hc
    simp only [List.mem_filter, Bool.and_eq_true, Bool.not_eq_true'] at hc
    exact h c hc.1 hc.2.2
  unfold valueOf
  split
  · rfl
  · split
    · rfl
    · cases hms : bs.filter (fun c => c.group = name && !c.isConditional) with
      | nil => rfl
      | cons c ms =>
        simp only
        rw [any_active_congr (hms ▸ hnamed)]

/-- Terms are judged by the states of plain blocks only. -/
theorem stateWhen_congr {states states' : List Bool}
    (h : ∀ b ∈ bs, b.isConditional = false → states[b.index]? = states'[b.index]?) (b : Block) :
    r.stateWhen bs states b = r.stateWhen bs states' b := by
  have hholds : r.holds bs states = r.holds bs states' := by
    funext t
    unfold holds
    rw [valueOf_congr h]
  funext state
  unfold stateWhen
  rw [hholds]

theorem getElem?_foldl_applyCondition_of_not_mem {cs : List Block} {k : Nat}
    (hk : ∀ c ∈ cs, c.index ≠ k) (states : List Bool) :
    (cs.foldl (r.applyCondition bs) states)[k]? = states[k]? := by
  induction cs generalizing states with
  | nil => rfl
  | cons c cs ih =>
    rw [List.foldl_cons, ih (fun e he => hk e (List.mem_cons_of_mem c he)), applyCondition_eq,
      getElem?_update, if_neg (hk c (by simp))]

theorem getElem?_foldl_applyCondition_of_mem {cs : List Block}
    (hdistinct : cs.Pairwise fun b c => b.index ≠ c.index)
    (hapart : ∀ c ∈ cs, ∀ b ∈ bs, b.isConditional = false → c.index ≠ b.index)
    {c : Block} (hc : c ∈ cs) (states : List Bool) :
    (cs.foldl (r.applyCondition bs) states)[c.index]? =
      states[c.index]?.map (r.stateWhen bs states c) := by
  induction cs generalizing states with
  | nil => simp at hc
  | cons e cs ih =>
    obtain ⟨hfirst, hrest⟩ := List.pairwise_cons.mp hdistinct
    rw [List.foldl_cons]
    rcases List.mem_cons.mp hc with rfl | hc
    · rw [getElem?_foldl_applyCondition_of_not_mem fun e he => Ne.symm (hfirst e he),
        applyCondition_eq, getElem?_update, if_pos rfl]
    · have hsame : ∀ b ∈ bs, b.isConditional = false →
          (r.applyCondition bs states e)[b.index]? = states[b.index]? := by
        intro b hb hplain
        rw [applyCondition_eq, getElem?_update, if_neg (hapart e (by simp) b hb hplain)]
      rw [ih hrest (fun c' hc' => hapart c' (List.mem_cons_of_mem e hc')) hc,
        stateWhen_congr hsame, applyCondition_eq, getElem?_update, if_neg (hfirst c hc)]

end Blocks

end CommentToggle.Request
