import CommentToggle.Plan
import CommentToggle.Proofs.Document.Peeling
import CommentToggle.Proofs.Document.Reading

/-!
How deep a line is commented according to the states read from a text. A block is
inactive when it has text and all of it can lose one layer more than there are
inactive blocks before that hold it. A line always has as many layers as inactive
blocks around it.
-/
namespace CommentToggle

open Text

namespace Document

theorem mem_ownText {b : Block} {ls : List Line} {l : Line} :
    l ∈ b.ownText ls ↔ l ∈ ls ∧ b.contains l.index = true ∧ l.isOwnText = true := by
  simp [Block.ownText]

/-- Only a block without nested blocks may lack a line of its own. -/
theorem Sound.leaf_or_own {d : Document} (h : d.Sound) {b : Block} (hb : b ∈ d.blocks) :
    b.children = [] ∨ ∃ l ∈ b.ownText d.lines, b.nests d.blocks l.index = false := by
  have hown := h.own b hb
  unfold Block.hasOwnLine at hown
  rw [Bool.or_eq_true, List.isEmpty_iff] at hown
  refine hown.imp id fun hany => ?_
  obtain ⟨l, hl, hnests⟩ := List.any_eq_true.mp hany
  exact ⟨l, hl, by simpa using hnests⟩

/-- The number of inactive blocks around a line. -/
def depthAt (d : Document) (states : List Bool) (line : Nat) : Nat :=
  Plan.depth states (d.containing line)

theorem depthAt_pos_iff {d : Document} {states : List Bool} {line : Nat} :
    0 < d.depthAt states line ↔
      ∃ b ∈ d.containing line, Plan.isActive states b.index = false := by
  simp [depthAt, Plan.depth, List.countP_pos_iff]

/-- The number of inactive blocks around a line that come before position `k`. -/
def outer (d : Document) (states : List Bool) (k line : Nat) : Nat :=
  Plan.depth states ((d.blocks.take k).filter (·.contains line))

theorem outer_succ {d : Document} (h : Block.Arena d.blocks) (states : List Bool) {k : Nat}
    {b : Block} (hb : d.blocks[k]? = some b) (line : Nat) :
    d.outer states (k + 1) line =
      d.outer states k line + if b.contains line && !Plan.isActive states k then 1 else 0 := by
  have hindex := h.index k b hb
  unfold outer Plan.depth
  rw [List.take_add_one, hb, List.filter_append, List.countP_append]
  cases hcontains : b.contains line <;> simp [hcontains, hindex, List.countP_cons]

theorem depthAt_eq_outer (d : Document) (states : List Bool) (line : Nat) :
    d.depthAt states line = d.outer states d.blocks.length line := by
  rw [outer, List.take_length]
  rfl

theorem outer_mono (d : Document) (states : List Bool) {j k : Nat} (hjk : j ≤ k) (line : Nat) :
    d.outer states j line ≤ d.outer states k line :=
  ((List.take_sublist_take_left hjk).filter _).countP_le

/-- The depth counts only blocks that hold the line. -/
theorem outer_congr {d : Document} (h : Block.Arena d.blocks) {states states' : List Bool}
    {k line : Nat} (hsame : ∀ j b, j < k → d.blocks[j]? = some b → b.contains line = true →
      Plan.isActive states j = Plan.isActive states' j) :
    d.outer states k line = d.outer states' k line := by
  unfold outer Plan.depth
  apply List.countP_congr
  intro b hb
  obtain ⟨hmem, hin⟩ := List.mem_filter.mp hb
  obtain ⟨hb, hlt⟩ := h.mem_take_iff.mp hmem
  rw [hsame b.index b hlt (h.getElem?_index hb) hin]

/-- For a line of text, only blocks with text count. -/
theorem depthAt_congr {d : Document} (h : Block.Arena d.blocks) {states states' : List Bool}
    (hsame : ∀ b ∈ d.blocks, (∃ l, l ∈ b.ownText d.lines) →
      Plan.isActive states b.index = Plan.isActive states' b.index)
    {l : Line} (hl : l ∈ d.lines) (hown : l.isOwnText = true) :
    d.depthAt states l.index = d.depthAt states' l.index := by
  rw [depthAt_eq_outer, depthAt_eq_outer]
  refine outer_congr h fun j b _ hb hin => ?_
  rw [← h.index j b hb]
  exact hsame b (List.mem_of_getElem? hb) ⟨l, mem_ownText.mpr ⟨hl, hin, hown⟩⟩

/-- Behind the last block that holds the line, the depth no longer grows. -/
theorem depthAt_of_last {d : Document} (h : Block.Arena d.blocks) (states : List Bool)
    {k line : Nat} (hlast : ∀ j b, k ≤ j → d.blocks[j]? = some b → b.contains line = false) :
    d.depthAt states line = d.outer states k line := by
  have hgrow : ∀ n, d.outer states (k + n) line = d.outer states k line := by
    intro n
    induction n with
    | zero => rfl
    | succ n ih =>
      cases hb : d.blocks[k + n]? with
      | none =>
        rw [List.getElem?_eq_none_iff] at hb
        rw [← ih, outer, outer, List.take_of_length_le hb, List.take_of_length_le (by omega)]
      | some b =>
        rw [← Nat.add_assoc, outer_succ h states hb, hlast _ b (by omega) hb, ih]
        rfl
  rw [depthAt_eq_outer]
  by_cases hk : k ≤ d.blocks.length
  · have hlen : d.blocks.length = k + (d.blocks.length - k) := by omega
    rw [hlen, hgrow]
  · rw [outer, outer, List.take_of_length_le (by omega), List.take_of_length_le (by omega)]

/-- The depth at a line of a block that lies in none of its children. -/
theorem depthAt_own {d : Document} (h : Block.Arena d.blocks) {k : Nat} {b : Block}
    (hb : d.blocks[k]? = some b) {line : Nat} (hin : b.contains line = true)
    (hnests : b.nests d.blocks line = false) (states : List Bool) :
    d.depthAt states line =
      d.outer states k line + if Plan.isActive states k then 0 else 1 := by
  have hlast : d.depthAt states line = d.outer states (k + 1) line := by
    refine depthAt_of_last h states fun j c hj hc => ?_
    exact h.not_contains_later (Nat.lt_of_succ_le hj) hb hc hin hnests
  rw [hlast, outer_succ h states hb, hin]
  cases Plan.isActive states k <;> rfl

theorem taken_eq_outer {d : Document} (h : Block.Arena d.blocks) {states : List Bool}
    (hlen : states.length = d.blocks.length) {e : Line × Text} (he : e.1.isOwnText = true)
    (k : Nat) : taken (d.blocks.take k) (states.take k) e = d.outer states k e.1.index := by
  induction k with
  | zero => rfl
  | succ k ih =>
    cases hb : d.blocks[k]? with
    | none =>
      rw [List.getElem?_eq_none_iff] at hb
      have htake : d.blocks.take (k + 1) = d.blocks.take k := by
        rw [List.take_of_length_le hb, List.take_of_length_le (by omega)]
      have hstates : states.take (k + 1) = states.take k := by
        rw [List.take_of_length_le (by omega), List.take_of_length_le (by omega)]
      rw [outer, htake, hstates, ih, outer]
    | some b =>
      have hk : k < states.length := by
        have hlt := (List.getElem?_eq_some_iff.mp hb).1
        omega
      have hstate : states[k]? = some states[k] := List.getElem?_eq_getElem hk
      have hshort : (d.blocks.take k).length = (states.take k).length := by
        rw [List.length_take, List.length_take, hlen]
      rw [outer_succ h states hb, ← ih, List.take_add_one, List.take_add_one, hb, hstate]
      unfold taken owns Plan.isActive
      rw [Option.toList_some, Option.toList_some, List.zip_append hshort, List.countP_append]
      simp [hstate, he, List.countP_cons, Bool.and_comm]

theorem isActive_eq_false_iff {states : List Bool} {k : Nat} :
    Plan.isActive states k = false ↔ states[k]? = some false := by
  unfold Plan.isActive
  cases states[k]? <;> simp

theorem getElem?_of_isActive {states states' : List Bool} {k : Nat} (hk : k < states.length)
    (hk' : k < states'.length) (h : Plan.isActive states k = Plan.isActive states' k) :
    states[k]? = states'[k]? := by
  unfold Plan.isActive at h
  rw [List.getElem?_eq_getElem hk, List.getElem?_eq_getElem hk'] at h ⊢
  exact congrArg some h

/-- A block is inactive when it has text of its own, all of it one layer deeper than
the inactive blocks before have it. -/
theorem states_inactive_iff {d : Document} (h : Block.Arena d.blocks) {k : Nat} {b : Block}
    (hb : d.blocks[k]? = some b) : Plan.isActive d.states k = false ↔
      (∃ l, l ∈ b.ownText d.lines) ∧ ∀ l ∈ b.ownText d.lines,
        (Layer.stripTimes? d.style (d.outer d.states k l.index + 1) l.content).isSome = true := by
  have hmem : ∀ l, l ∈ b.ownText d.lines ↔ l ∈ d.lines ∧ owns b (l, l.content) = true := by
    intro l
    rw [mem_ownText]
    simp [owns]
  rw [isActive_eq_false_iff, states, statesFrom_false_iff hb]
  simp only [List.mem_map, exists_exists_and_eq_and, forall_exists_index, and_imp,
    forall_apply_eq_imp_iff₂, hmem]
  refine and_congr Iff.rfl (forall₂_congr fun l _ => imp_congr_right fun hown => ?_)
  have htext : l.isOwnText = true := by
    simp only [owns, Bool.and_eq_true] at hown
    exact hown.2
  have htaken := taken_eq_outer h d.length_states (e := (l, l.content)) htext k
  rw [states] at htaken
  rw [htaken]

theorem isActive_of_no_text {d : Document} (h : Block.Arena d.blocks) {k : Nat} {b : Block}
    (hb : d.blocks[k]? = some b) (htext : ¬ ∃ l, l ∈ b.ownText d.lines) :
    Plan.isActive d.states k = true := by
  rw [← Bool.not_eq_false, states_inactive_iff h hb]
  exact fun hread => htext hread.1

/-- A block with text is active when some line has no layer but those of the inactive blocks
before it. -/
theorem states_active_iff {d : Document} (h : Block.Arena d.blocks) {k : Nat} {b : Block}
    (hb : d.blocks[k]? = some b) (htext : ∃ l, l ∈ b.ownText d.lines) :
    Plan.isActive d.states k = true ↔ ∃ l ∈ b.ownText d.lines,
      Layer.stripTimes? d.style (d.outer d.states k l.index + 1) l.content = none := by
  rw [← Bool.not_eq_false, states_inactive_iff h hb]
  simp only [htext, true_and, not_forall, Bool.not_eq_true, Option.isSome_eq_false_iff,
    Option.isNone_iff_eq_none, exists_prop]

/-- A line has as many layers as there are inactive blocks around it. -/
theorem isSome_stripTimes?_outer {d : Document} (h : Block.Arena d.blocks) {l : Line}
    (hl : l ∈ d.lines) (hown : l.isOwnText = true) (k : Nat) :
    (Layer.stripTimes? d.style (d.outer d.states k l.index) l.content).isSome = true := by
  induction k with
  | zero => rfl
  | succ k ih =>
    cases hb : d.blocks[k]? with
    | none =>
      rw [List.getElem?_eq_none_iff] at hb
      have hsame : d.outer d.states (k + 1) l.index = d.outer d.states k l.index := by
        rw [outer, outer, List.take_of_length_le hb, List.take_of_length_le (by omega)]
      rw [hsame]
      exact ih
    | some b =>
      rw [outer_succ h d.states hb]
      split
      · rename_i hcond
        simp only [Bool.and_eq_true, Bool.not_eq_true'] at hcond
        exact ((states_inactive_iff h hb).mp hcond.2).2 l (mem_ownText.mpr ⟨hl, hcond.1, hown⟩)
      · exact ih

theorem isSome_stripTimes?_depthAt {d : Document} (h : Block.Arena d.blocks) {l : Line}
    (hl : l ∈ d.lines) (hown : l.isOwnText = true) :
    (Layer.stripTimes? d.style (d.depthAt d.states l.index) l.content).isSome = true := by
  rw [depthAt_eq_outer]
  exact isSome_stripTimes?_outer h hl hown _

end Document

end CommentToggle
