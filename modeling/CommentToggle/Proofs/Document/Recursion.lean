import CommentToggle.Proofs.Block.Forest
import CommentToggle.Proofs.Document.Ancestors

/-!
The reading of the states as a recursion over the forest of the blocks. The reading goes
through the blocks in a row and changes lines that several of them share; but a line of a
block can only have been changed for the blocks around it. So a block that stands in `m`
inactive blocks is inactive exactly when it has text and all of it carries `m + 1` layers,
and the states from a block on inwards depend on nothing but its text and `m`.
-/
namespace CommentToggle

namespace Document

/-- The own state of a block as it is read. -/
def active (d : Document) (b : Block) : Bool := Plan.isActive d.states b.index

/-- The contents of the lines with text in the range of a block. -/
def contents (d : Document) (b : Block) : List Text := (b.ownText d.lines).map (·.content)

/-- The blocks inside a block. -/
def nested (d : Document) (b : Block) : Forest Block :=
  Block.nestedIn d.blocks d.blocks.length b

/-- A block with the blocks inside it. -/
def subtree (d : Document) (b : Block) : Forest Block := .ofRoots d.nested [b]

/-- All blocks, beginning with those that stand in no other. -/
def forest (d : Document) : Forest Block := .ofRoots d.nested (d.blocks.filter (·.parent = none))

end Document

/-- Whether there are texts and all of them carry `n` layers. -/
def Layer.onAll (s : Style) (n : Nat) (texts : List Text) : Bool :=
  !texts.isEmpty && texts.all fun content => (stripTimes? s n content).isSome

/-- The states of blocks, given by their texts, that stand in `m` inactive blocks. -/
def Forest.reading (s : Style) : Forest (List Text) → Nat → Forest Bool
  | nil, _ => nil
  | cons texts inner rest, m =>
    let inactive := Layer.onAll s (m + 1) texts
    cons (!inactive) (inner.reading s (if inactive then m + 1 else m)) (rest.reading s m)

namespace Document

section Blocks

variable {d : Document} {n : Nat} {b c : Block}

/-- When the reading comes to a block, its lines of text have lost one layer for each inactive
block around it. -/
theorem stripTimes?_peeledBefore (harena : Block.Arena d.blocks)
    (hfamily : Block.Family n d.blocks) (hb : b ∈ d.blocks) {e : Line × Text}
    (he : e ∈ d.peeledBefore b.index) (howns : owns b e = true) :
    Layer.stripTimes? d.style (d.depthAround d.states b) e.1.content = some e.2 := by
  obtain ⟨g, hg, hleft⟩ := exists_peeledBy d.style (d.lines.map fun l => (l, l.content))
    (d.blocks.take b.index)
  rw [peeledBefore, hg] at he
  obtain ⟨_, hmem, rfl⟩ := List.mem_map.mp he
  obtain ⟨hline, hstrip⟩ := hleft _ hmem
  obtain ⟨l, -, rfl⟩ := List.mem_map.mp hmem
  simp only [owns, hline, Bool.and_eq_true] at howns
  rw [← take_statesFrom] at hstrip
  change Layer.stripTimes? d.style (taken _ (d.states.take b.index) (l, l.content)) _ = _ at hstrip
  rw [taken_eq_outer harena d.length_states howns.2,
    outer_eq_depthAround d.states harena hfamily hb howns.1] at hstrip
  rw [hline]
  exact hstrip

/-- A block is inactive when it has text, all of it one layer deeper than there are inactive
blocks around it. -/
theorem inactive_iff (harena : Block.Arena d.blocks) (hfamily : Block.Family n d.blocks)
    (hb : b ∈ d.blocks) : d.active b = false ↔
      (∃ l, l ∈ b.ownText d.lines) ∧ ∀ l ∈ b.ownText d.lines,
        (Layer.stripTimes? d.style (d.depthAround d.states b + 1) l.content).isSome = true := by
  rw [active, states_inactive_iff harena (harena.getElem?_index hb)]
  refine and_congr Iff.rfl (forall₂_congr fun l hl => ?_)
  rw [outer_eq_depthAround d.states harena hfamily hb (mem_ownText.mp hl).2.1]

theorem active_eq (harena : Block.Arena d.blocks) (hfamily : Block.Family n d.blocks)
    (hb : b ∈ d.blocks) :
    d.active b = !Layer.onAll d.style (d.depthAround d.states b + 1) (d.contents b) := by
  have hiff : (!d.active b) = true ↔
      Layer.onAll d.style (d.depthAround d.states b + 1) (d.contents b) = true := by
    rw [Bool.not_eq_true', inactive_iff harena hfamily hb, Layer.onAll, contents,
      Bool.and_eq_true, Bool.not_eq_true', List.isEmpty_eq_false_iff_exists_mem, List.all_eq_true]
    simp only [List.mem_map, forall_exists_index, and_imp, forall_apply_eq_imp_iff₂]
    exact and_congr (by simp) Iff.rfl
  rw [← Bool.eq_iff_iff.mpr hiff, Bool.not_not]

/-- Inside a block stand its children, each over the blocks inside it. -/
theorem nested_eq (harena : Block.Arena d.blocks) (hfamily : Block.Family n d.blocks)
    (hb : b ∈ d.blocks) : d.nested b = .ofRoots d.nested (Block.pick d.blocks b.children) :=
  (Block.nestedIn_succ harena hfamily hb (by omega)).symm

/-- Roots that stand in `m` inactive blocks are read by the recursion if what is inside each of
them is. -/
theorem reading_ofRoots (harena : Block.Arena d.blocks) (hfamily : Block.Family n d.blocks)
    {roots : List Block} {m : Nat}
    (hroots : ∀ b ∈ roots, b ∈ d.blocks ∧ d.depthAround d.states b = m)
    (hinner : ∀ b ∈ roots, ((d.nested b).map d.contents).reading d.style
      (if d.active b then m else m + 1) = (d.nested b).map d.active) :
    ((Forest.ofRoots d.nested roots).map d.contents).reading d.style m =
      (Forest.ofRoots d.nested roots).map d.active := by
  induction roots with
  | nil => rfl
  | cons b roots ih =>
    obtain ⟨⟨hb, hdepth⟩, hrest⟩ := List.forall_mem_cons.mp hroots
    obtain ⟨hfirst, hinner⟩ := List.forall_mem_cons.mp hinner
    have hactive := active_eq harena hfamily hb
    rw [hdepth] at hactive
    have hinside : (if Layer.onAll d.style (m + 1) (d.contents b) then m + 1 else m) =
        if d.active b then m else m + 1 := by
      rw [hactive]
      cases Layer.onAll d.style (m + 1) (d.contents b) <;> rfl
    rw [Forest.ofRoots, Forest.map, Forest.map, Forest.reading, hinside, ← hactive, hfirst,
      ih hrest hinner]

/-- What is inside a block is read by the recursion. -/
theorem reading_nested (harena : Block.Arena d.blocks) (hfamily : Block.Family n d.blocks)
    (hb : b ∈ d.blocks) : ((d.nested b).map d.contents).reading d.style
      (if d.active b then d.depthAround d.states b else d.depthAround d.states b + 1) =
        (d.nested b).map d.active := by
  -- The children come later than their block, so the positions behind it are fewer.
  induction hk : d.blocks.length - b.index using Nat.strong_induction_on generalizing b with
  | _ k ih =>
    have hdepth {c : Block} (hparent : c.parent = some b.index) :=
      depthAround_of_parent d.states harena hfamily hb hparent
    rw [nested_eq harena hfamily hb]
    refine reading_ofRoots harena hfamily (fun c hmem => ?_) fun c hmem => ?_
    · obtain ⟨hc, hparent⟩ := (Block.mem_pick_children harena hfamily hb).mp hmem
      exact ⟨hc, hdepth hparent⟩
    · obtain ⟨hc, hparent⟩ := (Block.mem_pick_children harena hfamily hb).mp hmem
      have hlt := Block.index_lt_of_child harena hfamily hc hparent
      have hlen := (List.getElem?_eq_some_iff.mp (harena.getElem?_index hc)).1
      have hinner := ih (d.blocks.length - c.index) (by omega) hc rfl
      rwa [hdepth hparent] at hinner

theorem reading_subtree (harena : Block.Arena d.blocks) (hfamily : Block.Family n d.blocks)
    (hb : b ∈ d.blocks) : ((d.subtree b).map d.contents).reading d.style
      (d.depthAround d.states b) = (d.subtree b).map d.active := by
  refine reading_ofRoots harena hfamily (fun c hc => ?_) fun c hc => ?_
  · rw [List.mem_singleton.mp hc]
    exact ⟨hb, rfl⟩
  · rw [List.mem_singleton.mp hc]
    exact reading_nested harena hfamily hb

theorem reading_forest (harena : Block.Arena d.blocks) (hfamily : Block.Family n d.blocks) :
    (d.forest.map d.contents).reading d.style 0 = d.forest.map d.active := by
  have hroot {c : Block} (hc : c ∈ d.blocks.filter (·.parent = none)) :
      c ∈ d.blocks ∧ d.depthAround d.states c = 0 := by
    rw [List.mem_filter, decide_eq_true_eq] at hc
    exact ⟨hc.1, depthAround_of_root d.states hc.2⟩
  refine reading_ofRoots harena hfamily (fun c hc => hroot hc) fun c hc => ?_
  obtain ⟨hmem, hdepth⟩ := hroot hc
  have hinner := reading_nested harena hfamily hmem
  rwa [hdepth] at hinner

theorem states_eq_map (harena : Block.Arena d.blocks) : d.states = d.blocks.map d.active := by
  refine List.ext_getElem (by rw [length_states, List.length_map]) fun k hk hk' => ?_
  rw [List.getElem_map, active, harena.index k _ (List.getElem?_eq_getElem _), Plan.isActive,
    List.getElem?_eq_getElem hk, Option.getD_some]

end Blocks

/-- The forest has the blocks in their order. -/
theorem flatten_forest {s : Style} {t : Text} {d : Document} (h : read s t = .ok d) :
    d.forest.flatten = d.blocks := by
  obtain ⟨-, -, -, hresolve, -⟩ := read_eq_ok_iff.mp h
  obtain ⟨items, -, -, -, hblocks⟩ := Block.resolve_eq_ok_iff_derived.mp hresolve
  have harena := (sound_of_read h).arena
  have hfamily := family_of_read h
  have hplaced : ∀ b ∈ items.blocks none 0, d.blocks[b.index]? = some b := by
    rw [← hblocks]
    exact fun b hb => harena.getElem?_index hb
  have hnested : ∀ b ∈ items.blocks none 0,
      d.nested b = .ofRoots d.nested (Block.pick d.blocks b.children) := by
    rw [← hblocks]
    exact fun b hb => nested_eq harena hfamily hb
  have hroots := items.pick_roots (by simp) hplaced
  have hflatten := items.flatten_ofRoots hnested hplaced
  rw [hroots, ← hblocks] at hflatten
  exact hflatten

/-- The states are read as by recursion over the forest of the blocks. Whatever was examined
before, the text of a block has lost one layer for each inactive block around it when the block
is examined. So a block that stands in `m` inactive blocks is inactive exactly when it has text
and all of it carries `m + 1` layers, and two blocks that stand in as many inactive blocks and
hold the same text, nested alike, are in the same states with all that is inside them. -/
theorem states_recursive {s : Style} {t : Text} {d : Document} (h : read s t = .ok d) :
    (∀ b ∈ d.blocks,
      d.states.drop b.index =
        statesFrom s (d.peeledBefore b.index) (d.blocks.drop b.index) ∧
      (d.peeledBefore b.index).map Prod.fst = d.lines ∧
      ∀ e ∈ d.peeledBefore b.index, owns b e = true →
        Layer.stripTimes? s (d.depthAround d.states b) e.1.content = some e.2) ∧
    (d.forest.flatten = d.blocks ∧
      (∀ b ∈ d.blocks, d.nested b = .ofRoots d.nested (Block.pick d.blocks b.children)) ∧
      d.states = ((d.forest.map d.contents).reading s 0).flatten) ∧
    (∀ b ∈ d.blocks,
      (d.active b = false ↔ (∃ l, l ∈ b.ownText d.lines) ∧ ∀ l ∈ b.ownText d.lines,
        (Layer.stripTimes? s (d.depthAround d.states b + 1) l.content).isSome = true) ∧
      (d.subtree b).map d.active =
        ((d.subtree b).map d.contents).reading s (d.depthAround d.states b)) ∧
    ∀ (u : Text) (e : Document), read s u = .ok e → ∀ b ∈ d.blocks, ∀ c ∈ e.blocks,
      (d.subtree b).map d.contents = (e.subtree c).map e.contents →
      d.depthAround d.states b = e.depthAround e.states c →
      (d.subtree b).map d.active = (e.subtree c).map e.active := by
  have hstyle := (read_eq_ok_iff.mp h).1
  have harena := (sound_of_read h).arena
  have hfamily := family_of_read h
  refine ⟨fun b hb => ?_, ⟨flatten_forest h, fun b hb => nested_eq harena hfamily hb, ?_⟩,
    fun b hb => ?_, ?_⟩
  · rw [← hstyle]
    exact ⟨d.drop_states b.index, d.map_fst_peeledBefore b.index,
      fun e he howns => stripTimes?_peeledBefore harena hfamily hb he howns⟩
  · calc
      d.states = d.blocks.map d.active := states_eq_map harena
      _ = (d.forest.map d.active).flatten := by rw [Forest.flatten_map, flatten_forest h]
      _ = ((d.forest.map d.contents).reading s 0).flatten := by
        rw [← hstyle, reading_forest harena hfamily]
  · rw [← hstyle]
    exact ⟨inactive_iff harena hfamily hb, (reading_subtree harena hfamily hb).symm⟩
  · intro u e he b hb c hc hsame hdepth
    have hread := reading_subtree harena hfamily hb
    have hread' := reading_subtree (sound_of_read he).arena (family_of_read he) hc
    have hstyle' : e.style = d.style := (read_eq_ok_iff.mp he).1.trans hstyle.symm
    rw [hsame, hdepth] at hread
    rw [hstyle'] at hread'
    exact hread.symm.trans hread'

/-- A commented flag with a group inside, and the same group in another place of another file:
behind the layer of the flag both are read as commented, and what is tagged in them as active. -/
theorem states_recursive_moved :
    ∃ d e, read .hash ("# smc:flag p\n# n\n# smc:begin a\n# x\n# smc:end\n" ++
        "# smc:begin b\n# # y\n# smc:line k\n# # w\n# smc:end\n# smc:end\n").toList = .ok d ∧
      read .hash ("# smc:begin q\n# z\n# smc:begin c\n# # y\n# smc:line k\n# # w\n" ++
        "# smc:end\n# smc:end\n").toList = .ok e ∧
      d.states = [false, true, false, true] ∧
      ∃ b ∈ d.blocks, ∃ c ∈ e.blocks, b.group = ['b'] ∧ c.group = ['c'] ∧
        d.depthAround d.states b = 1 ∧
        (∃ f ∈ d.peeledBefore b.index, f.1.content = "# # y".toList ∧ f.2 = "# y".toList) ∧
        (d.subtree b).map d.active = .cons false (.cons true .nil .nil) .nil ∧
        (e.subtree c).map e.active = .cons false (.cons true .nil .nil) .nil := by
  let inside : Forest (List Text) :=
    .cons ["# # y".toList, "# # w".toList] (.cons ["# # w".toList] .nil .nil) .nil
  obtain ⟨d, hread, hd⟩ := Outcome.exists_of_passes
    (x := read .hash ("# smc:flag p\n# n\n# smc:begin a\n# x\n# smc:end\n" ++
      "# smc:begin b\n# # y\n# smc:line k\n# # w\n# smc:end\n# smc:end\n").toList)
    (p := fun d => decide (d.states = [false, true, false, true] ∧
      ∃ b ∈ d.blocks, b.group = ['b'] ∧ d.depthAround d.states b = 1 ∧
        (∃ f ∈ d.peeledBefore b.index, owns b f = true ∧ f.1.content = "# # y".toList) ∧
        (d.subtree b).map d.contents = inside)) (by decide +kernel)
  obtain ⟨e, hread', he⟩ := Outcome.exists_of_passes
    (x := read .hash ("# smc:begin q\n# z\n# smc:begin c\n# # y\n# smc:line k\n# # w\n" ++
      "# smc:end\n# smc:end\n").toList)
    (p := fun e => decide (∃ c ∈ e.blocks, c.group = ['c'] ∧ e.depthAround e.states c = 1 ∧
      (e.subtree c).map e.contents = inside)) (by decide +kernel)
  obtain ⟨hstates, b, hb, hgroup, hdepth, ⟨f, hf, howns, hline⟩, hinside⟩ := of_decide_eq_true hd
  obtain ⟨c, hc, hgroup', hdepth', hinside'⟩ := of_decide_eq_true he
  obtain ⟨hpeeled, -, hbelow, hmoved⟩ := states_recursive hread
  have hleft := (hpeeled b hb).2.2 f hf howns
  rw [hdepth, hline] at hleft
  have hactive : (d.subtree b).map d.active = .cons false (.cons true .nil .nil) .nil := by
    rw [(hbelow b hb).2, hinside, hdepth]
    rfl
  have hsame := hmoved _ e hread' b hb c hc (hinside.trans hinside'.symm)
    (hdepth.trans hdepth'.symm)
  exact ⟨d, e, hread, hread', hstates, b, hb, c, hc, hgroup, hgroup', hdepth,
    ⟨f, hf, hline, (Option.some.inj hleft).symm⟩, hactive, hsame.symm.trans hactive⟩

end Document

end CommentToggle
