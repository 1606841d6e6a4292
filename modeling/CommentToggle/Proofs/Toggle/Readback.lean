import CommentToggle.Proofs.Toggle.Structure

/-!
Reading back the states that a toggle wrote. What is left of a line without the
layers of the inactive blocks around it is its core, and a toggle keeps it. A block
that was made inactive reads inactive; a block that was left active reads active when
it is shown, that is, when a line of its text has no layer but those of the inactive
blocks before it. The argument goes from the outside in, since the layers of outer
blocks are taken off first.
-/
namespace CommentToggle

open Text

namespace Document

/-- What is left of the line without indentation when the layers of the inactive
blocks around it are taken off. -/
def core (d : Document) (l : Line) : Text :=
  trimStart ((Layer.stripTimes? d.style (d.depthAt d.states l.index) l.content).getD l.content)

/-- A line whose core is neither empty nor a comment. -/
def Bare (d : Document) (l : Line) : Prop := d.core l ≠ [] ∧ Layer.strip? d.style (d.core l) = none

instance (d : Document) (l : Line) : Decidable (d.Bare l) := inferInstanceAs (Decidable (_ ∧ _))

/-- The block has a bare line outside its children. -/
def Rooted (d : Document) (b : Block) : Prop :=
  ∃ l ∈ b.ownText d.lines, b.nests d.blocks l.index = false ∧ d.Bare l

instance (d : Document) (b : Block) : Decidable (d.Rooted b) := List.decidableBEx _ _

theorem strip?_of_trimStart {s : Style} (hs : s.Tidy) {t : Text}
    (h : Layer.strip? s (trimStart t) = none) : Layer.strip? s t = none := by
  cases hstrip : Layer.strip? s t with
  | none => rfl
  | some rest =>
    rw [(Layer.flush_of_strip? hs hstrip).trimStart, hstrip] at h
    simp at h

/-- Without the layers it was given, a line is what it was without those it had. -/
theorem stripTimes?_rewritten {d : Document} (hs : d.style.Tidy) (h : d.Sound)
    (desired : List Bool) {l : Line} (hl : l ∈ d.lines) (hown : l.isOwnText = true) :
    ∃ rest, Layer.stripTimes? d.style (d.depthAt desired l.index)
      (d.rewritten desired l).content = some rest ∧ trimStart rest = d.core l := by
  obtain ⟨rest, hrest⟩ := Option.isSome_iff_exists.mp (isSome_stripTimes?_depthAt h.arena hl hown)
  have hcore : d.core l = trimStart rest := by rw [core, hrest]; rfl
  have hflush := h.flush hl hown
  rw [content_rewritten h desired hl]
  by_cases hle : d.depthAt d.states l.index ≤ d.depthAt desired l.index
  · have hadd : trimStart (d.contentAt desired l) = d.contentAt desired l := by
      rw [contentAt_of_le hown hle]
      exact (Layer.flush_addTimes hs _ _ hflush).trimStart
    have hsum : d.depthAt desired l.index =
        (d.depthAt desired l.index - d.depthAt d.states l.index) + d.depthAt d.states l.index := by
      omega
    refine ⟨rest, ?_, hcore.symm⟩
    rw [hadd, contentAt_of_le hown hle]
    conv_lhs => rw [hsum]
    rw [Nat.add_sub_cancel, Layer.stripTimes?_addTimes hs _ _ _ hflush, hrest]
  · have hstrip := stripTimes?_contentAt h hl hown (Nat.lt_of_not_le hle)
    have hsum : d.depthAt d.states l.index =
        (d.depthAt d.states l.index - d.depthAt desired l.index) + d.depthAt desired l.index := by
      omega
    rw [hsum, Layer.stripTimes?_add, hstrip, Option.bind_some] at hrest
    by_cases hzero : d.depthAt desired l.index = 0
    · rw [hzero] at hrest ⊢
      rw [Layer.stripTimes?, Option.some.injEq] at hrest
      refine ⟨_, rfl, ?_⟩
      rw [trimStart_trimStart, hcore, hrest]
    · have hflush' := Layer.flush_of_stripTimes? hs (Nat.pos_of_ne_zero hzero) hrest
      rw [hflush'.trimStart]
      exact ⟨rest, hrest, hcore.symm⟩

/-- A line keeps text of its own unless it is laid bare with an empty core. -/
theorem own_rewritten_iff {d : Document} (hs : d.style.Tidy) (h : d.Sound)
    (desired : List Bool) {l : Line} (hl : l ∈ d.lines) :
    (d.rewritten desired l).isOwnText = true ↔ l.isOwnText = true ∧
      (0 < d.depthAt desired l.index ∨ d.core l ≠ []) := by
  cases hown : l.isOwnText with
  | false =>
    rw [rewritten_of_content h hl (contentAt_of_not_own d desired hown), hown]
    simp
  | true =>
    obtain ⟨hdirective, -⟩ := Line.isOwnText_iff.mp hown
    obtain ⟨rest, hrest, hcore⟩ := stripTimes?_rewritten hs h desired hl hown
    have hiff : (d.rewritten desired l).isOwnText = true ↔
        trimStart (d.rewritten desired l).content ≠ [] := by
      rw [Line.isOwnText_iff, directive_rewritten, hdirective, ← Line.isBlank_eq_false_iff]
      simp
    rw [hiff]
    by_cases hzero : d.depthAt desired l.index = 0
    · rw [hzero, Layer.stripTimes?, Option.some.injEq] at hrest
      rw [hrest, hcore, hzero]
      simp
    · have hflush := Layer.flush_of_stripTimes? hs (Nat.pos_of_ne_zero hzero) hrest
      rw [hflush.trimStart]
      exact ⟨fun _ => ⟨rfl, Or.inl (Nat.pos_of_ne_zero hzero)⟩, fun _ => hflush.ne_nil⟩

theorem mem_ownText_settled_iff {d : Document} {desired : List Bool} {b : Block} {m : Line} :
    m ∈ b.ownText (d.settled desired).lines ↔ ∃ l ∈ d.lines, b.contains l.index = true ∧
      (d.rewritten desired l).isOwnText = true ∧ m = d.rewritten desired l := by
  rw [mem_ownText]
  simp only [settled, List.mem_map]
  constructor
  · intro h
    obtain ⟨⟨l, hl, rfl⟩, hin, hown⟩ := h
    exact ⟨l, hl, hin, hown, rfl⟩
  · intro h
    obtain ⟨l, hl, hin, hown, rfl⟩ := h
    exact ⟨⟨l, hl, rfl⟩, hin, hown⟩

/-- Where lines with text keep text, no line is lost or joined. -/
theorem apart_settled {d : Document} (h : d.Sound) {desired : List Bool}
    (hkeep : ∀ l ∈ d.lines, l.isOwnText = true → (d.rewritten desired l).isOwnText = true) :
    Apart ((d.lines.map (d.rewritten desired)).map Line.raw) := by
  rw [List.map_map]
  refine h.apart.map_of_bodies fun l hl => ⟨rfl, fun hnil => ?_⟩
  change (d.rewritten desired l).body = [] at hnil
  change l.body = []
  cases hown : l.isOwnText with
  | false => rwa [rewritten_of_content h hl (contentAt_of_not_own d desired hown)] at hnil
  | true =>
    have hblank := (Line.isOwnText_iff.mp (hkeep l hl hown)).2
    rw [Line.isBlank, (List.append_eq_nil_iff.mp hnil).2] at hblank
    simp at hblank

/-- Where lines with text keep text, blocks keep lines of their own. -/
theorem hasOwnLine_settled {d : Document} (h : d.Sound) {desired : List Bool}
    (hkeep : ∀ l ∈ d.lines, l.isOwnText = true → (d.rewritten desired l).isOwnText = true)
    {b : Block} (hb : b ∈ d.blocks) :
    Block.hasOwnLine (d.lines.map (d.rewritten desired)) d.blocks b = true := by
  have hown := h.own b hb
  unfold Block.hasOwnLine at hown ⊢
  rw [Bool.or_eq_true] at hown ⊢
  refine hown.imp id fun hany => ?_
  obtain ⟨l, hl, hnests⟩ := List.any_eq_true.mp hany
  obtain ⟨hmem, hin, hown⟩ := mem_ownText.mp hl
  refine List.any_eq_true.mpr ⟨d.rewritten desired l, ?_, hnests⟩
  exact mem_ownText_settled_iff.mpr ⟨l, hmem, hin, hkeep l hmem hown, rfl⟩

/-- A bare line has no layer but those it was given. -/
theorem stripTimes?_rewritten_of_bare {d : Document} (hs : d.style.Tidy) (h : d.Sound)
    (desired : List Bool) {l : Line} (hl : l ∈ d.lines) (hown : l.isOwnText = true)
    (hbare : d.Bare l) : Layer.stripTimes? d.style (d.depthAt desired l.index + 1)
      (d.rewritten desired l).content = none := by
  obtain ⟨rest, hrest, hcore⟩ := stripTimes?_rewritten hs h desired hl hown
  have hnone : Layer.strip? d.style rest = none :=
    strip?_of_trimStart hs (hcore.symm ▸ hbare.2)
  rw [Layer.stripTimes?_add, hrest, Option.bind_some, Layer.stripTimes?_one]
  exact hnone

/-- The block has text of its own after the toggle. -/
def KeepsText (d : Document) (desired : List Bool) (b : Block) : Prop :=
  ∃ m, m ∈ b.ownText (d.settled desired).lines

/-- Some line of the block's text has no layer after the toggle but those of the inactive
blocks before it. -/
def Shown (d : Document) (desired : List Bool) (b : Block) : Prop :=
  ∃ m ∈ b.ownText (d.settled desired).lines,
    Layer.stripTimes? d.style (d.outer desired b.index m.index + 1) m.content = none

instance (d : Document) (desired : List Bool) (b : Block) : Decidable (d.KeepsText desired b) :=
  decidable_of_iff ((b.ownText (d.settled desired).lines).isEmpty = false)
    List.isEmpty_eq_false_iff_exists_mem

instance (d : Document) (desired : List Bool) (b : Block) : Decidable (d.Shown desired b) :=
  List.decidableBEx _ _

/-- Every block around is read as it was left. -/
def ReadAround (d : Document) (desired : List Bool) (b : Block) : Prop :=
  ∀ c ∈ d.blocks, c.Encloses b →
    Plan.isActive (d.settled desired).states c.index = Plan.isActive desired c.index

section Blocks

variable {d : Document} {desired : List Bool} {k : Nat} {b : Block}

theorem KeepsText.text (hs : d.style.Tidy) (h : d.Sound) (hkeeps : d.KeepsText desired b) :
    ∃ l, l ∈ b.ownText d.lines := by
  obtain ⟨m, hm⟩ := hkeeps
  obtain ⟨l, hl, hin, hown, -⟩ := mem_ownText_settled_iff.mp hm
  exact ⟨l, mem_ownText.mpr ⟨hl, hin, ((own_rewritten_iff hs h desired hl).mp hown).1⟩⟩

theorem depthAt_of_inactive (h : d.Sound) (hb : d.blocks[k]? = some b)
    (hstate : Plan.isActive desired k = false) {line : Nat} (hin : b.contains line = true) :
    d.outer desired k line + 1 ≤ d.depthAt desired line := by
  have hsucc := outer_succ h.arena desired hb line
  have hk : k < d.blocks.length := (List.getElem?_eq_some_iff.mp hb).1
  have hle := outer_mono d desired (j := k + 1) hk line
  rw [depthAt_eq_outer]
  rw [hsucc, hin, hstate] at hle
  exact hle

/-- What is made inactive keeps its text. -/
theorem keepsText_of_inactive (hs : d.style.Tidy) (h : d.Sound) (hb : d.blocks[k]? = some b)
    (hstate : Plan.isActive desired k = false) (htext : ∃ l, l ∈ b.ownText d.lines) :
    d.KeepsText desired b := by
  obtain ⟨l, hl⟩ := htext
  obtain ⟨hmem, hin, hown⟩ := mem_ownText.mp hl
  have hpos : 0 < d.depthAt desired l.index := by
    refine depthAt_pos_iff.mpr ⟨b, List.mem_filter.mpr ⟨List.mem_of_getElem? hb, hin⟩, ?_⟩
    rwa [h.arena.index k b hb]
  exact ⟨_, mem_ownText_settled_iff.mpr
    ⟨l, hmem, hin, (own_rewritten_iff hs h desired hmem).mpr ⟨hown, Or.inl hpos⟩, rfl⟩⟩

/-- A bare line outside the children shows a block that is left active. -/
theorem Rooted.shown (hs : d.style.Tidy) (h : d.Sound) (hb : d.blocks[k]? = some b)
    (hroot : d.Rooted b) (hstate : Plan.isActive desired k = true) : d.Shown desired b := by
  obtain ⟨l, hl, hnests, hbare⟩ := hroot
  obtain ⟨hmem, hin, hown⟩ := mem_ownText.mp hl
  have hdepth : d.depthAt desired l.index = d.outer desired k l.index := by
    rw [depthAt_own h.arena hb hin hnests, hstate]
    rfl
  have hown' := (own_rewritten_iff hs h desired hmem).mpr ⟨hown, Or.inr hbare.1⟩
  refine ⟨_, mem_ownText_settled_iff.mpr ⟨l, hmem, hin, hown', rfl⟩, ?_⟩
  rw [h.arena.index k b hb, index_rewritten, ← hdepth]
  exact stripTimes?_rewritten_of_bare hs h desired hmem hown hbare

theorem isActive_settled_of_no_text (h : d.Sound) (hb : d.blocks[k]? = some b)
    (htext : ¬ d.KeepsText desired b) : Plan.isActive (d.settled desired).states k = true := by
  rw [← Bool.not_eq_false, states_inactive_iff (d := d.settled desired) h.arena hb]
  exact fun hread => htext hread.1

/-- A block around one that keeps its text keeps it too. -/
theorem KeepsText.of_encloses {c : Block} (hcb : c.Encloses b) (hkeeps : d.KeepsText desired b) :
    d.KeepsText desired c := by
  obtain ⟨m, hm⟩ := hkeeps
  obtain ⟨hmem, hin, hown⟩ := mem_ownText.mp hm
  exact ⟨m, mem_ownText.mpr ⟨hmem, hcb.contains hin, hown⟩⟩

theorem ReadAround.outer (h : d.Sound) (hb : b ∈ d.blocks) (haround : d.ReadAround desired b) :
    ∀ m ∈ b.ownText (d.settled desired).lines,
      d.outer (d.settled desired).states b.index m.index = d.outer desired b.index m.index := by
  intro m hm
  obtain ⟨-, hin, -⟩ := mem_ownText.mp hm
  refine outer_congr h.arena fun j c hj hc hcontains => ?_
  have hmem : c ∈ d.blocks := List.mem_of_getElem? hc
  obtain rfl := h.arena.index j c hc
  exact haround c hmem (h.arena.encloses_of_contains hmem hb hj hcontains hin)

/-- A block made inactive is read so when the blocks around it are read as they were left. -/
theorem inactive_settled (hs : d.style.Tidy) (h : d.Sound) (hb : b ∈ d.blocks)
    (hkeeps : d.KeepsText desired b) (haround : d.ReadAround desired b)
    (hstate : Plan.isActive desired b.index = false) :
    Plan.isActive (d.settled desired).states b.index = false := by
  have hget := h.arena.getElem?_index hb
  refine (states_inactive_iff (d := d.settled desired) h.arena hget).mpr ⟨hkeeps, fun m hm => ?_⟩
  have hsame := haround.outer h hb m hm
  obtain ⟨l, hl, hin, hown', rfl⟩ := mem_ownText_settled_iff.mp hm
  have hown := ((own_rewritten_iff hs h desired hl).mp hown').1
  obtain ⟨rest, hrest, -⟩ := stripTimes?_rewritten hs h desired hl hown
  obtain ⟨between, hbetween, -⟩ :=
    Layer.stripTimes?_of_le (depthAt_of_inactive h hget hstate hin) hrest
  change (Layer.stripTimes? d.style (d.outer (d.settled desired).states b.index l.index + 1)
    (d.rewritten desired l).content).isSome = true
  rw [index_rewritten] at hsame
  rw [hsame, hbetween]
  rfl

/-- A block left active is read so exactly when it is shown. -/
theorem active_settled_iff (h : d.Sound) (hb : b ∈ d.blocks) (hkeeps : d.KeepsText desired b)
    (haround : d.ReadAround desired b) :
    Plan.isActive (d.settled desired).states b.index = true ↔ d.Shown desired b := by
  rw [states_active_iff (d := d.settled desired) h.arena (h.arena.getElem?_index hb) hkeeps, Shown]
  refine exists_congr fun m => and_congr_right fun hm => ?_
  have hlayers := congrArg (fun n => Layer.stripTimes? d.style (n + 1) m.content)
    (haround.outer h hb m hm)
  change Layer.stripTimes? d.style ((d.settled desired).outer (d.settled desired).states b.index
    m.index + 1) m.content = none ↔ _
  rw [← hlayers]
  rfl

/-- From the outside in, it is enough that what is left active around is read active. -/
theorem readAround_of_active (hs : d.style.Tidy) (h : d.Sound) (hkeeps : d.KeepsText desired b)
    (hactive : ∀ c ∈ d.blocks, c.Encloses b → d.KeepsText desired c →
      Plan.isActive desired c.index = true → d.ReadAround desired c →
      Plan.isActive (d.settled desired).states c.index = true) : d.ReadAround desired b := by
  intro c
  induction hk : c.index using Nat.strong_induction_on generalizing c with
  | _ k ih =>
    intro hc hcb
    subst hk
    have hkeepsc := hkeeps.of_encloses hcb
    have haround : d.ReadAround desired c :=
      fun e he hec => ih e.index hec.before e rfl he (hec.trans hcb)
    cases hstate : Plan.isActive desired c.index with
    | false => exact inactive_settled hs h hc hkeepsc haround hstate
    | true => exact hactive c hc hcb hkeepsc hstate haround

/-- A block with a bare line outside its children is read as it was left. -/
theorem Rooted.readBack (hs : d.style.Tidy) (h : d.Sound) (hb : b ∈ d.blocks)
    (hroot : d.Rooted b) (hkeeps : d.KeepsText desired b) (haround : d.ReadAround desired b) :
    Plan.isActive (d.settled desired).states b.index = Plan.isActive desired b.index := by
  cases hstate : Plan.isActive desired b.index with
  | false => exact inactive_settled hs h hb hkeeps haround hstate
  | true =>
    have hshown := hroot.shown hs h (h.arena.getElem?_index hb) hstate
    exact (active_settled_iff h hb hkeeps haround).mpr hshown

theorem readAround_of_rooted (hs : d.style.Tidy) (h : d.Sound) (hkeeps : d.KeepsText desired b)
    (hroots : ∀ c ∈ d.blocks, c.Encloses b → d.Rooted c) : d.ReadAround desired b := by
  apply readAround_of_active hs h hkeeps
  intro c hc hcb hkeepsc hstate haround
  rw [(hroots c hc hcb).readBack hs h hc hkeepsc haround]
  exact hstate

end Blocks

/-- Every block that is left active with text is shown. -/
def AllShown (d : Document) (desired : List Bool) : Prop :=
  ∀ b ∈ d.blocks, d.KeepsText desired b → Plan.isActive desired b.index = true →
    d.Shown desired b

instance (d : Document) (desired : List Bool) : Decidable (d.AllShown desired) :=
  List.decidableBAll _ _

/-- The states asked for are the states read, wherever there is text, exactly when every
block left active is shown. -/
theorem allShown_iff {d : Document} (hs : d.style.Tidy) (h : d.Sound) {desired : List Bool} :
    d.AllShown desired ↔ ∀ b ∈ d.blocks, d.KeepsText desired b →
      Plan.isActive (d.settled desired).states b.index = Plan.isActive desired b.index := by
  constructor
  · intro hshown b hb hkeeps
    have haround : d.ReadAround desired b := by
      apply readAround_of_active hs h hkeeps
      intro c hc _ hkeepsc hstate haround
      exact (active_settled_iff h hc hkeepsc haround).mpr (hshown c hc hkeepsc hstate)
    cases hstate : Plan.isActive desired b.index with
    | false => exact inactive_settled hs h hb hkeeps haround hstate
    | true => exact (active_settled_iff h hb hkeeps haround).mpr (hshown b hb hkeeps hstate)
  · intro hback b hb hkeeps hstate
    have haround : d.ReadAround desired b :=
      fun c hc hcb => hback c hc (hkeeps.of_encloses hcb)
    exact (active_settled_iff h hb hkeeps haround).mp ((hback b hb hkeeps).trans hstate)

/-- A line keeps its core when the blocks around it are read back. -/
theorem core_settled {d : Document} (hs : d.style.Tidy) (h : d.Sound) {desired : List Bool}
    {l : Line} (hl : l ∈ d.lines) (hown : l.isOwnText = true)
    (hdepth : d.depthAt (d.settled desired).states l.index = d.depthAt desired l.index) :
    (d.settled desired).core (d.rewritten desired l) = d.core l := by
  obtain ⟨rest, hrest, hcore⟩ := stripTimes?_rewritten hs h desired hl hown
  change trimStart ((Layer.stripTimes? d.style (d.depthAt (d.settled desired).states l.index)
    (d.rewritten desired l).content).getD _) = _
  rw [hdepth, hrest]
  exact hcore

end Document

end CommentToggle
