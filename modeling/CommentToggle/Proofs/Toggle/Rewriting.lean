import CommentToggle.Proofs.Plan.Layers
import CommentToggle.Toggle

/-!
What a toggle writes. Each line is written again with the layers its plan gives it,
and read as a line of its own; a line that gains no layer stays as it is. Since a
line has as many layers as inactive blocks around it, the layers to be taken off
are always there.
-/
namespace CommentToggle

open Text

namespace Document

/-- The content of a line when the blocks take the given states. -/
def contentAt (d : Document) (desired : List Bool) (l : Line) : Text :=
  let held := d.depthAt d.states l.index
  let want := d.depthAt desired l.index
  if !l.isOwnText then l.content
  else if held ≤ want then Layer.addTimes d.style d.spaced (want - held) l.content
  else (Layer.stripTimes? d.style (held - want) l.content).getD l.content

/-- The line as it is read after the toggle. -/
def rewritten (d : Document) (desired : List Bool) (l : Line) : Line :=
  { Line.ofBody l.index (l.indent ++ d.contentAt desired l) l.terminator with
    directive := l.directive }

@[simp] theorem index_rewritten (d : Document) (desired : List Bool) (l : Line) :
    (d.rewritten desired l).index = l.index := rfl

@[simp] theorem terminator_rewritten (d : Document) (desired : List Bool) (l : Line) :
    (d.rewritten desired l).terminator = l.terminator := rfl

@[simp] theorem directive_rewritten (d : Document) (desired : List Bool) (l : Line) :
    (d.rewritten desired l).directive = l.directive := rfl

@[simp] theorem body_rewritten (d : Document) (desired : List Bool) (l : Line) :
    (d.rewritten desired l).body = l.indent ++ d.contentAt desired l :=
  trimStart_append_takeWhile _

theorem Sound.parts {d : Document} (h : d.Sound) {l : Line} (hl : l ∈ d.lines) :
    l.indent = l.body.takeWhile isBlank ∧ l.content = trimStart l.body := by
  have hparsed := h.parsed l hl
  exact ⟨congrArg Line.indent hparsed, congrArg Line.content hparsed⟩

theorem Sound.trimStart_indent {d : Document} (h : d.Sound) {l : Line} (hl : l ∈ d.lines)
    (t : Text) : trimStart (l.indent ++ t) = trimStart t := by
  unfold trimStart
  refine List.dropWhile_append_of_pos fun c hc => ?_
  rw [(h.parts hl).1] at hc
  exact List.mem_takeWhile_imp hc

theorem Sound.flush {d : Document} (h : d.Sound) {l : Line} (hl : l ∈ d.lines)
    (hown : l.isOwnText = true) : Flush l.content := by
  obtain ⟨-, hblank⟩ := Line.isOwnText_iff.mp hown
  rw [(h.parts hl).2]
  rcases flush_trimStart l.body with hnil | hflush
  · rw [Line.isBlank, (h.parts hl).2, hnil] at hblank
    simp at hblank
  · exact hflush

theorem content_rewritten {d : Document} (h : d.Sound) (desired : List Bool) {l : Line}
    (hl : l ∈ d.lines) : (d.rewritten desired l).content = trimStart (d.contentAt desired l) :=
  h.trimStart_indent hl _

theorem rewritten_of_content {d : Document} (h : d.Sound) {desired : List Bool} {l : Line}
    (hl : l ∈ d.lines) (heq : d.contentAt desired l = l.content) : d.rewritten desired l = l := by
  have hparsed := h.parsed l hl
  have hbody : l.indent ++ d.contentAt desired l = l.body := by rw [heq]; rfl
  unfold rewritten
  rw [hbody, ← hparsed]
  rfl

theorem contentAt_of_not_own (d : Document) (desired : List Bool) {l : Line}
    (h : l.isOwnText = false) : d.contentAt desired l = l.content := by
  simp [contentAt, h]

theorem contentAt_of_le {d : Document} {desired : List Bool} {l : Line}
    (hown : l.isOwnText = true) (h : d.depthAt d.states l.index ≤ d.depthAt desired l.index) :
    d.contentAt desired l = Layer.addTimes d.style d.spaced
      (d.depthAt desired l.index - d.depthAt d.states l.index) l.content := by
  simp [contentAt, hown, h]

/-- Layers to be taken off are there. -/
theorem stripTimes?_contentAt {d : Document} (h : d.Sound) {desired : List Bool} {l : Line}
    (hl : l ∈ d.lines) (hown : l.isOwnText = true)
    (hlt : d.depthAt desired l.index < d.depthAt d.states l.index) :
    Layer.stripTimes? d.style (d.depthAt d.states l.index - d.depthAt desired l.index) l.content =
      some (d.contentAt desired l) := by
  obtain ⟨rest, hrest⟩ := Option.isSome_iff_exists.mp (isSome_stripTimes?_depthAt h.arena hl hown)
  obtain ⟨between, hbetween, -⟩ := Layer.stripTimes?_of_le
    (Nat.sub_le (d.depthAt d.states l.index) (d.depthAt desired l.index)) hrest
  rw [contentAt, hbetween]
  simp [hown, Nat.not_le_of_lt hlt]

theorem contentAt_of_gain {d : Document} {desired : List Bool} {l : Line}
    (h : d.gain desired l = 0) : d.contentAt desired l = l.content := by
  cases hown : l.isOwnText with
  | false => exact contentAt_of_not_own d desired hown
  | true =>
    have heq : d.depthAt desired l.index = d.depthAt d.states l.index := by
      rw [gain_of_own hown] at h
      omega
    rw [contentAt_of_le hown (by omega), heq, Nat.sub_self]
    rfl

theorem shift_gain {d : Document} (h : d.Sound) {desired : List Bool} {l : Line}
    (hl : l ∈ d.lines) : Layer.shift d.style d.spaced l (d.gain desired l) =
      .ok (d.rewritten desired l).body := by
  rw [body_rewritten]
  cases hown : l.isOwnText with
  | false =>
    rw [contentAt_of_not_own d desired hown, gain_of_not_own hown, Layer.shift_zero]
    rfl
  | true =>
    by_cases hle : d.depthAt d.states l.index ≤ d.depthAt desired l.index
    · have hgain : d.gain desired l =
          .ofNat (d.depthAt desired l.index - d.depthAt d.states l.index) := by
        rw [gain_of_own hown, Int.ofNat_eq_natCast]
        omega
      rw [contentAt_of_le hown hle, hgain]
      rfl
    · have hstrip := stripTimes?_contentAt h hl hown (Nat.lt_of_not_le hle)
      obtain ⟨n, hn⟩ : ∃ n, d.depthAt d.states l.index - d.depthAt desired l.index = n + 1 :=
        ⟨d.depthAt d.states l.index - d.depthAt desired l.index - 1, by omega⟩
      have hgain : d.gain desired l = .negSucc n := by
        rw [gain_of_own hown]
        omega
      rw [hn] at hstrip
      rw [hgain, Layer.shift, hstrip]

/-- The text with every line as the given states have it. -/
def textAt (d : Document) (desired : List Bool) : Text :=
  ofLines ((d.lines.map (d.rewritten desired)).map Line.raw)

/-- The layers that are planned can all be shifted. -/
theorem shiftLayers_planTo {d : Document} (h : d.Sound) (desired : List Bool) :
    d.shiftLayers (d.planTo desired) = .ok (d.lines.map fun l => (d.rewritten desired l).body) := by
  unfold shiftLayers
  refine Outcome.mapM_eq_ok_map fun l hl => ?_
  rw [layersOf_planTo h.indexed desired hl]
  exact shift_gain h hl

theorem render_rewritten (d : Document) (desired : List Bool) :
    d.render (d.lines.map fun l => (d.rewritten desired l).body) = d.textAt desired :=
  render_map d (d.rewritten desired) fun _ _ => rfl

theorem toggle_eq_ok_iff {d : Document} (h : d.Sound) {r : Request} {done : Toggled} :
    d.toggle r = .ok done ↔ r.check d.groupNames = .ok () ∧ ∃ desired,
      r.select d d.states = .ok desired ∧ (∀ l ∈ d.lines, d.reserves desired l = false) ∧
        done = ⟨d, d.planTo desired, d.textAt desired⟩ := by
  unfold toggle
  simp only [Outcome.bind_eq_ok_iff, make_eq_ok_iff]
  constructor
  · intro hspec
    obtain ⟨p, ⟨hcheck, desired, hselect, hfree, rfl⟩, bodies, hbodies, hdone⟩ := hspec
    rw [shiftLayers_planTo h] at hbodies
    cases hbodies
    cases hdone
    exact ⟨hcheck, desired, hselect, hfree, by rw [render_rewritten]⟩
  · intro hspec
    obtain ⟨hcheck, desired, hselect, hfree, rfl⟩ := hspec
    refine ⟨_, ⟨hcheck, desired, hselect, hfree, rfl⟩, _, shiftLayers_planTo h desired, ?_⟩
    rw [render_rewritten]
    rfl

end Document

theorem toggle_eq_ok_iff {s : Style} {t : Text} {r : Request} {done : Toggled} :
    toggle s t r = .ok done ↔ ∃ d desired, Document.read s t = .ok d ∧
      r.check d.groupNames = .ok () ∧ r.select d d.states = .ok desired ∧
      (∀ l ∈ d.lines, d.reserves desired l = false) ∧
      done = ⟨d, d.planTo desired, d.textAt desired⟩ := by
  unfold toggle
  rw [Outcome.bind_eq_ok_iff]
  constructor
  · intro h
    obtain ⟨d, hread, htoggle⟩ := h
    obtain ⟨hcheck, desired, hselect, hfree, hdone⟩ :=
      (Document.toggle_eq_ok_iff (Document.sound_of_read hread)).mp htoggle
    exact ⟨d, desired, hread, hcheck, hselect, hfree, hdone⟩
  · intro h
    obtain ⟨d, desired, hread, hcheck, hselect, hfree, hdone⟩ := h
    exact ⟨d, hread, (Document.toggle_eq_ok_iff (Document.sound_of_read hread)).mpr
      ⟨hcheck, desired, hselect, hfree, hdone⟩⟩

theorem done_of_toggle {s : Style} {t : Text} {d : Document} {r : Request} {done : Toggled}
    (hread : Document.read s t = .ok d) (h : toggle s t r = .ok done) :
    ∃ desired, r.select d d.states = .ok desired ∧
      done = ⟨d, d.planTo desired, d.textAt desired⟩ := by
  obtain ⟨e, desired, he, -, hselect, -, hdone⟩ := toggle_eq_ok_iff.mp h
  rw [hread, Except.ok.injEq] at he
  subst he
  exact ⟨desired, hselect, hdone⟩

/-- A request that names or selects wrongly is refused for that. -/
theorem toggle_of_refused {s : Style} {t : Text} {d : Document} {r : Request} {f : Fault}
    (hread : Document.read s t = .ok d)
    (h : (do r.check d.groupNames; r.select d d.states) = .error f) :
    toggle s t r = .error f := by
  unfold toggle Document.toggle Plan.make
  rw [hread]
  cases hcheck : r.check d.groupNames with
  | error g =>
    rw [hcheck] at h
    cases h
    simp [hcheck, bind, Except.bind]
  | ok =>
    cases hselect : r.select d d.states with
    | ok desired => simp [hcheck, hselect, bind, Except.bind] at h
    | error g =>
      rw [hcheck, hselect] at h
      cases h
      simp [hcheck, hselect, bind, Except.bind]

end CommentToggle
