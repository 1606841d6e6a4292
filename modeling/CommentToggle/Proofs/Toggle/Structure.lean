import CommentToggle.Proofs.Toggle.Rewriting

/-!
When a toggle keeps the structure of a text. The lines that were given or relieved
of layers must not show the marker, must not be lost or joined, and must leave every
block with nested blocks a line of its own. Under exactly these conditions the text
is read again with the same lines, directives, blocks and group sets; the guard
against reserved content alone does not ensure them.
-/
namespace CommentToggle

open Text

namespace Document

/-- Read with the same lines, directives, blocks and group sets, up to what the lines say. -/
structure Alike (d e : Document) : Prop where
  endings : e.lines.map (·.terminator) = d.lines.map (·.terminator)
  directives : e.directives = d.directives
  blocks : e.blocks = d.blocks
  groupSets : e.groupSets = d.groupSets

instance (d e : Document) : Decidable (d.Alike e) :=
  decidable_of_iff
    (e.lines.map (·.terminator) = d.lines.map (·.terminator) ∧ e.directives = d.directives ∧
      e.blocks = d.blocks ∧ e.groupSets = d.groupSets)
    ⟨fun h => ⟨h.1, h.2.1, h.2.2.1, h.2.2.2⟩, fun h => ⟨h.1, h.2, h.3, h.4⟩⟩

/-- What taking the given states must not do to the lines. -/
structure Harmless (d : Document) (desired : List Bool) : Prop where
  unmarked : ∀ l ∈ d.lines, d.gain desired l ≠ 0 →
    Directive.marked? d.style (d.rewritten desired l).content = none
  apart : Apart ((d.lines.map (d.rewritten desired)).map Line.raw)
  own : ∀ b ∈ d.blocks,
    Block.hasOwnLine (d.lines.map (d.rewritten desired)) d.blocks b = true

instance (d : Document) (desired : List Bool) : Decidable (d.Harmless desired) :=
  decidable_of_iff
    ((∀ l ∈ d.lines, d.gain desired l ≠ 0 →
        Directive.marked? d.style (d.rewritten desired l).content = none) ∧
      Apart ((d.lines.map (d.rewritten desired)).map Line.raw) ∧
      ∀ b ∈ d.blocks, Block.hasOwnLine (d.lines.map (d.rewritten desired)) d.blocks b = true)
    ⟨fun h => ⟨h.1, h.2.1, h.2.2⟩, fun h => ⟨h.1, h.2, h.3⟩⟩

/-- The document with every line as the given states have it. -/
def settled (d : Document) (desired : List Bool) : Document :=
  { d with lines := d.lines.map (d.rewritten desired) }

theorem alike_settled (d : Document) (desired : List Bool) : d.Alike (d.settled desired) where
  endings := by simp [settled, Function.comp_def]
  directives := rfl
  blocks := rfl
  groupSets := rfl

theorem own_of_gain {d : Document} {desired : List Bool} {l : Line}
    (h : d.gain desired l ≠ 0) : l.isOwnText = true := by
  cases hown : l.isOwnText with
  | true => rfl
  | false => exact absurd (gain_of_not_own hown desired) h

theorem unbroken_contentAt {d : Document} (hs : d.style.Inline) {desired : List Bool} {l : Line}
    (h : d.Sound) (hl : l ∈ d.lines) : Unbroken (d.contentAt desired l) := by
  have hcontent : Unbroken l.content := Unbroken.right (h.unbroken l hl)
  cases hown : l.isOwnText with
  | false => rwa [contentAt_of_not_own d desired hown]
  | true =>
    by_cases hle : d.depthAt d.states l.index ≤ d.depthAt desired l.index
    · rw [contentAt_of_le hown hle]
      exact Layer.unbroken_addTimes hs _ _ hcontent
    · have hstrip := stripTimes?_contentAt h hl hown (Nat.lt_of_not_le hle)
      exact Layer.unbroken_stripTimes? hcontent hstrip

theorem unbroken_rewritten {d : Document} (hs : d.style.Inline) (h : d.Sound)
    (desired : List Bool) {l : Line} (hl : l ∈ d.lines) :
    Unbroken (d.rewritten desired l).body := by
  rw [body_rewritten]
  exact Unbroken.append (Unbroken.left (h.unbroken l hl)) (unbroken_contentAt hs h hl)

theorem parsed_rewritten (d : Document) (desired : List Bool) (l : Line) :
    (d.rewritten desired l).plain =
      Line.ofBody l.index (d.rewritten desired l).body l.terminator := by
  rw [body_rewritten]
  rfl

theorem fits_rewritten {d : Document} (hs : d.style.Inline) (h : d.Sound) {desired : List Bool}
    (hunmarked : ∀ l ∈ d.lines, d.gain desired l ≠ 0 →
      Directive.marked? d.style (d.rewritten desired l).content = none)
    (hapart : Apart ((d.lines.map (d.rewritten desired)).map Line.raw)) :
    d.Fits (d.rewritten desired) where
  index := fun _ _ => rfl
  directive := fun _ _ => rfl
  parsed := fun l _ => parsed_rewritten d desired l
  unbroken := fun l hl => unbroken_rewritten hs h desired hl
  content := by
    intro l hl hdirective
    have hown : l.isOwnText = false := by simp [Line.isOwnText, hdirective]
    rw [rewritten_of_content h hl (contentAt_of_not_own d desired hown)]
  unmarked := by
    intro l hl hdirective
    by_cases hgain : d.gain desired l = 0
    · rw [rewritten_of_content h hl (contentAt_of_gain hgain)]
      have hnone := h.directive_iff l hl
      rw [hdirective] at hnone
      simpa using hnone
    · exact hunmarked l hl hgain
  apart := hapart

theorem read_textAt {s : Style} (hs : s.Inline) {t : Text} {d : Document} (h : read s t = .ok d)
    {desired : List Bool} (hharmless : d.Harmless desired) :
    read s (d.textAt desired) = .ok (d.settled desired) := by
  have hstyle := (read_eq_ok_iff.mp h).1
  have hfits := fits_rewritten (hstyle ▸ hs) (sound_of_read h) hharmless.unmarked hharmless.apart
  exact (hfits.read_iff h).mpr ⟨hharmless.own, rfl⟩

theorem directive_of_listed {s : Style} {t : Text} {d : Document} (h : read s t = .ok d)
    {l : Line} (hl : l ∈ d.lines) {e : Directive} (he : e ∈ d.directives)
    (hline : e.line = l.index) : l.directive = true := by
  obtain ⟨m, -, rfl⟩ := (mem_lines_iff h).mp hl
  obtain ⟨hindex, -, -, -, hdirective⟩ := flagged_spec d.directives m
  have hlisted : listed d.directives m.index = true :=
    List.any_eq_true.mpr ⟨e, he, decide_eq_true (hline.trans hindex)⟩
  rw [hdirective, hlisted]
  rfl

/-- The lines come back with their terminators only when none is lost or joined. -/
theorem apart_of_alike {s : Style} (hs : s.Inline) {t : Text} {d e : Document}
    (h : read s t = .ok d) {desired : List Bool} (hread : read s (d.textAt desired) = .ok e)
    (halike : d.Alike e) : Apart ((d.lines.map (d.rewritten desired)).map Line.raw) := by
  have hstyle := (read_eq_ok_iff.mp h).1
  have hunbroken : ∀ r ∈ (d.lines.map (d.rewritten desired)).map Line.raw, Unbroken r.body := by
    intro r hr
    rw [List.map_map] at hr
    obtain ⟨l, hl, rfl⟩ := List.mem_map.mp hr
    exact unbroken_rewritten (hstyle ▸ hs) (sound_of_read h) desired hl
  have hlen : e.lines.length = d.lines.length := by
    have hmap := congrArg List.length halike.endings
    rwa [List.length_map, List.length_map] at hmap
  apply (length_lines_ofLines hunbroken).2
  change (Text.lines (d.textAt desired)).length = _
  rw [← map_raw_lines hread]
  simp [hlen]

/-- Where no line is lost or joined, the lines are read as they were written. -/
theorem ofText_textAt {d : Document} (hs : d.style.Inline) (h : d.Sound) {desired : List Bool}
    (hapart : Apart ((d.lines.map (d.rewritten desired)).map Line.raw)) :
    Line.ofText (d.textAt desired) = (d.lines.map (d.rewritten desired)).map Line.plain := by
  refine Line.ofText_ofLines (h.indexed.map fun _ _ => rfl) ?_ ?_ hapart
  · intro m hm
    obtain ⟨l, -, rfl⟩ := List.mem_map.mp hm
    exact parsed_rewritten d desired l
  · intro m hm
    obtain ⟨l, hl, rfl⟩ := List.mem_map.mp hm
    exact unbroken_rewritten hs h desired hl

/-- A changed line that shows the marker is read as a directive that was not there. -/
theorem unmarked_of_alike {s : Style} (hs : s.Inline) {t : Text} {d e : Document}
    (h : read s t = .ok d) {desired : List Bool} (hread : read s (d.textAt desired) = .ok e)
    (halike : d.Alike e) {l : Line} (hl : l ∈ d.lines) (hgain : d.gain desired l ≠ 0) :
    Directive.marked? d.style (d.rewritten desired l).content = none := by
  have hsound := sound_of_read h
  have hstyle := (read_eq_ok_iff.mp h).1
  have hlines := ofText_textAt (hstyle ▸ hs) hsound (apart_of_alike hs h hread halike)
  obtain ⟨-, hscan, -⟩ := read_eq_ok_iff.mp hread
  have hfound := Directive.found_of_scan hscan
  rw [hlines, halike.directives] at hfound
  have hplain : (d.rewritten desired l).plain ∈
      (d.lines.map (d.rewritten desired)).map Line.plain :=
    List.mem_map_of_mem (List.mem_map_of_mem hl)
  by_contra hsome
  have hmarked : (Directive.marked? s (d.rewritten desired l).plain.content).isSome = true := by
    rw [← hstyle]
    exact Option.isSome_iff_ne_none.mpr hsome
  obtain ⟨f, hf, hline⟩ := hfound.every _ hplain hmarked
  have hdirective := directive_of_listed h hl hf hline
  obtain ⟨hnot, -⟩ := Line.isOwnText_iff.mp (own_of_gain hgain)
  rw [hdirective] at hnot
  simp at hnot

theorem harmless_of_alike {s : Style} (hs : s.Inline) {t : Text} {d e : Document}
    (h : read s t = .ok d) {desired : List Bool} (hread : read s (d.textAt desired) = .ok e)
    (halike : d.Alike e) : d.Harmless desired := by
  have hstyle := (read_eq_ok_iff.mp h).1
  have hunmarked : ∀ l ∈ d.lines, d.gain desired l ≠ 0 →
      Directive.marked? d.style (d.rewritten desired l).content = none :=
    fun l hl hgain => unmarked_of_alike hs h hread halike hl hgain
  have hapart := apart_of_alike hs h hread halike
  have hfits := fits_rewritten (hstyle ▸ hs) (sound_of_read h) hunmarked hapart
  exact ⟨hunmarked, hapart, ((hfits.read_iff h).mp hread).1⟩

end Document

/-- A toggled text is read with the same structure exactly when the toggle uncovers no
marker, loses no line, and takes no block its last own line. -/
theorem toggle_alike_iff {s : Style} (hs : s.Inline) {t : Text} {r : Request} {done : Toggled}
    (h : toggle s t r = .ok done) :
    (∃ e, Document.read s done.text = .ok e ∧ done.document.Alike e) ↔
      done.document.Harmless done.plan.desired := by
  obtain ⟨d, desired, hread, -, -, -, rfl⟩ := toggle_eq_ok_iff.mp h
  constructor
  · intro hkept
    obtain ⟨e, he, halike⟩ := hkept
    exact Document.harmless_of_alike hs hread he halike
  · intro hharmless
    exact ⟨d.settled desired, Document.read_textAt hs hread hharmless, d.alike_settled desired⟩

/-- A line that is laid bare may become a directive. -/
theorem toggle_alike_hidden :
    (∃ done, toggle .hash "# smc:begin a\n# # x\n# smc:end a\n".toList ⟨[['a']], [], false⟩ =
        .ok done ∧ ∃ e, Document.read .hash done.text = .ok e ∧ done.document.Alike e) ∧
    ∃ done, toggle .hash "# smc:begin a\n# # smc:flag z\n# smc:end a\n".toList
        ⟨[['a']], [], false⟩ = .ok done ∧
      ¬ ∃ e, Document.read .hash done.text = .ok e ∧ done.document.Alike e := by
  constructor
  · obtain ⟨done, hdone, hharmless⟩ := Outcome.exists_of_passes
      (x := toggle .hash "# smc:begin a\n# # x\n# smc:end a\n".toList ⟨[['a']], [], false⟩)
      (p := fun done => decide (done.document.Harmless done.plan.desired)) (by decide +kernel)
    exact ⟨done, hdone,
      (toggle_alike_iff Style.regular_hash.toInline hdone).mpr (of_decide_eq_true hharmless)⟩
  · obtain ⟨done, hdone, hharmful⟩ := Outcome.exists_of_passes
      (x := toggle .hash "# smc:begin a\n# # smc:flag z\n# smc:end a\n".toList
        ⟨[['a']], [], false⟩)
      (p := fun done => decide (¬ done.document.Harmless done.plan.desired)) (by decide +kernel)
    exact ⟨done, hdone,
      (toggle_alike_iff Style.regular_hash.toInline hdone).not.mpr (of_decide_eq_true hharmful)⟩

end CommentToggle
