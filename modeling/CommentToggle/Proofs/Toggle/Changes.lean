import CommentToggle.Proofs.Toggle.Structure

/-!
Which edits a text shows. The more layers a line is given, the longer it gets, so a line
tells how many it was given; and since lines keep their terminators, the whole text tells
every line. So edits of several lines never cancel out: a text changes exactly when some
layer of it is shifted, and two plans for one text that give the same text are one plan.
-/
namespace CommentToggle

open Text

namespace Document

section Lines

variable {d : Document} {desired desired' : List Bool} {l : Line}

theorem contentAt_states (d : Document) (l : Line) : d.contentAt d.states l = l.content := by
  cases hown : l.isOwnText with
  | false => exact contentAt_of_not_own d d.states hown
  | true =>
    rw [contentAt_of_le hown (Nat.le_refl _), Nat.sub_self]
    rfl

theorem contentAt_congr (h : d.gain desired l = d.gain desired' l) :
    d.contentAt desired l = d.contentAt desired' l := by
  cases hown : l.isOwnText with
  | false => rw [contentAt_of_not_own d desired hown, contentAt_of_not_own d desired' hown]
  | true =>
    have hdepth : d.depthAt desired l.index = d.depthAt desired' l.index := by
      rw [gain_of_own hown, gain_of_own hown] at h
      omega
    simp only [contentAt, hdepth]

/-- A line that is left in more inactive blocks is written longer. -/
theorem length_contentAt_lt (h : d.Sound) (hl : l ∈ d.lines) (hown : l.isOwnText = true)
    (hlt : d.depthAt desired l.index < d.depthAt desired' l.index) :
    (d.contentAt desired l).length < (d.contentAt desired' l).length := by
  by_cases hle : d.depthAt d.states l.index ≤ d.depthAt desired l.index
  · have hmore : d.depthAt desired' l.index - d.depthAt d.states l.index =
        (d.depthAt desired' l.index - d.depthAt desired l.index) +
          (d.depthAt desired l.index - d.depthAt d.states l.index) := by omega
    rw [contentAt_of_le hown hle, contentAt_of_le hown (by omega), hmore, Layer.addTimes_add]
    exact Layer.length_lt_addTimes d.spaced (by omega) _
  · have hstrip := stripTimes?_contentAt h hl hown (Nat.lt_of_not_le hle)
    by_cases hle' : d.depthAt d.states l.index ≤ d.depthAt desired' l.index
    · -- One text is shorter than the line was, the other no shorter.
      have hless := Layer.length_stripTimes?_lt (by omega) hstrip
      rw [contentAt_of_le hown hle']
      by_cases heq : d.depthAt desired' l.index - d.depthAt d.states l.index = 0
      · rw [heq]
        exact hless
      · exact hless.trans (Layer.length_lt_addTimes d.spaced (by omega) l.content)
    · have hstrip' := stripTimes?_contentAt h hl hown (Nat.lt_of_not_le hle')
      obtain ⟨between, hbetween, hrest⟩ := Layer.stripTimes?_of_le
        (m := d.depthAt d.states l.index - d.depthAt desired' l.index) (by omega) hstrip
      rw [hstrip', Option.some.injEq] at hbetween
      subst hbetween
      exact Layer.length_stripTimes?_lt (by omega) hrest

/-- The body of a line tells its gain. -/
theorem body_rewritten_eq_iff (h : d.Sound) (hl : l ∈ d.lines) :
    (d.rewritten desired l).body = (d.rewritten desired' l).body ↔
      d.gain desired l = d.gain desired' l := by
  rw [body_rewritten, body_rewritten, List.append_cancel_left_eq]
  refine ⟨fun hsame => ?_, contentAt_congr⟩
  cases hown : l.isOwnText with
  | false => rw [gain_of_not_own hown, gain_of_not_own hown]
  | true =>
    have hdepth : d.depthAt desired l.index = d.depthAt desired' l.index := by
      rcases Nat.lt_trichotomy (d.depthAt desired l.index) (d.depthAt desired' l.index) with
        hlt | heq | hlt
      · exact absurd (congrArg List.length hsame) (length_contentAt_lt h hl hown hlt).ne
      · exact heq
      · exact absurd (congrArg List.length hsame) (length_contentAt_lt h hl hown hlt).ne'
    rw [gain_of_own hown, gain_of_own hown, hdepth]

theorem gain_states (d : Document) (l : Line) : d.gain d.states l = 0 := by
  unfold gain
  split
  · exact Int.sub_self _
  · rfl

/-- A line keeps its body when the number of inactive blocks around it stays the same. -/
theorem body_rewritten_eq_self_iff (h : d.Sound) (hl : l ∈ d.lines) :
    (d.rewritten desired l).body = l.body ↔ d.gain desired l = 0 := by
  have hself : (d.rewritten d.states l).body = l.body := by
    rw [body_rewritten, contentAt_states]
    rfl
  rw [← hself, body_rewritten_eq_iff h hl, gain_states]

end Lines

section Texts

variable {d : Document} {desired desired' : List Bool}

/-- The lines of a text that was written are told apart as those that were read. -/
theorem textAt_eq_iff (hs : d.style.Inline) (h : d.Sound) :
    d.textAt desired = d.textAt desired' ↔
      ∀ l ∈ d.lines, d.gain desired l = d.gain desired' l := by
  have hends (states : List Bool) : ((d.lines.map (d.rewritten states)).map Line.raw).map
      (·.terminator) = (d.lines.map Line.raw).map (·.terminator) := by
    simp [Line.raw, Function.comp_def]
  have hunbroken (states : List Bool) :
      ∀ m ∈ (d.lines.map (d.rewritten states)).map Line.raw, Unbroken m.body := by
    intro m hm
    rw [List.map_map] at hm
    obtain ⟨l, hl, rfl⟩ := List.mem_map.mp hm
    exact unbroken_rewritten hs h states hl
  constructor
  · intro hsame l hl
    have hraw := ofLines_inj (hunbroken desired') (hunbroken desired)
      (h.apart.ended.of_terminators (hends desired'))
      ((hends desired).trans (hends desired').symm) hsame
    rw [List.map_map, List.map_map] at hraw
    have hbody := congrArg RawLine.body (List.map_inj_left.mp hraw l hl)
    exact (body_rewritten_eq_iff h hl).mp hbody
  · intro hgain
    have hlines : d.lines.map (d.rewritten desired) = d.lines.map (d.rewritten desired') :=
      List.map_congr_left fun l hl => by
        rw [rewritten, rewritten, contentAt_congr (hgain l hl)]
    rw [textAt, textAt, hlines]

theorem textAt_states (h : d.Sound) : d.textAt d.states = ofLines (d.lines.map Line.raw) := by
  have hlines : d.lines.map (d.rewritten d.states) = d.lines.map id :=
    List.map_congr_left fun l hl => rewritten_of_content h hl (contentAt_states d l)
  rw [textAt, hlines, List.map_id]

/-- The layers that are planned tell the gains, and are told by them. -/
theorem layers_planTo_eq_iff (h : d.Sound) :
    (d.planTo desired).layers = (d.planTo desired').layers ↔
      ∀ l ∈ d.lines, d.gain desired l = d.gain desired' l := by
  constructor
  · intro hsame l hl
    rw [← layersOf_planTo h.indexed desired hl, ← layersOf_planTo h.indexed desired' hl,
      Plan.layersOf, hsame]
    rfl
  · intro hgain
    exact List.filterMap_congr fun l hl => by rw [gained?, gained?, hgain l hl]

theorem layers_planTo_states (d : Document) : (d.planTo d.states).layers = [] := by
  rw [planTo, List.filterMap_eq_nil_iff]
  intro l _
  rw [gained?, if_pos (gain_states d l)]

/-- No line is listed without a layer to shift. -/
theorem changes_planTo (d : Document) (desired : List Bool) :
    (d.planTo desired).changes = true ↔ (d.planTo desired).layers ≠ [] := by
  rw [Plan.changes, List.any_eq_true]
  constructor
  · intro hany
    obtain ⟨entry, hentry, -⟩ := hany
    exact List.ne_nil_of_mem hentry
  · intro hne
    obtain ⟨entry, hentry⟩ := List.exists_mem_of_ne_nil _ hne
    obtain ⟨l, -, hl⟩ := List.mem_filterMap.mp hentry
    unfold gained? at hl
    split at hl
    · simp at hl
    · rename_i hgain
      rw [Option.some.injEq] at hl
      exact ⟨entry, hentry, by simpa [← hl] using hgain⟩

end Texts

end Document

/-- A toggle changes the text exactly when its plan lists a layer to shift, and what it
lists can be told from the text: two toggles of one text that give the same text shift the
same layers. -/
theorem toggle_changed_iff {s : Style} (hs : s.Inline) {t : Text} {r : Request} {done : Toggled}
    (h : toggle s t r = .ok done) :
    (done.changed t = true ↔ done.plan.changes = true) ∧
    (done.plan.changes = true ↔ done.plan.layers ≠ []) ∧
    ∀ (r' : Request) (done' : Toggled), toggle s t r' = .ok done' →
      (done'.text = done.text ↔ done'.plan.layers = done.plan.layers) := by
  obtain ⟨d, desired, hread, -, -, -, rfl⟩ := toggle_eq_ok_iff.mp h
  have hsound := Document.sound_of_read hread
  have hinline : d.style.Inline := (Document.read_eq_ok_iff.mp hread).1 ▸ hs
  have hsame (states states' : List Bool) : d.textAt states = d.textAt states' ↔
      (d.planTo states).layers = (d.planTo states').layers :=
    (Document.textAt_eq_iff hinline hsound).trans (Document.layers_planTo_eq_iff hsound).symm
  have hkept : d.textAt desired = t ↔ (d.planTo desired).layers = [] := by
    rw [← Document.layers_planTo_states d, ← hsame, Document.textAt_states hsound,
      Document.ofLines_lines_of_read hread]
  refine ⟨?_, Document.changes_planTo d desired, fun r' done' h' => ?_⟩
  · rw [Document.changes_planTo, ne_eq, ← hkept, Toggled.changed, bne_iff_ne]
  · obtain ⟨desired', -, rfl⟩ := done_of_toggle hread h'
    exact hsame desired' desired

/-- One line gets two characters and another loses two, behind line ends of every kind. -/
theorem toggle_changed_iff_exchange :
    ∃ done done', toggle .hash "# smc:begin a\r\nx\r# smc:end\n# smc:line b\r\n# y".toList
        ⟨[['b']], [], false⟩ = .ok done ∧
      toggle .hash "# smc:begin a\r\nx\r# smc:end\n# smc:line b\r\n# y".toList
        ⟨[['a']], [], false⟩ = .ok done' ∧
      done.text.length = done'.text.length ∧
      done.plan.layers = [(1, 1), (4, -1)] ∧ done.plan.changes = true ∧
      done.changed "# smc:begin a\r\nx\r# smc:end\n# smc:line b\r\n# y".toList = true ∧
      done'.plan.layers = [] ∧ done'.text ≠ done.text := by
  obtain ⟨done, hdone, hlayers⟩ := Outcome.exists_of_passes
    (x := toggle .hash "# smc:begin a\r\nx\r# smc:end\n# smc:line b\r\n# y".toList
      ⟨[['b']], [], false⟩)
    (p := fun done => decide (done.plan.layers = [(1, 1), (4, -1)] ∧ done.text.length = 44))
    (by decide +kernel)
  obtain ⟨done', hdone', hnone⟩ := Outcome.exists_of_passes
    (x := toggle .hash "# smc:begin a\r\nx\r# smc:end\n# smc:line b\r\n# y".toList
      ⟨[['a']], [], false⟩)
    (p := fun done => decide (done.plan.layers = [] ∧ done.text.length = 44))
    (by decide +kernel)
  obtain ⟨hshifted, hlength⟩ := of_decide_eq_true hlayers
  obtain ⟨hidle, hlength'⟩ := of_decide_eq_true hnone
  obtain ⟨hchanged, hchanges, hsame⟩ := toggle_changed_iff Style.regular_hash.toInline hdone
  have hplan : done.plan.changes = true := hchanges.mpr (by simp [hshifted])
  refine ⟨done, done', hdone, hdone', hlength.trans hlength'.symm, hshifted, hplan,
    hchanged.mpr hplan, hidle, fun htext => ?_⟩
  have hlisted := (hsame _ done' hdone').mp htext
  rw [hidle, hshifted] at hlisted
  exact absurd hlisted (by simp)

end CommentToggle
