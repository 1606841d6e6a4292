import CommentToggle.Proofs.Selection.Switch
import CommentToggle.Proofs.Toggle.HandWritten

/-!
Switching a group off and on again. Layers that were only added come off again as they
were put on, so the text is back when the states of the blocks with text are. That the
states are read back is all that can fail, and it fails only where the closer of a new
layer completes the marker: such a line is no directive that can be read, and the second
request is refused.
-/
namespace CommentToggle

open Text

namespace Layer

/-- A closer that completes the marker is used up by it. -/
theorem closer_of_completed {s : Style} {spaced : Bool} {content rest : Text}
    (hnot : ¬ marker <+: content) (h : marker ++ rest = content ++ behind s spaced) :
    ∃ q, s.closer = some q ∧ rest.length < q.length := by
  rcases List.append_eq_append_iff.mp h with ⟨tail, hcontent, -⟩ | ⟨part, hmarker, hbehind⟩
  · exact absurd ⟨tail, hcontent.symm⟩ hnot
  · have hpart : part ≠ [] := by
      rintro rfl
      rw [List.append_nil] at hmarker
      exact hnot (hmarker ▸ List.prefix_refl _)
    unfold behind at hbehind
    cases hq : s.closer with
    | none =>
      rw [hq] at hbehind
      exact absurd (List.append_eq_nil_iff.mp hbehind.symm).1 hpart
    | some q =>
      rw [hq] at hbehind
      refine ⟨q, rfl, ?_⟩
      cases spaced with
      | true =>
        -- The space before the closer would have to stand in the marker.
        obtain ⟨c, part, rfl⟩ := List.exists_cons_of_ne_nil hpart
        simp only [gap, if_true, List.cons_append, List.nil_append, List.cons.injEq] at hbehind
        have hspace : ' ' ∈ marker := by
          rw [hmarker, hbehind.1]
          simp
        exact absurd hspace (by decide)
      | false =>
        have hlen := congrArg List.length hbehind
        have hpos := List.length_pos_iff.mpr hpart
        simp only [gap, Bool.false_eq_true, if_false, List.nil_append, List.length_append] at hlen
        omega

/-- A line whose closer completes the marker cannot be read. -/
theorem malformed_of_completed {s : Style} {spaced : Bool} {content : Text}
    (hflush : Flush content) (hnot : ¬ marker <+: content)
    (h : marker <+: content ++ behind s spaced) {l : Line} (hl : l.content = add s spaced content) :
    ∃ reason, Directive.ofLine? s l = .error (.malformed l.index reason) := by
  obtain ⟨rest, hrest⟩ := h
  obtain ⟨q, hq, hlen⟩ := closer_of_completed hnot hrest
  have hmarked : Directive.marked? s l.content = some (spaced, rest) := by
    unfold Directive.marked?
    rw [hl, uncover?_add s spaced hflush]
    simp only [Option.bind_some, List.isPrefixOf?_eq_some_iff_append_eq.mpr hrest, Option.map_some]
  have hcut : Style.cutCloser? q (trimEnd rest) = none := by
    have hsuffix : q.isSuffixOf (trimEnd rest) = false := by
      by_contra hsome
      have hle := (List.isSuffixOf_iff_suffix.mp (Bool.not_eq_false _ ▸ hsome)).length_le
      have htrim := length_trimEnd_le rest
      omega
    rw [Style.cutCloser?, hsuffix]
    rfl
  have hbody : Directive.readBody s l.index spaced rest = .error (.missingCloser q) := by
    unfold Directive.readBody Directive.withoutCloser
    rw [hq]
    simp only [hcut]
    rfl
  refine ⟨.missingCloser q, ?_⟩
  unfold Directive.ofLine?
  simp only [hmarked, hbody]

end Layer

namespace Document

variable {d : Document} {desired : List Bool}

/-- When a line's closer completes the marker, what was written cannot be read. -/
theorem malformed_of_completes {s : Style} (hs : s.Regular) {t : Text} (hread : read s t = .ok d)
    (hfree : ∀ l ∈ d.lines, d.reserves desired l = false) (hlegible : d.Legible desired)
    {l : Line} (hl : l ∈ d.lines) (hcompletes : d.Completes desired l) :
    ∃ line reason, read s (d.textAt desired) = .error (.malformed line reason) := by
  have hsound := sound_of_read hread
  have hstyle := (read_eq_ok_iff.mp hread).1
  obtain ⟨hown, hheld, hwant, hmarker⟩ := hcompletes
  have hflush := hsound.flush hl hown
  have hnot : ¬ marker <+: l.content := by
    intro hprefix
    have hreserves := hfree l hl
    simp [reserves, hown, hheld, hwant, List.isPrefixOf_iff_prefix.mpr hprefix] at hreserves
  have hcontent : (d.rewritten desired l).plain.content = Layer.add s d.spaced l.content := by
    change (d.rewritten desired l).content = _
    rw [content_rewritten hsound desired hl, contentAt_of_le hown (by omega), hheld, hwant, hstyle]
    exact (Layer.flush_add hs.toTidy _ _).trimStart
  rw [hstyle] at hmarker
  obtain ⟨reason, hline⟩ := Layer.malformed_of_completed hflush hnot hmarker hcontent
  have hregular : d.style.Regular := hstyle ▸ hs
  have hapart : Apart ((d.lines.map (d.rewritten desired)).map Line.raw) :=
    apart_settled hsound fun m hm => hlegible.own_rewritten hregular.toTidy hsound hm
  have hlines := ofText_textAt hregular.toInline hsound hapart
  have hmem : (d.rewritten desired l).plain ∈ Line.ofText (d.textAt desired) := by
    rw [hlines]
    exact List.mem_map_of_mem (List.mem_map_of_mem hl)
  cases hscan : Directive.scan s (Line.ofText (d.textAt desired)) with
  | ok ds =>
    obtain ⟨found, hfound⟩ :=
      Directive.exists_ofLine?_of_scanFrom (Directive.scan_eq_ok_iff.mp hscan) _ hmem
    rw [hline] at hfound
    cases hfound
  | error f =>
    obtain ⟨line, reason, rfl⟩ := Directive.malformed_of_scan hscan
    refine ⟨line, reason, ?_⟩
    simp only [read, hscan]
    rfl

/-- The states read from what was written for the given states, wherever there is text. -/
def ReadAs (d : Document) (desired : List Bool) : Prop :=
  ∀ b ∈ d.blocks, (∃ l, l ∈ b.ownText d.lines) →
    Plan.isActive (d.settled desired).states b.index = Plan.isActive desired b.index

theorem readAs_of_rooted (hs : d.style.Tidy) (h : d.Sound) (hlegible : d.Legible desired)
    (hroots : ∀ b ∈ d.blocks, (∃ l, l ∈ b.ownText d.lines) → d.Rooted b) : d.ReadAs desired := by
  have hshown : d.AllShown desired := by
    intro b hb hkeeps hstate
    have hroot := hroots b hb (hkeeps.text hs h)
    exact hroot.shown hs h (h.arena.getElem?_index hb) hstate
  rintro b hb ⟨l, hl⟩
  obtain ⟨hmem, hin, hown⟩ := mem_ownText.mp hl
  have hkeeps : d.KeepsText desired b := ⟨_, mem_ownText_settled_iff.mpr
    ⟨l, hmem, hin, hlegible.own_rewritten hs h hmem hown, rfl⟩⟩
  exact (allShown_iff hs h).mp hshown b hb hkeeps

/-- A line that only gained layers is back when they are taken off. -/
theorem rewritten_rewritten (hs : d.style.Tidy) (h : d.Sound) (hback : d.ReadAs desired)
    {back : List Bool} (hsame : ∀ b ∈ d.blocks, (∃ l, l ∈ b.ownText d.lines) →
      Plan.isActive back b.index = Plan.isActive d.states b.index)
    {l : Line} (hl : l ∈ d.lines) (hgain : 0 ≤ d.gain desired l) :
    ((d.settled desired).rewritten back (d.rewritten desired l)).raw = l.raw := by
  cases hown : l.isOwnText with
  | false =>
    have hkept := rewritten_of_content h hl (contentAt_of_not_own d desired hown)
    rw [hkept]
    change RawLine.mk (Line.body _) _ = _
    rw [body_rewritten, contentAt_of_not_own _ back hown]
    rfl
  | true =>
    have hflush := h.flush hl hown
    have hle : d.depthAt d.states l.index ≤ d.depthAt desired l.index := by
      rw [gain_of_own hown] at hgain
      omega
    have hadded := Layer.flush_addTimes hs d.spaced
      (d.depthAt desired l.index - d.depthAt d.states l.index) hflush
    have hcontent : (d.rewritten desired l).content = Layer.addTimes d.style d.spaced
        (d.depthAt desired l.index - d.depthAt d.states l.index) l.content := by
      rw [content_rewritten h desired hl, contentAt_of_le hown hle, hadded.trimStart]
    have hindent : (d.rewritten desired l).indent = l.indent := by
      have hbody := body_rewritten d desired l
      rw [Line.body, hcontent, contentAt_of_le hown hle] at hbody
      exact List.append_cancel_right hbody
    have hown' : (d.rewritten desired l).isOwnText = true := by
      obtain ⟨hdirective, -⟩ := Line.isOwnText_iff.mp hown
      refine Line.isOwnText_iff.mpr ⟨hdirective, Line.isBlank_eq_false_iff.mpr ?_⟩
      rw [hcontent, hadded.trimStart]
      exact hadded.ne_nil
    have hheld : (d.settled desired).depthAt (d.settled desired).states l.index =
        d.depthAt desired l.index := depthAt_congr h.arena hback hl hown
    have hwant : (d.settled desired).depthAt back l.index = d.depthAt d.states l.index :=
      depthAt_congr h.arena hsame hl hown
    have hstrip : Layer.stripTimes? d.style
        (d.depthAt desired l.index - d.depthAt d.states l.index)
        (d.rewritten desired l).content = some l.content := by
      have htimes := Layer.stripTimes?_addTimes hs d.spaced 0
        (d.depthAt desired l.index - d.depthAt d.states l.index) hflush
      rw [hcontent]
      exact htimes
    have hrestored : (d.settled desired).contentAt back (d.rewritten desired l) = l.content := by
      unfold contentAt
      simp only [hown', index_rewritten, hheld, hwant]
      by_cases heq : d.depthAt desired l.index = d.depthAt d.states l.index
      · rw [heq, Nat.sub_self] at hcontent ⊢
        simp only [Bool.not_true, Bool.false_eq_true, if_false, Nat.le_refl, if_true]
        exact hcontent
      · have hlt : ¬ d.depthAt desired l.index ≤ d.depthAt d.states l.index := by omega
        simp only [Bool.not_true, Bool.false_eq_true, if_false, hlt]
        change (Layer.stripTimes? d.style _ _).getD _ = _
        rw [hstrip]
        rfl
    change RawLine.mk (Line.body _) _ = _
    rw [body_rewritten, hindent, hrestored]
    rfl

theorem textAt_textAt {s : Style} {t : Text} (hread : read s t = .ok d) (hs : s.Tidy)
    (hback : d.ReadAs desired) {back : List Bool}
    (hsame : ∀ b ∈ d.blocks, (∃ l, l ∈ b.ownText d.lines) →
      Plan.isActive back b.index = Plan.isActive d.states b.index)
    (hgain : ∀ l ∈ d.lines, 0 ≤ d.gain desired l) : (d.settled desired).textAt back = t := by
  have hsound := sound_of_read hread
  have hstyle := (read_eq_ok_iff.mp hread).1
  have hraws : ((d.settled desired).lines.map ((d.settled desired).rewritten back)).map Line.raw =
      d.lines.map Line.raw := by
    simp only [settled, List.map_map]
    exact List.map_congr_left fun l hl =>
      rewritten_rewritten (hstyle ▸ hs) hsound hback hsame hl (hgain l hl)
  exact (congrArg ofLines hraws).trans (ofLines_lines_of_read hread)

/-- Switching off only adds layers. -/
theorem gain_selected_off (h : d.Sound) (hplain : ∀ b ∈ d.blocks, b.isConditional = false)
    (g : Text) (l : Line) : 0 ≤ d.gain ((Request.off g).selected d d.states) l := by
  have hle : d.depthAt d.states l.index ≤
      d.depthAt ((Request.off g).selected d d.states) l.index := by
    refine List.countP_mono_left fun b hb hoff => ?_
    have hmem := (List.mem_filter.mp hb).1
    rw [Request.isActive_selected_off h g d.length_states hmem (hplain b hmem)]
    rw [Bool.not_eq_true'] at hoff
    rw [hoff]
    rfl
  unfold gain
  split <;> omega

/-- Switching back on takes layers off again, so that nothing is reserved. -/
theorem not_reserves_settled (h : d.Sound) (hback : d.ReadAs desired) {back : List Bool}
    (hsame : ∀ b ∈ d.blocks, (∃ l, l ∈ b.ownText d.lines) →
      Plan.isActive back b.index = Plan.isActive d.states b.index)
    {l : Line} (hl : l ∈ d.lines) (hgain : 0 ≤ d.gain desired l) :
    (d.settled desired).reserves back (d.rewritten desired l) = false := by
  cases hown : l.isOwnText with
  | false =>
    rw [rewritten_of_content h hl (contentAt_of_not_own d desired hown)]
    simp [reserves, hown]
  | true =>
    have hheld : (d.settled desired).depthAt (d.settled desired).states l.index =
        d.depthAt desired l.index := depthAt_congr h.arena hback hl hown
    have hwant : (d.settled desired).depthAt back l.index = d.depthAt d.states l.index :=
      depthAt_congr h.arena hsame hl hown
    rw [gain_of_own hown] at hgain
    have hzero : d.depthAt desired l.index = 0 → d.depthAt d.states l.index = 0 := by omega
    unfold reserves
    rw [index_rewritten, hheld, hwant]
    by_cases hnone : d.depthAt desired l.index = 0
    · simp [hzero hnone]
    · simp [hnone]

end Document

/-- Switching a group that prevails off and on again restores the text, unless a closer
completes the marker; then the second request is refused. -/
theorem toggle_off_on {s : Style} (hs : s.Regular) {t g : Text} {done : Toggled}
    (h : toggle s t (.off g) = .ok done)
    (hplain : ∀ b ∈ done.document.blocks, b.isConditional = false)
    (hroots : ∀ b ∈ done.document.blocks, (∃ l, l ∈ b.ownText done.document.lines) →
      done.document.Rooted b)
    (hprevails : done.document.Prevails g) :
    ((∀ l ∈ done.document.lines, ¬ done.document.Completes done.plan.desired l) →
      ∃ back, toggle s done.text (.on g) = .ok back ∧ back.text = t) ∧
    ((∃ l ∈ done.document.lines, done.document.Completes done.plan.desired l) →
      ∃ line reason, toggle s done.text (.on g) = .error (.malformed line reason)) := by
  obtain ⟨d, desired, hread, hcheck, hselect, hfree, rfl⟩ := toggle_eq_ok_iff.mp h
  have hsound := Document.sound_of_read hread
  have hregular : d.style.Regular := (Document.read_eq_ok_iff.mp hread).1 ▸ hs
  have hdesired := (Request.select_eq_ok_iff.mp hselect).2
  have hgain : ∀ l ∈ d.lines, 0 ≤ d.gain desired l := by
    intro l _
    rw [hdesired]
    exact Document.gain_selected_off hsound hplain g l
  have hlegible : d.Legible desired := fun l hl hloss =>
    absurd (hgain l hl) (Int.not_le.mpr hloss)
  constructor
  · intro hnot
    have hback := Document.readAs_of_rooted hregular.toTidy hsound hlegible hroots
    have hagain : Document.read s (d.textAt desired) = .ok (d.settled desired) :=
      Document.read_textAt hs.toInline hread ((hlegible.harmless_iff hregular hsound).mpr hnot)
    -- The states read back differ from the first ones in the blocks of the group alone.
    have hsame : ∀ b ∈ d.blocks, (∃ l, l ∈ b.ownText d.lines) →
        Plan.isActive ((Request.on g).selected (d.settled desired) (d.settled desired).states)
          b.index = Plan.isActive d.states b.index := by
      intro b hb htext
      have hstates : Plan.isActive (d.settled desired).states b.index =
          (Plan.isActive d.states b.index && decide (b.group ≠ g)) := by
        rw [hback b hb htext, hdesired]
        exact Request.isActive_selected_off hsound g d.length_states hb (hplain b hb)
      exact hprevails.isActive_selected_on hsound (d.settled desired).length_states hb
        (hplain b hb) htext hstates
    have hcheck' : (Request.on g).check (d.settled desired).groupNames = .ok () :=
      (Request.check_on g d.groupNames).trans hcheck
    have hfree' : ∀ m ∈ (d.settled desired).lines, (d.settled desired).reserves
        ((Request.on g).selected (d.settled desired) (d.settled desired).states) m = false := by
      intro m hm
      obtain ⟨l, hl, rfl⟩ := List.mem_map.mp hm
      exact Document.not_reserves_settled hsound hback hsame hl (hgain l hl)
    refine ⟨_, toggle_eq_ok_iff.mpr ⟨_, _, hagain, hcheck', Request.select_eq_ok_iff.mpr
      ⟨fun gs _ => Request.clashes_on g d.blocks gs, rfl⟩, hfree', rfl⟩, ?_⟩
    exact Document.textAt_textAt hread hs.toTidy hback hsame hgain
  · intro hany
    obtain ⟨l, hl, hcompletes⟩ := hany
    obtain ⟨line, reason, hfault⟩ :=
      Document.malformed_of_completes hs hread hfree hlegible hl hcompletes
    refine ⟨line, reason, ?_⟩
    unfold toggle
    rw [hfault]
    rfl

/-- A group inside itself, beside a rival and around comments, comes back; a line that its
closer turns into a marker is refused. -/
theorem toggle_off_on_nested :
    (∃ done back, toggle .twofold ("#smc:flag a\nx\n  //  note\n#smc:begin a\n  y\n\n" ++
        "#smc:end\n#smc:begin b\n# z\n#smc:end\n#smc:end\nx").toList (.off ['a']) = .ok done ∧
      toggle .twofold done.text (.on ['a']) = .ok back ∧
      back.text = ("#smc:flag a\nx\n  //  note\n#smc:begin a\n  y\n\n" ++
        "#smc:end\n#smc:begin b\n# z\n#smc:end\n#smc:end\nx").toList) ∧
    ∃ done line reason,
      toggle .bracketed "(:smc:begin a:)\nsmc\n(:smc:end a:)\n".toList (.off ['a']) = .ok done ∧
      toggle .bracketed done.text (.on ['a']) = .error (.malformed line reason) := by
  constructor
  · obtain ⟨done, hdone, hkept⟩ := Outcome.exists_of_passes
      (x := toggle .twofold ("#smc:flag a\nx\n  //  note\n#smc:begin a\n  y\n\n" ++
        "#smc:end\n#smc:begin b\n# z\n#smc:end\n#smc:end\nx").toList (.off ['a']))
      (p := fun done => decide ((∀ b ∈ done.document.blocks, b.isConditional = false) ∧
        (∀ b ∈ done.document.blocks,
          (b.ownText done.document.lines).isEmpty = false → done.document.Rooted b) ∧
        done.document.Prevails ['a'] ∧
        ∀ l ∈ done.document.lines, ¬ done.document.Completes done.plan.desired l))
      (by decide +kernel)
    obtain ⟨hplain, hroots, hprevails, hnot⟩ := of_decide_eq_true hkept
    obtain ⟨back, hback, htext⟩ := (toggle_off_on Style.regular_twofold hdone hplain
      (fun b hb htext => hroots b hb (List.isEmpty_eq_false_iff_exists_mem.mpr htext))
      hprevails).1 hnot
    exact ⟨done, back, hdone, hback, htext⟩
  · obtain ⟨done, hdone, hkept⟩ := Outcome.exists_of_passes
      (x := toggle .bracketed "(:smc:begin a:)\nsmc\n(:smc:end a:)\n".toList (.off ['a']))
      (p := fun done => decide ((∀ b ∈ done.document.blocks, b.isConditional = false) ∧
        (∀ b ∈ done.document.blocks,
          (b.ownText done.document.lines).isEmpty = false → done.document.Rooted b) ∧
        done.document.Prevails ['a'] ∧
        ∃ l ∈ done.document.lines, done.document.Completes done.plan.desired l))
      (by decide +kernel)
    obtain ⟨hplain, hroots, hprevails, hcompletes⟩ := of_decide_eq_true hkept
    obtain ⟨line, reason, hfault⟩ := (toggle_off_on Style.regular_bracketed hdone hplain
      (fun b hb htext => hroots b hb (List.isEmpty_eq_false_iff_exists_mem.mpr htext))
      hprevails).2 hcompletes
    exact ⟨done, line, reason, hdone, hfault⟩

end CommentToggle
