import CommentToggle.Proofs.Selection.Stable
import CommentToggle.Proofs.Toggle.Readback

/-!
Toggling text written by hand, with layers of any spacing and with any leader. The states
that a toggle wrote are read back when every block with text has a bare line outside its
children and no line that loses layers becomes empty or shows the marker; all that can
still go wrong is a line that gets its first layer and goes on with the marker up to the
closer, which is then read as a directive.
-/
namespace CommentToggle

open Text

namespace Document

/-- No line that loses layers becomes empty or shows the marker. -/
def Legible (d : Document) (desired : List Bool) : Prop :=
  ∀ l ∈ d.lines, d.gain desired l < 0 → (d.rewritten desired l).isBlank = false ∧
    Directive.marked? d.style (d.rewritten desired l).content = none

/-- The line gets its first layer, and that layer's closer completes the marker. -/
def Completes (d : Document) (desired : List Bool) (l : Line) : Prop :=
  l.isOwnText = true ∧ d.depthAt d.states l.index = 0 ∧ d.depthAt desired l.index = 1 ∧
    marker <+: l.content ++ Layer.behind d.style d.spaced

instance (d : Document) (desired : List Bool) : Decidable (d.Legible desired) :=
  List.decidableBAll _ _

instance (d : Document) (desired : List Bool) (l : Line) : Decidable (d.Completes desired l) :=
  inferInstanceAs (Decidable (_ ∧ _))

section Lines

variable {d : Document} {desired : List Bool} {l : Line}

theorem Legible.own_rewritten (hs : d.style.Tidy) (h : d.Sound) (hlegible : d.Legible desired)
    (hl : l ∈ d.lines) (hown : l.isOwnText = true) :
    (d.rewritten desired l).isOwnText = true := by
  obtain ⟨hdirective, -⟩ := Line.isOwnText_iff.mp hown
  rcases Int.lt_trichotomy (d.gain desired l) 0 with hloss | hzero | hgain
  · exact Line.isOwnText_iff.mpr ⟨hdirective, (hlegible l hl hloss).1⟩
  · rw [rewritten_of_content h hl (contentAt_of_gain hzero)]
    exact hown
  · have hpos : 0 < d.depthAt desired l.index := by
      rw [gain_of_own hown] at hgain
      omega
    exact (own_rewritten_iff hs h desired hl).mpr ⟨hown, Or.inl hpos⟩

/-- A line below an inactive block begins with a leader. -/
theorem leader_of_depthAt (h : d.Sound) (hl : l ∈ d.lines) (hown : l.isOwnText = true)
    (hheld : 0 < d.depthAt d.states l.index) : ∃ p ∈ d.style.leaders, p <+: l.content := by
  obtain ⟨rest, hrest⟩ := Option.isSome_iff_exists.mp (isSome_stripTimes?_depthAt h.arena hl hown)
  obtain ⟨between, hone, -⟩ := Layer.stripTimes?_of_le hheld hrest
  rw [Layer.stripTimes?_one] at hone
  exact Layer.leader_of_strip? hone

/-- A line that gains layers shows the marker only when a closer completes it. -/
theorem marked?_rewritten_iff (hs : d.style.Regular) (h : d.Sound) (hl : l ∈ d.lines)
    (hgain : 0 < d.gain desired l) :
    Directive.marked? d.style (d.rewritten desired l).content = none ↔
      ¬ d.Completes desired l := by
  have hown := own_of_gain (Int.ne_of_gt hgain)
  have hflush := h.flush hl hown
  have hlt : d.depthAt d.states l.index < d.depthAt desired l.index := by
    rw [gain_of_own hown] at hgain
    omega
  have hunmarked : Directive.marked? d.style l.content = none := by
    have hiff := h.directive_iff l hl
    rw [(Line.isOwnText_iff.mp hown).1] at hiff
    simpa using hiff
  have hcontent : (d.rewritten desired l).content = Layer.addTimes d.style d.spaced
      (d.depthAt desired l.index - d.depthAt d.states l.index) l.content := by
    rw [content_rewritten h desired hl, contentAt_of_le hown (Nat.le_of_lt hlt)]
    exact (Layer.flush_addTimes hs.toTidy _ _ hflush).trimStart
  rw [hcontent, Layer.marked?_addTimes_iff hs d.spaced hflush hunmarked]
  constructor
  · rintro hfirst ⟨-, hheld, hwant, hmarker⟩
    exact hfirst (by omega) hmarker
  · intro hnot hone hmarker
    by_cases hheld : d.depthAt d.states l.index = 0
    · exact hnot ⟨hown, hheld, by omega, hmarker⟩
    · -- Below a layer the content begins with a leader, and so not with the marker.
      obtain ⟨p, hp, tail, htail⟩ := leader_of_depthAt h hl hown (Nat.pos_of_ne_zero hheld)
      rw [← htail, List.append_assoc] at hmarker
      exact Layer.not_marker_of_leader hs hp _ hmarker

theorem Legible.harmless_iff (hs : d.style.Regular) (h : d.Sound)
    (hlegible : d.Legible desired) :
    d.Harmless desired ↔ ∀ l ∈ d.lines, ¬ d.Completes desired l := by
  have hkeep : ∀ l ∈ d.lines, l.isOwnText = true → (d.rewritten desired l).isOwnText = true :=
    fun l hl hown => hlegible.own_rewritten hs.toTidy h hl hown
  constructor
  · intro hharmless l hl hcompletes
    have ⟨hown, hheld, hwant, _⟩ := hcompletes
    have hgain : 0 < d.gain desired l := by
      rw [gain_of_own hown]
      omega
    have hnone := hharmless.unmarked l hl (Int.ne_of_gt hgain)
    exact (marked?_rewritten_iff hs h hl hgain).mp hnone hcompletes
  · intro hnot
    refine ⟨?_, apart_settled h hkeep, fun b hb => hasOwnLine_settled h hkeep hb⟩
    intro l hl hne
    rcases Int.lt_or_gt_of_ne hne with hloss | hgain
    · exact (hlegible l hl hloss).2
    · exact (marked?_rewritten_iff hs h hl hgain).mpr (hnot l hl)

end Lines

end Document

/-- With bare lines for all blocks with text, and nothing emptied or laid bare as a marker, the
toggled text is read with the same structure and the states asked for exactly when no
closer completes the marker. -/
theorem toggle_readBack_iff {s : Style} (hs : s.Regular) {t : Text} {r : Request}
    {done : Toggled} (h : toggle s t r = .ok done)
    (hroots : ∀ b ∈ done.document.blocks, (∃ l, l ∈ b.ownText done.document.lines) →
      done.document.Rooted b)
    (hlegible : done.document.Legible done.plan.desired) :
    (∃ e, Document.read s done.text = .ok e ∧ done.document.Alike e ∧
      ∀ b ∈ done.document.blocks, (∃ l, l ∈ b.ownText done.document.lines) →
        e.states[b.index]? = done.plan.desired[b.index]?) ↔
      ∀ l ∈ done.document.lines, ¬ done.document.Completes done.plan.desired l := by
  obtain ⟨d, desired, hread, -, hselect, -, rfl⟩ := toggle_eq_ok_iff.mp h
  have hsound := Document.sound_of_read hread
  have hregular : d.style.Regular := (Document.read_eq_ok_iff.mp hread).1 ▸ hs
  have hiff := hlegible.harmless_iff hregular hsound
  constructor
  · rintro ⟨e, he, halike, -⟩
    exact hiff.mp (Document.harmless_of_alike hs.toInline hread he halike)
  · intro hnot
    refine ⟨d.settled desired, Document.read_textAt hs.toInline hread (hiff.mpr hnot),
      d.alike_settled desired, fun b hb htext => ?_⟩
    obtain ⟨l, hl⟩ := htext
    obtain ⟨hmem, hin, hown⟩ := Document.mem_ownText.mp hl
    have hkeeps : d.KeepsText desired b := ⟨_, Document.mem_ownText_settled_iff.mpr
      ⟨l, hmem, hin, hlegible.own_rewritten hregular.toTidy hsound hmem hown, rfl⟩⟩
    have hshown : d.AllShown desired := by
      intro c hc hkeepsc hstate
      have hroot := hroots c hc (hkeepsc.text hregular.toTidy hsound)
      exact hroot.shown hregular.toTidy hsound (hsound.arena.getElem?_index hc) hstate
    have hstate := (Document.allShown_iff hregular.toTidy hsound).mp hshown b hb hkeeps
    have hlt : b.index < d.blocks.length :=
      (List.getElem?_eq_some_iff.mp (hsound.arena.getElem?_index hb)).1
    have hlen : (d.settled desired).states.length = d.blocks.length :=
      (d.settled desired).length_states
    have hlen' : desired.length = d.blocks.length :=
      (Request.length_of_select hselect).trans d.length_states
    change (d.settled desired).states[b.index]? = desired[b.index]?
    exact Document.getElem?_of_isActive (by omega) (by omega) hstate

/-- A flag is brought back while two blocks in it change places, under layers with and without
spaces and of both leaders; and a line that a closer turns into a directive. -/
theorem toggle_readBack_mixed :
    (∃ done, toggle .twofold ("#smc:flag p\n//  n\n# smc:begin a\n  #x\n# smc:end\n" ++
        "# smc:begin b\n# // y\n# smc:end\n# smc:end\n").toList
        ⟨[['p'], ['b']], [], false⟩ = .ok done ∧
      ∃ e, Document.read .twofold done.text = .ok e ∧ done.document.Alike e ∧
        ∀ b ∈ done.document.blocks, (∃ l, l ∈ b.ownText done.document.lines) →
          e.states[b.index]? = done.plan.desired[b.index]?) ∧
    ∃ done, toggle .bracketed "(:smc:begin a:)\nsmc\n(:smc:end a:)\n".toList
        ⟨[], [['a']], false⟩ = .ok done ∧
      ¬ ∃ e, Document.read .bracketed done.text = .ok e ∧ done.document.Alike e ∧
        ∀ b ∈ done.document.blocks, (∃ l, l ∈ b.ownText done.document.lines) →
          e.states[b.index]? = done.plan.desired[b.index]? := by
  constructor
  · obtain ⟨done, hdone, hkept⟩ := Outcome.exists_of_passes
      (x := toggle .twofold ("#smc:flag p\n//  n\n# smc:begin a\n  #x\n# smc:end\n" ++
        "# smc:begin b\n# // y\n# smc:end\n# smc:end\n").toList ⟨[['p'], ['b']], [], false⟩)
      (p := fun done => decide ((∀ b ∈ done.document.blocks,
          (b.ownText done.document.lines).isEmpty = false → done.document.Rooted b) ∧
        done.document.Legible done.plan.desired ∧
        ∀ l ∈ done.document.lines, ¬ done.document.Completes done.plan.desired l))
      (by decide +kernel)
    obtain ⟨hroots, hlegible, hnot⟩ := of_decide_eq_true hkept
    refine ⟨done, hdone, (toggle_readBack_iff Style.regular_twofold hdone
      (fun b hb htext => ?_) hlegible).mpr hnot⟩
    exact hroots b hb (List.isEmpty_eq_false_iff_exists_mem.mpr htext)
  · obtain ⟨done, hdone, hkept⟩ := Outcome.exists_of_passes
      (x := toggle .bracketed "(:smc:begin a:)\nsmc\n(:smc:end a:)\n".toList
        ⟨[], [['a']], false⟩)
      (p := fun done => decide ((∀ b ∈ done.document.blocks,
          (b.ownText done.document.lines).isEmpty = false → done.document.Rooted b) ∧
        done.document.Legible done.plan.desired ∧
        ¬ ∀ l ∈ done.document.lines, ¬ done.document.Completes done.plan.desired l))
      (by decide +kernel)
    obtain ⟨hroots, hlegible, hcompletes⟩ := of_decide_eq_true hkept
    refine ⟨done, hdone, (toggle_readBack_iff Style.regular_bracketed hdone
      (fun b hb htext => ?_) hlegible).not.mpr hcompletes⟩
    exact hroots b hb (List.isEmpty_eq_false_iff_exists_mem.mpr htext)

end CommentToggle
