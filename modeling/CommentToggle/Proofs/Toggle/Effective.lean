import CommentToggle.Proofs.Document.Ancestors
import CommentToggle.Proofs.Toggle.Readback

/-!
When a block with nested blocks stays readable as active. It is read so, together with all
blocks around it, exactly when some line of its text that is left in no inactive block is
bare. A line of its own outside the nested blocks is not enough for that, since it may be a
comment; a bare one is.
-/
namespace CommentToggle

open Text

namespace Document

section Blocks

variable {d : Document} {desired : List Bool} {b : Block}

/-- A line is written without a layer exactly when it is bare and left in no inactive block. -/
theorem strip?_rewritten_iff (hs : d.style.Tidy) (h : d.Sound) {l : Line} (hl : l ∈ d.lines)
    (hown : l.isOwnText = true) :
    ((d.rewritten desired l).isOwnText = true ∧
        Layer.strip? d.style (d.rewritten desired l).content = none) ↔
      d.depthAt desired l.index = 0 ∧ d.Bare l := by
  obtain ⟨rest, hrest, hcore⟩ := stripTimes?_rewritten hs h desired hl hown
  have hkeeps := own_rewritten_iff hs h desired hl
  have htrim : trimStart (d.rewritten desired l).content = (d.rewritten desired l).content := by
    rw [content_rewritten h desired hl, trimStart_trimStart]
  by_cases hzero : d.depthAt desired l.index = 0
  · rw [hzero, Layer.stripTimes?, Option.some.injEq] at hrest
    rw [← hrest, htrim] at hcore
    rw [hkeeps, hcore, hzero, Bare]
    simp [hown]
  · obtain ⟨n, hn⟩ := Nat.exists_eq_succ_of_ne_zero hzero
    have hsome : Layer.strip? d.style (d.rewritten desired l).content ≠ none := by
      intro hnone
      rw [hn, Layer.stripTimes?, hnone] at hrest
      simp at hrest
    simp [hsome, hzero]

/-- The bare lines that are left in no inactive block show a block and all around it. -/
theorem effective_settled_iff (hs : d.style.Tidy) (h : d.Sound) {n : Nat}
    (hfamily : Block.Family n d.blocks) (hb : b ∈ d.blocks) (hkeeps : d.KeepsText desired b) :
    (d.settled desired).Effective (d.settled desired).states b ↔
      ∃ l ∈ b.ownText d.lines, d.depthAt desired l.index = 0 ∧ d.Bare l := by
  rw [effective_iff (d := d.settled desired) h.arena hfamily hb hkeeps]
  constructor
  · rintro ⟨m, hm, hstrip⟩
    obtain ⟨l, hl, hin, hown', rfl⟩ := mem_ownText_settled_iff.mp hm
    have hown := ((own_rewritten_iff hs h desired hl).mp hown').1
    exact ⟨l, mem_ownText.mpr ⟨hl, hin, hown⟩,
      (strip?_rewritten_iff hs h hl hown).mp ⟨hown', hstrip⟩⟩
  · rintro ⟨l, hl, hbare⟩
    obtain ⟨hmem, hin, hown⟩ := mem_ownText.mp hl
    obtain ⟨hown', hstrip⟩ := (strip?_rewritten_iff hs h hmem hown).mpr hbare
    exact ⟨_, mem_ownText_settled_iff.mpr ⟨l, hmem, hin, hown', rfl⟩, hstrip⟩

/-- In a block that is left effective, no block but a nested one comments a line. -/
theorem Effective.depthAt_own (h : d.Effective desired b) (harena : Block.Arena d.blocks) {n : Nat}
    (hfamily : Block.Family n d.blocks) (hb : b ∈ d.blocks) {line : Nat}
    (hin : b.contains line = true) (hnests : b.nests d.blocks line = false) :
    d.depthAt desired line = 0 := by
  rw [Document.depthAt_own harena (harena.getElem?_index hb) hin hnests,
    h.outer_eq_zero harena hfamily hb hin, h.1]
  rfl

end Blocks

end Document

/-- A block with nested blocks and all blocks around it are read as active exactly when the toggle
is harmless and leaves a bare line of the block in no inactive block; a bare line outside the
nested blocks is one as long as nothing around the block is switched off. -/
theorem toggle_effective_iff {s : Style} {t : Text} {r : Request} {done : Toggled} {b : Block}
    (h : toggle s t r = .ok done) (hb : b ∈ done.document.blocks) (hnests : b.children ≠ []) :
    (∀ e, Document.read s done.text = .ok e → done.document.Alike e →
      (Plan.isActive e.states b.index = true ↔ ∃ m ∈ b.ownText e.lines,
        Layer.stripTimes? s (e.outer e.states b.index m.index + 1) m.content = none)) ∧
    (s.Tidy → ((∃ e, Document.read s done.text = .ok e ∧ done.document.Alike e ∧
        e.Effective e.states b) ↔
      done.document.Harmless done.plan.desired ∧ ∃ l ∈ b.ownText done.document.lines,
        done.document.depthAt done.plan.desired l.index = 0 ∧ done.document.Bare l)) ∧
    (done.document.Effective done.plan.desired b → done.document.Rooted b →
      ∃ l ∈ b.ownText done.document.lines,
        done.document.depthAt done.plan.desired l.index = 0 ∧ done.document.Bare l) := by
  obtain ⟨d, desired, hread, -, -, -, rfl⟩ := toggle_eq_ok_iff.mp h
  have hsound := Document.sound_of_read hread
  have hfamily := Document.family_of_read hread
  have htext {e : Document} (he : Document.read s (d.textAt desired) = .ok e)
      (halike : d.Alike e) : b ∈ e.blocks ∧ ∃ m, m ∈ b.ownText e.lines := by
    have hbe : b ∈ e.blocks := by
      rw [halike.blocks]
      exact hb
    obtain ⟨m, hm, -⟩ := ((Document.sound_of_read he).leaf_or_own hbe).resolve_left hnests
    exact ⟨hbe, m, hm⟩
  refine ⟨fun e he halike => ?_, fun hs => ?_, fun hleft hroot => ?_⟩
  · obtain ⟨hbe, hlines⟩ := htext he halike
    have hstyle : e.style = s := (Document.read_eq_ok_iff.mp he).1
    have harena := (Document.sound_of_read he).arena
    rw [Document.states_active_iff harena (harena.getElem?_index hbe) hlines, hstyle]
  · have htidy : d.style.Tidy := (Document.read_eq_ok_iff.mp hread).1 ▸ hs
    have hiff (hharmless : d.Harmless desired) :=
      Document.effective_settled_iff htidy hsound hfamily hb
        (htext (Document.read_textAt hs.toInline hread hharmless) (d.alike_settled desired)).2
    constructor
    · rintro ⟨e, he, halike, heffective⟩
      have hharmless := Document.harmless_of_alike hs.toInline hread he halike
      have hread' := Document.read_textAt hs.toInline hread hharmless
      obtain rfl : e = d.settled desired := Except.ok.inj (he.symm.trans hread')
      exact ⟨hharmless, (hiff hharmless).mp heffective⟩
    · rintro ⟨hharmless, hbare⟩
      exact ⟨d.settled desired, Document.read_textAt hs.toInline hread hharmless,
        d.alike_settled desired, (hiff hharmless).mpr hbare⟩
  · obtain ⟨l, hl, hout, hbare⟩ := hroot
    obtain ⟨-, hin, -⟩ := Document.mem_ownText.mp hl
    exact ⟨l, hl, hleft.depthAt_own hsound.arena hfamily hb hin hout, hbare⟩

/-- Disabling a nested block leaves the flag around it active when the flag has a bare line
of its own; with a comment in its place the flag is then read as inactive. -/
theorem toggle_effective_note :
    (∃ done b e, toggle .hash "# smc:flag p\nn\n# smc:flag a\nx\n# smc:end\n# smc:end\n".toList
        ⟨[], [['a']], false⟩ = .ok done ∧ b ∈ done.document.blocks ∧ b.children ≠ [] ∧
      done.document.Effective done.plan.desired b ∧ done.document.Rooted b ∧
      Document.read .hash done.text = .ok e ∧ done.document.Alike e ∧ e.Effective e.states b) ∧
    ∃ done b e, toggle .hash
        "# smc:flag p\n# note\n# smc:flag a\nx\n# smc:end\n# smc:end\n".toList
        ⟨[], [['a']], false⟩ = .ok done ∧ b ∈ done.document.blocks ∧ b.children ≠ [] ∧
      Plan.isActive done.document.states b.index = true ∧
      done.document.Effective done.plan.desired b ∧
      Document.read .hash done.text = .ok e ∧ done.document.Alike e ∧
      Plan.isActive e.states b.index = false := by
  constructor
  · obtain ⟨done, hdone, hkept⟩ := Outcome.exists_of_passes
      (x := toggle .hash "# smc:flag p\nn\n# smc:flag a\nx\n# smc:end\n# smc:end\n".toList
        ⟨[], [['a']], false⟩)
      (p := fun done => decide (done.document.Harmless done.plan.desired ∧
        ∃ b ∈ done.document.blocks, b.children ≠ [] ∧
          done.document.Effective done.plan.desired b ∧ done.document.Rooted b))
      (by decide +kernel)
    obtain ⟨hharmless, b, hb, hnests, hleft, hroot⟩ := of_decide_eq_true hkept
    obtain ⟨-, hiff, hbare⟩ := toggle_effective_iff hdone hb hnests
    obtain ⟨e, he, halike, heffective⟩ :=
      (hiff Style.regular_hash.toTidy).mpr ⟨hharmless, hbare hleft hroot⟩
    exact ⟨done, b, e, hdone, hb, hnests, hleft, hroot, he, halike, heffective⟩
  · obtain ⟨done, hdone, hpasses⟩ := Outcome.exists_of_passes
      (x := toggle .hash "# smc:flag p\n# note\n# smc:flag a\nx\n# smc:end\n# smc:end\n".toList
        ⟨[], [['a']], false⟩)
      (p := fun done => Outcome.passes (Document.read .hash done.text) fun e =>
        decide (done.document.Alike e ∧ ∃ b ∈ done.document.blocks, b.children ≠ [] ∧
          Plan.isActive done.document.states b.index = true ∧
          done.document.Effective done.plan.desired b ∧ ¬ ∃ m ∈ b.ownText e.lines,
            Layer.stripTimes? .hash (e.outer e.states b.index m.index + 1) m.content = none))
      (by decide +kernel)
    obtain ⟨e, he, hkept⟩ := Outcome.exists_of_passes hpasses
    obtain ⟨halike, b, hb, hnests, hactive, hleft, hnone⟩ := of_decide_eq_true hkept
    obtain ⟨hread, -⟩ := toggle_effective_iff hdone hb hnests
    exact ⟨done, b, e, hdone, hb, hnests, hactive, hleft, he, halike,
      Bool.eq_false_iff.mpr ((hread e he halike).not.mpr hnone)⟩

end CommentToggle
