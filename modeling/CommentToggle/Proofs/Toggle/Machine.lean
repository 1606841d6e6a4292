import CommentToggle.Proofs.Toggle.Readback
import CommentToggle.Proofs.Toggle.Written

/-!
The states of a written document as the states of a machine. What is read from it are
the states it was written with, up to blocks without text; writing it with other states
gives a written document again, and keeps the structure unless some line is brought to
its first layer whose text goes on with the marker up to the closer.
-/
namespace CommentToggle

open Text

namespace Document

/-- The states as a reader sees them, for whom a block without text is active. -/
def seen (d : Document) (states : List Bool) : List Bool :=
  d.blocks.map fun b => (b.ownText d.lines).isEmpty || Plan.isActive states b.index

theorem length_seen (d : Document) (states : List Bool) :
    (d.seen states).length = d.blocks.length := List.length_map _

section States

variable {d : Document} {u : Nat → Text}

theorem isActive_seen (h : d.Sound) (states : List Bool) {b : Block} (hb : b ∈ d.blocks) :
    Plan.isActive (d.seen states) b.index =
      ((b.ownText d.lines).isEmpty || Plan.isActive states b.index) := by
  simp only [Plan.isActive, seen, List.getElem?_map, h.arena.getElem?_index hb, Option.map_some,
    Option.getD_some]

theorem isActive_seen_of_text (h : d.Sound) (states : List Bool) {b : Block} (hb : b ∈ d.blocks)
    (htext : ∃ l, l ∈ b.ownText d.lines) :
    Plan.isActive (d.seen states) b.index = Plan.isActive states b.index := by
  rw [isActive_seen h states hb, List.isEmpty_eq_false_iff_exists_mem.mpr htext, Bool.false_or]

theorem written_seen (h : d.Sound) (u : Nat → Text) (states : List Bool) :
    d.written u (d.seen states) = d.written u states :=
  written_congr fun _ hl hin => depthAt_congr h.arena
    (fun _ hb htext => isActive_seen_of_text h states hb htext) hl (inside_iff.mp hin).1

theorem Written.seen_written (hs : d.style.Tidy) (hw : d.Written u)
    (states desired : List Bool) : (d.written u states).seen desired = d.seen desired := by
  refine List.map_congr_left fun b _ => ?_
  have hiff := hw.text_iff hs states b
  rw [← List.isEmpty_eq_false_iff_exists_mem, ← List.isEmpty_eq_false_iff_exists_mem] at hiff
  have hempty : (b.ownText (d.written u states).lines).isEmpty =
      (b.ownText d.lines).isEmpty := by
    cases hnew : (b.ownText (d.written u states).lines).isEmpty <;>
      cases hold : (b.ownText d.lines).isEmpty <;> simp_all
  rw [hempty]

theorem Written.core (hs : d.style.Tidy) (hw : d.Written u) {l : Line} (hl : l ∈ d.lines)
    (hin : d.inside l = true) : d.core l = u l.index := by
  have hflush := hw.flush l hl hin
  have hstrip : Layer.stripTimes? d.style (d.depthAt d.states l.index) l.content =
      some (u l.index) := by
    rw [hw.content l hl hin]
    exact Layer.stripTimes?_addTimes hs d.spaced 0 _ hflush
  rw [Document.core, hstrip]
  exact hflush.trimStart

theorem Written.rooted (hs : d.style.Tidy) (hw : d.Written u) {b : Block} (hb : b ∈ d.blocks)
    (htext : ∃ l, l ∈ b.ownText d.lines) : d.Rooted b := by
  obtain ⟨l, hl, hnests, hnone⟩ := hw.bare b hb htext
  have hmem := (mem_ownText.mp hl).1
  have hin := inside_of_mem hb hl
  have hcore := hw.core hs hmem hin
  refine ⟨l, hl, hnests, ?_, ?_⟩
  · rw [hcore]
    exact (hw.flush l hmem hin).ne_nil
  · rw [hcore]
    exact hnone

theorem Written.allShown (hs : d.style.Tidy) (h : d.Sound) (hw : d.Written u)
    (desired : List Bool) : d.AllShown desired := by
  intro b hb hkeeps hstate
  exact (hw.rooted hs hb (hkeeps.text hs h)).shown hs h (h.arena.getElem?_index hb) hstate

theorem Written.states_written (hs : d.style.Tidy) (h : d.Sound) (hw : d.Written u)
    (desired : List Bool) : (d.written u desired).states = d.seen desired := by
  have hback := (allShown_iff hs h).mp (hw.allShown hs h desired)
  rw [← hw.settled hs h desired]
  have hlen : (d.settled desired).states.length = d.blocks.length :=
    (d.settled desired).length_states
  apply List.ext_getElem?
  intro k
  by_cases hk : k < d.blocks.length
  · have hb : d.blocks[k]? = some d.blocks[k] := List.getElem?_eq_getElem hk
    have hmem := List.mem_of_getElem? hb
    have hindex := h.arena.index k _ hb
    refine getElem?_of_isActive (by omega) (by rw [length_seen]; exact hk) ?_
    rw [← hindex]
    by_cases htext : ∃ l, l ∈ (d.blocks[k]).ownText d.lines
    · have hkeeps : d.KeepsText desired d.blocks[k] := by
        rw [KeepsText, hw.settled hs h desired]
        exact (hw.text_iff hs desired _).mpr htext
      rw [isActive_seen_of_text h desired hmem htext]
      exact hback _ hmem hkeeps
    · have hempty : ((d.blocks[k]).ownText d.lines).isEmpty = true := by
        by_contra hne
        rw [Bool.not_eq_true, List.isEmpty_eq_false_iff_exists_mem] at hne
        exact htext hne
      rw [isActive_seen h desired hmem, hempty, Bool.true_or, hindex]
      exact isActive_settled_of_no_text h hb fun hkeeps => htext (hkeeps.text hs h)
  · rw [List.getElem?_eq_none (by omega), List.getElem?_eq_none (by rw [length_seen]; omega)]

theorem Written.written (hs : d.style.Tidy) (h : d.Sound) (hw : d.Written u)
    (desired : List Bool) : (d.written u desired).Written u := by
  have hline : ∀ m ∈ (d.written u desired).lines, (d.written u desired).inside m = true →
      ∃ l ∈ d.lines, d.inside l = true ∧ m = d.writtenLine u desired l ∧ m.index = l.index := by
    intro m hm hin
    obtain ⟨l, hl, rfl⟩ := List.mem_map.mp hm
    rw [hw.inside_writtenLine hs desired hl] at hin
    exact ⟨l, hl, hin, rfl, index_writtenLine d u desired l⟩
  refine ⟨?_, ?_, ?_, ?_, ?_⟩
  · intro m hm hin
    obtain ⟨l, hl, hin', rfl, hindex⟩ := hline m hm hin
    have hdepth : d.depthAt (d.seen desired) l.index = d.depthAt desired l.index :=
      depthAt_congr h.arena (fun b hb htext => isActive_seen_of_text h desired hb htext) hl
        (inside_iff.mp hin').1
    change _ = Layer.addTimes d.style d.spaced (d.depthAt (d.written u desired).states _) (u _)
    rw [hw.states_written hs h desired, hindex, hdepth]
    simp [writtenLine, hin']
  · intro m hm hin
    obtain ⟨l, hl, hin, -, hindex⟩ := hline m hm hin
    rw [hindex]
    exact hw.flush l hl hin
  · intro m hm hin
    obtain ⟨l, hl, hin, -, hindex⟩ := hline m hm hin
    rw [hindex]
    exact hw.unmarked l hl hin
  · intro m hm hin
    obtain ⟨l, hl, hin, -, hindex⟩ := hline m hm hin
    rw [hindex]
    exact hw.unreserved l hl hin
  · intro b hb htext
    obtain ⟨l, hl, hnests, hnone⟩ := hw.bare b hb ((hw.text_iff hs desired b).mp htext)
    refine ⟨_, (hw.mem_ownText_iff hs desired).mpr ⟨l, hl, rfl⟩, ?_, ?_⟩
    · rw [index_writtenLine]
      exact hnests
    · rw [index_writtenLine]
      exact hnone

theorem Written.clear_written (hs : d.style.Tidy) (hw : d.Written u) (hclear : d.Clear u)
    (desired : List Bool) : (d.written u desired).Clear u := by
  intro m hm hin
  obtain ⟨l, hl, rfl⟩ := List.mem_map.mp hm
  rw [hw.inside_writtenLine hs desired hl] at hin
  rw [index_writtenLine]
  exact hclear l hl hin

theorem Written.free (hw : d.Written u) (desired : List Bool) {l : Line} (hl : l ∈ d.lines) :
    d.reserves desired l = false := by
  by_contra hreserves
  simp only [reserves, Bool.not_eq_false, Bool.and_eq_true, decide_eq_true_eq,
    List.isPrefixOf_iff_prefix] at hreserves
  obtain ⟨⟨⟨hown, hheld⟩, hwant⟩, hmarker⟩ := hreserves
  have hin : d.inside l = true := by
    refine inside_iff.mpr ⟨hown, fun hnone => hwant ?_⟩
    exact depthAt_of_containing_eq_nil hnone desired
  have hcontent := hw.content l hl hin
  rw [hheld] at hcontent
  rw [hcontent] at hmarker
  exact hw.unreserved l hl hin hmarker

end States

/-- A written document keeps its structure unless a line that goes on with the marker gets
its first layer. -/
theorem Written.harmless_iff {d : Document} {u : Nat → Text} (hs : d.style.Regular) (h : d.Sound)
    (hw : d.Written u) (desired : List Bool) : d.Harmless desired ↔
      ∀ l ∈ d.lines, d.inside l = true → d.depthAt desired l.index = 1 →
        d.depthAt d.states l.index ≠ 1 →
        ¬ marker <+: u l.index ++ Layer.behind d.style d.spaced := by
  have hmarked : ∀ l ∈ d.lines, d.inside l = true →
      (Directive.marked? d.style (d.rewritten desired l).content = none ↔
        (d.depthAt desired l.index = 1 →
          ¬ marker <+: u l.index ++ Layer.behind d.style d.spaced)) := by
    intro l hl hin
    rw [hw.rewritten hs.toTidy h desired hl, writtenLine, if_pos hin]
    exact Layer.marked?_addTimes_iff hs d.spaced (hw.flush l hl hin) (hw.unmarked l hl hin) _
  have hkeep : ∀ l ∈ d.lines, l.isOwnText = true → (d.rewritten desired l).isOwnText = true := by
    intro l hl hown
    rw [hw.rewritten hs.toTidy h desired hl, hw.own_writtenLine hs.toTidy desired hl, hown]
  constructor
  · intro hharmless l hl hin hone hother
    have hgain : d.gain desired l ≠ 0 := by
      simp only [gain, (inside_iff.mp hin).1, if_true, hone]
      omega
    exact (hmarked l hl hin).mp (hharmless.unmarked l hl hgain) hone
  · intro hclear
    refine ⟨?_, ?_, ?_⟩
    · intro l hl hgain
      cases hin : d.inside l with
      | false => exact absurd (gain_of_quiet (inside_eq_false_iff.mp hin) desired) hgain
      | true =>
        refine (hmarked l hl hin).mpr fun hone => hclear l hl hin hone fun hheld => hgain ?_
        simp [gain, hone, hheld]
    · exact apart_settled h hkeep
    · exact fun b hb => hasOwnLine_settled h hkeep hb

end Document

end CommentToggle
