import CommentToggle.Proofs.Selection.Stable
import CommentToggle.Proofs.Toggle.Changes
import CommentToggle.Proofs.Toggle.Readback

/-!
Making the same request again. A request leaves a text alone exactly when it asks, for
every block with text, for the state that is read from the text. After a toggle this is
so when the toggle keeps the structure and every block that it leaves active is shown;
a block whose only lines of its own are comments need not be.
-/
namespace CommentToggle

open Text

namespace Document

/-- The request asks for the states that the text shows. -/
structure Meets (d : Document) (r : Request) (desired : List Bool) : Prop where
  check : r.check d.groupNames = .ok ()
  select : r.select d d.states = .ok desired
  agree : ∀ b ∈ d.blocks, (∃ l, l ∈ b.ownText d.lines) →
    Plan.isActive desired b.index = Plan.isActive d.states b.index

/-- A block with text has a line of it that lies in none of its children. -/
theorem Sound.exists_own {d : Document} (h : d.Sound) {b : Block} (hb : b ∈ d.blocks)
    (htext : ∃ l, l ∈ b.ownText d.lines) :
    ∃ l ∈ b.ownText d.lines, b.nests d.blocks l.index = false := by
  rcases h.leaf_or_own hb with hleaf | hown
  · obtain ⟨l, hl⟩ := htext
    exact ⟨l, hl, by rw [Block.nests, hleaf]; rfl⟩
  · exact hown

/-- When no line changes its depth, no block with text changes its state. -/
theorem isActive_of_gain {d : Document} (h : d.Sound) {desired : List Bool}
    (hgain : ∀ l ∈ d.lines, d.gain desired l = 0) {k : Nat} {b : Block}
    (hb : d.blocks[k]? = some b) (htext : ∃ l, l ∈ b.ownText d.lines) :
    Plan.isActive desired k = Plan.isActive d.states k := by
  induction k using Nat.strong_induction_on generalizing b with
  | _ k ih =>
    obtain ⟨l, hl, hnests⟩ := h.exists_own (List.mem_of_getElem? hb) htext
    obtain ⟨hmem, hin, hown⟩ := mem_ownText.mp hl
    have houter : d.outer desired k l.index = d.outer d.states k l.index :=
      outer_congr h.arena fun j c hj hc hcontains =>
        ih j hj hc ⟨l, mem_ownText.mpr ⟨hmem, hcontains, hown⟩⟩
    have hzero := hgain l hmem
    rw [gain_of_own hown] at hzero
    have hdepth := depthAt_own h.arena hb hin hnests desired
    have hdepth' := depthAt_own h.arena hb hin hnests d.states
    cases hx : Plan.isActive desired k <;> cases hy : Plan.isActive d.states k <;>
      simp only [hx, hy, if_true, Bool.false_eq_true, if_false] at hdepth hdepth' ⊢
    · omega
    · omega

theorem gain_of_agree {d : Document} (h : d.Sound) {desired : List Bool}
    (hagree : ∀ b ∈ d.blocks, (∃ l, l ∈ b.ownText d.lines) →
      Plan.isActive desired b.index = Plan.isActive d.states b.index)
    {l : Line} (hl : l ∈ d.lines) : d.gain desired l = 0 := by
  cases hown : l.isOwnText with
  | false => exact gain_of_not_own hown desired
  | true =>
    have hdepth := depthAt_congr h.arena hagree hl hown
    rw [gain_of_own hown, hdepth, Int.sub_self]

end Document

/-- The request succeeds on the text and leaves it alone. -/
def Idle (s : Style) (t : Text) (r : Request) : Prop :=
  ∃ done, toggle s t r = .ok done ∧ done.text = t ∧ done.changed t = false

theorem idle_of_meets {s : Style} {t : Text} {d : Document} {r : Request} {desired : List Bool}
    (hread : Document.read s t = .ok d) (h : d.Meets r desired) : Idle s t r := by
  have hsound := Document.sound_of_read hread
  have hgain : ∀ l ∈ d.lines, d.gain desired l = 0 :=
    fun l hl => Document.gain_of_agree hsound h.agree hl
  have hfree : ∀ l ∈ d.lines, d.reserves desired l = false := by
    intro l hl
    have hzero := hgain l hl
    unfold Document.reserves
    cases hown : l.isOwnText with
    | false => rfl
    | true =>
      have hdepth : d.depthAt desired l.index = d.depthAt d.states l.index := by
        rw [Document.gain_of_own hown] at hzero
        omega
      rw [hdepth]
      by_cases hheld : d.depthAt d.states l.index = 0 <;> simp [hheld]
  have hlines : d.lines.map (d.rewritten desired) = d.lines := by
    conv_rhs => rw [← List.map_id d.lines]
    exact List.map_congr_left fun l hl =>
      Document.rewritten_of_content hsound hl (Document.contentAt_of_gain (hgain l hl))
  have htext : d.textAt desired = t := by
    change ofLines ((d.lines.map (d.rewritten desired)).map Line.raw) = t
    rw [hlines]
    exact Document.ofLines_lines_of_read hread
  exact ⟨_, toggle_eq_ok_iff.mpr ⟨d, desired, hread, h.check, h.select, hfree, rfl⟩, htext,
    by simp [Toggled.changed, htext]⟩

theorem meets_of_idle {s : Style} (hs : s.Inline) {t : Text} {r : Request} (h : Idle s t r) :
    ∃ d desired, Document.read s t = .ok d ∧ d.Meets r desired := by
  obtain ⟨done, htoggle, hsame, -⟩ := h
  obtain ⟨d, desired, hread, hcheck, hselect, -, rfl⟩ := toggle_eq_ok_iff.mp htoggle
  have hsound := Document.sound_of_read hread
  have hstyle := (Document.read_eq_ok_iff.mp hread).1
  have htext : d.textAt desired = d.textAt d.states := by
    rw [Document.textAt_states hsound, Document.ofLines_lines_of_read hread]
    exact hsame
  have hgain : ∀ l ∈ d.lines, d.gain desired l = 0 := by
    intro l hl
    rw [(Document.textAt_eq_iff (hstyle ▸ hs) hsound).mp htext l hl, Document.gain_states]
  refine ⟨d, desired, hread, hcheck, hselect, fun b hb hown => ?_⟩
  exact Document.isActive_of_gain hsound hgain (hsound.arena.getElem?_index hb) hown

namespace Document

/-- What a request made of a text meets the request again. -/
theorem meets_settled {d : Document} (hs : d.style.Tidy) (h : d.Sound) {r : Request}
    {desired : List Bool} (hcheck : r.check d.groupNames = .ok ())
    (hselect : r.select d d.states = .ok desired) (hshown : d.AllShown desired) :
    (d.settled desired).Meets r desired := by
  have hback := (allShown_iff hs h).mp hshown
  have hlen : (d.settled desired).states.length = d.blocks.length :=
    (d.settled desired).length_states
  have hlen' : desired.length = d.blocks.length :=
    (Request.length_of_select hselect).trans d.length_states
  obtain ⟨hfree, hdesired⟩ := Request.select_eq_ok_iff.mp hselect
  refine ⟨hcheck, Request.select_eq_ok_iff.mpr ⟨hfree, ?_⟩, ?_⟩
  · refine hdesired.trans (Request.selected_again h d.length_states hlen fun k hk => ?_).symm
    have hb : d.blocks[k]? = some d.blocks[k] := List.getElem?_eq_getElem hk
    have hmem := List.mem_of_getElem? hb
    have hindex := h.arena.index k _ hb
    rw [← hdesired]
    by_cases hkeeps : d.KeepsText desired d.blocks[k]
    · have hstate := hback _ hmem hkeeps
      rw [hindex] at hstate
      exact Or.inl (getElem?_of_isActive (by omega) (by omega) hstate)
    · -- A block without text reads active: it was left so, or it had no text before.
      have hactive := isActive_settled_of_no_text h hb hkeeps
      by_cases htext : ∃ l, l ∈ (d.blocks[k]).ownText d.lines
      · refine Or.inl (getElem?_of_isActive (by omega) (by omega) ?_)
        rw [hactive]
        by_contra hne
        rw [eq_comm, Bool.not_eq_true] at hne
        exact hkeeps (keepsText_of_inactive hs h hb hne htext)
      · refine Or.inr (getElem?_of_isActive (by omega) (by rw [length_states]; omega) ?_)
        rw [hactive, isActive_of_no_text h.arena hb htext]
  · exact fun b hb htext => (hback b hb htext).symm

end Document

/-- A second run leaves the text alone when the text of the first meets the request, and
only then if no layer breaks a line; and it does when the first run keeps the structure
and shows what it leaves active. -/
theorem toggle_again {s : Style} {t : Text} {r : Request} {done : Toggled}
    (h : toggle s t r = .ok done) :
    ((∃ e desired, Document.read s done.text = .ok e ∧ e.Meets r desired) →
      Idle s done.text r) ∧
    (s.Inline → Idle s done.text r →
      ∃ e desired, Document.read s done.text = .ok e ∧ e.Meets r desired) ∧
    (s.Tidy → done.document.Harmless done.plan.desired →
      done.document.AllShown done.plan.desired → Idle s done.text r) := by
  refine ⟨?_, fun hs hidle => meets_of_idle hs hidle, ?_⟩
  · intro hmet
    obtain ⟨e, desired, hread, hmeets⟩ := hmet
    exact idle_of_meets hread hmeets
  · intro hs hharmless hshown
    obtain ⟨d, desired, hread, hcheck, hselect, -, rfl⟩ := toggle_eq_ok_iff.mp h
    have htidy : d.style.Tidy := (Document.read_eq_ok_iff.mp hread).1 ▸ hs
    have hmeets := Document.meets_settled htidy (Document.sound_of_read hread) hcheck hselect
      hshown
    exact idle_of_meets (Document.read_textAt hs.toInline hread hharmless) hmeets

/-- A block whose own line is a comment is read inactive with the block inside it, and the
second run comments that one again. -/
theorem toggle_again_note :
    (∃ done, toggle .hash "# smc:flag p\nn\n# smc:flag a\nx\n# smc:end a\n# smc:end\n".toList
        ⟨[], [['a']], false⟩ = .ok done ∧ Idle .hash done.text ⟨[], [['a']], false⟩) ∧
    ∃ done, toggle .hash "# smc:flag p\n# n\n# smc:flag a\nx\n# smc:end a\n# smc:end\n".toList
        ⟨[], [['a']], false⟩ = .ok done ∧ ¬ Idle .hash done.text ⟨[], [['a']], false⟩ := by
  constructor
  · obtain ⟨done, hdone, hkept⟩ := Outcome.exists_of_passes
      (x := toggle .hash "# smc:flag p\nn\n# smc:flag a\nx\n# smc:end a\n# smc:end\n".toList
        ⟨[], [['a']], false⟩)
      (p := fun done => decide (done.document.Harmless done.plan.desired ∧
        done.document.AllShown done.plan.desired)) (by decide +kernel)
    obtain ⟨hharmless, hshown⟩ := of_decide_eq_true hkept
    exact ⟨done, hdone,
      (toggle_again hdone).2.2 Style.regular_hash.toTidy hharmless hshown⟩
  · obtain ⟨done, hdone, hread⟩ := Outcome.exists_of_passes
      (x := toggle .hash "# smc:flag p\n# n\n# smc:flag a\nx\n# smc:end a\n# smc:end\n".toList
        ⟨[], [['a']], false⟩)
      (p := fun done => Outcome.passes (Document.read .hash done.text) fun e =>
        Outcome.passes (Request.select ⟨[], [['a']], false⟩ e e.states) fun desired =>
          e.blocks.any fun b => !(b.ownText e.lines).isEmpty &&
            Plan.isActive desired b.index != Plan.isActive e.states b.index) (by decide +kernel)
    refine ⟨done, hdone, fun hidle => ?_⟩
    obtain ⟨e, desired, he, hmeets⟩ := (toggle_again hdone).2.1 Style.regular_hash.toInline hidle
    rw [he, Outcome.passes_ok, hmeets.select, Outcome.passes_ok] at hread
    obtain ⟨b, hb, hcond⟩ := List.any_eq_true.mp hread
    rw [Bool.and_eq_true, Bool.not_eq_true', List.isEmpty_eq_false_iff_exists_mem,
      bne_iff_ne] at hcond
    exact hcond.2 (hmeets.agree b hb hcond.1)

end CommentToggle
