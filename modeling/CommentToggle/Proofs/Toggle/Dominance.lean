import CommentToggle.Proofs.Document.Ancestors
import CommentToggle.Proofs.Selection.Stable
import CommentToggle.Proofs.Toggle.Readback

/-!
What is inactive is commented. Every line of text is written with at least one layer for
each block around it that is left inactive, also where one of them was switched on while
another was switched off; so nothing shows of a block that is off, of what is nested in
it, or of the members of an exclusive set that were passed over.
-/
namespace CommentToggle

/-- The line carries at least `n` layers. -/
def Line.Layered (s : Style) (n : Nat) (l : Line) : Prop :=
  (Layer.stripTimes? s n l.content).isSome = true

theorem Line.Layered.of_le {s : Style} {n m : Nat} {l : Line} (hle : n ≤ m)
    (h : l.Layered s m) : l.Layered s n := by
  obtain ⟨rest, hrest⟩ := Option.isSome_iff_exists.mp h
  obtain ⟨between, hbetween, -⟩ := Layer.stripTimes?_of_le hle hrest
  exact Option.isSome_iff_exists.mpr ⟨between, hbetween⟩

namespace Document

/-- What the line `m` that is written for `l` owes to the blocks around. -/
structure Dominated (d : Document) (r : Request) (desired : List Bool) (l m : Line) : Prop where
  layers : m.Layered d.style (d.depthAt desired l.index)
  nested : ∀ b ∈ d.containing l.index, ¬ d.Effective desired b → m.Layered d.style 1
  siblings : ∀ g ∈ d.groupSets, g.exclusive = true →
    ∀ b ∈ Request.membersOf d.blocks g, b.group ∈ r.targets →
      ∀ c ∈ Request.membersOf d.blocks g, c.group ∉ r.targets → c.contains l.index = true →
        m.Layered d.style 1

/-- A line of a block that is off, or nested in one that is off, lies in an inactive block. -/
theorem depthAt_pos_of_not_effective {d : Document} (harena : Block.Arena d.blocks) {n : Nat}
    (hfamily : Block.Family n d.blocks) {desired : List Bool} {b : Block} {line : Nat}
    (hb : b ∈ d.containing line) (hnot : ¬ d.Effective desired b) :
    0 < d.depthAt desired line := by
  obtain ⟨hmem, hin⟩ := List.mem_filter.mp hb
  rw [depthAt_pos_iff]
  by_cases hactive : Plan.isActive desired b.index = true
  · rw [Effective, and_iff_right hactive] at hnot
    simp only [not_forall, Bool.not_eq_true] at hnot
    obtain ⟨i, hi, hstate⟩ := hnot
    obtain ⟨c, hc, hencloses⟩ := encloses_of_mem_ancestors harena hfamily hmem hi
    refine ⟨c, List.mem_filter.mpr ⟨List.mem_of_getElem? hc, hencloses.contains hin⟩, ?_⟩
    rwa [harena.index i c hc]
  · exact ⟨b, hb, by simpa using hactive⟩

theorem layered_rewritten {d : Document} (hs : d.style.Tidy) (h : d.Sound) (desired : List Bool)
    {l : Line} (hl : l ∈ d.lines) (hown : l.isOwnText = true) :
    (d.rewritten desired l).Layered d.style (d.depthAt desired l.index) := by
  obtain ⟨rest, hrest, -⟩ := stripTimes?_rewritten hs h desired hl hown
  exact Option.isSome_iff_exists.mpr ⟨rest, hrest⟩

theorem dominated_rewritten {d : Document} (hs : d.style.Tidy) (h : d.Sound) {n : Nat}
    (hfamily : Block.Family n d.blocks) {r : Request} {desired : List Bool}
    (hselect : r.select d d.states = .ok desired) {l : Line} (hl : l ∈ d.lines)
    (hown : l.isOwnText = true) : d.Dominated r desired l (d.rewritten desired l) := by
  have hlayers := layered_rewritten hs h desired hl hown
  have hnested : ∀ b ∈ d.containing l.index, ¬ d.Effective desired b →
      (d.rewritten desired l).Layered d.style 1 :=
    fun b hb hnot => hlayers.of_le (depthAt_pos_of_not_effective h.arena hfamily hb hnot)
  refine ⟨hlayers, hnested, fun g hg hexclusive b hb hasked c hc hnot hin => ?_⟩
  have hmem : c ∈ d.blocks :=
    List.mem_of_getElem? ((Request.mem_membersOf_iff h.arena).mp hc).2
  have hstate := Request.inactive_of_unchosen h d.length_states hselect hg hexclusive hb hasked
    hc hnot
  apply hnested c (List.mem_filter.mpr ⟨hmem, hin⟩)
  intro heffective
  rw [heffective.1] at hstate
  simp at hstate

end Document

/-- Each line of text, parsed again as it is written, has the layers that the inactive blocks
around it call for. -/
def Toggled.Dominated (done : Toggled) (r : Request) : Prop :=
  ∃ bodies, done.document.shiftLayers done.plan = .ok bodies ∧
    done.text = done.document.render bodies ∧
    List.Forall₂ (fun l body => l.isOwnText = true →
      done.document.Dominated r done.plan.desired l (Line.ofBody l.index body l.terminator))
      done.document.lines bodies

theorem dominated_of_tidy {s : Style} (hs : s.Tidy) {t : Text} {r : Request} {done : Toggled}
    (h : toggle s t r = .ok done) : done.Dominated r := by
  obtain ⟨d, desired, hread, -, hselect, -, rfl⟩ := toggle_eq_ok_iff.mp h
  have hsound := Document.sound_of_read hread
  have htidy : d.style.Tidy := (Document.read_eq_ok_iff.mp hread).1 ▸ hs
  refine ⟨_, Document.shiftLayers_planTo hsound desired,
    (Document.render_rewritten d desired).symm, ?_⟩
  rw [List.forall₂_map_right_iff, List.forall₂_same]
  intro l hl hown
  have hdominated := Document.dominated_rewritten htidy hsound
    (Document.family_of_read hread) hselect hl hown
  rw [← Document.parsed_rewritten]
  exact ⟨hdominated.layers, hdominated.nested, hdominated.siblings⟩

/-- Delimiters without white space around them or line ends inside are enough. -/
theorem dominated_of_trim {s : Style}
    (hleaders : ∀ p ∈ s.leaders, Text.trim p = p ∧ Text.Unbroken p)
    (hcloser : ∀ q ∈ s.closer, q ≠ [] ∧ Text.trim q = q ∧ Text.Unbroken q)
    {t : Text} {r : Request} {done : Toggled} (h : toggle s t r = .ok done) : done.Dominated r :=
  dominated_of_tidy (Style.tidy_of_trim hleaders hcloser) h

/-- In a tidy style nothing shows of what is inactive, whatever was asked for. -/
theorem toggle_dominates {s : Style} (hs : s.Tidy) {t : Text} {r : Request} {done : Toggled}
    (h : toggle s t r = .ok done) :
    ∃ bodies, done.document.shiftLayers done.plan = .ok bodies ∧
      done.text = done.document.render bodies ∧
      List.Forall₂ (fun l body => l.isOwnText = true →
        done.document.Dominated r done.plan.desired l (Line.ofBody l.index body l.terminator))
        done.document.lines bodies :=
  dominated_of_tidy hs h

/-- A flag is switched on while the block in it that was active gives way to its sibling, so one
layer is put in the place of another. -/
theorem toggle_dominates_exchange :
    ∃ done bodies, toggle .twofold ("#smc:flag p\n//  n\n# smc:begin a\n  #x\n# smc:end\n" ++
        "# smc:begin b\n# // y\n# smc:end\n# smc:end\n").toList
        ⟨[['p'], ['b']], [], false⟩ = .ok done ∧
      done.plan.current = [false, true, false] ∧ done.plan.desired = [true, false, true] ∧
      done.document.shiftLayers done.plan = .ok bodies ∧
      List.Forall₂ (fun l body => l.isOwnText = true →
        done.document.Dominated ⟨[['p'], ['b']], [], false⟩ done.plan.desired l
          (Line.ofBody l.index body l.terminator)) done.document.lines bodies := by
  obtain ⟨done, hdone, hstates⟩ := Outcome.exists_of_passes
    (x := toggle .twofold ("#smc:flag p\n//  n\n# smc:begin a\n  #x\n# smc:end\n" ++
      "# smc:begin b\n# // y\n# smc:end\n# smc:end\n").toList ⟨[['p'], ['b']], [], false⟩)
    (p := fun done => decide (done.plan.current = [false, true, false] ∧
      done.plan.desired = [true, false, true])) (by decide +kernel)
  obtain ⟨hcurrent, hdesired⟩ := of_decide_eq_true hstates
  obtain ⟨bodies, hshift, -, hlines⟩ := toggle_dominates Style.regular_twofold.toTidy hdone
  exact ⟨done, bodies, hdone, hcurrent, hdesired, hshift, hlines⟩

end CommentToggle
