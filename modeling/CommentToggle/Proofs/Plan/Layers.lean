import CommentToggle.Proofs.Document.Depth
import CommentToggle.Proofs.Outcome

/-!
What a plan gives each line. A line with text of its own gains or loses as many
layers as the number of inactive blocks around it changes; any other line keeps
its text. A plan is refused only for a request that cannot be read or selected, or
for a bare line with the marker that would have to be commented.
-/
namespace CommentToggle

namespace Line

theorem isOwnText_iff {l : Line} :
    l.isOwnText = true ↔ l.directive = false ∧ l.isBlank = false := by
  simp [isOwnText]

theorem isBlank_eq_false_iff {l : Line} : l.isBlank = false ↔ Text.trimStart l.content ≠ [] := by
  rw [← Bool.not_eq_true, isBlank, ← Text.trimStart_eq_nil_iff]

end Line

namespace Document

/-- The number of layers that a line gains when the blocks take the given states. -/
def gain (d : Document) (desired : List Bool) (l : Line) : Int :=
  if l.isOwnText then (d.depthAt desired l.index : Int) - d.depthAt d.states l.index else 0

theorem gain_of_own {d : Document} {l : Line} (h : l.isOwnText = true) (desired : List Bool) :
    d.gain desired l = (d.depthAt desired l.index : Int) - d.depthAt d.states l.index :=
  if_pos h

theorem gain_of_not_own {d : Document} {l : Line} (h : l.isOwnText = false)
    (desired : List Bool) : d.gain desired l = 0 := by simp [gain, h]

/-- A bare line that begins with the marker and would be commented. -/
def reserves (d : Document) (desired : List Bool) (l : Line) : Bool :=
  l.isOwnText && d.depthAt d.states l.index = 0 && d.depthAt desired l.index ≠ 0 &&
    marker.isPrefixOf l.content

def lineState (d : Document) (desired : List Bool) (l : Line) : LineState :=
  if l.directive || (d.containing l.index).isEmpty then .unchanged
  else if d.depthAt desired l.index = 0 then .active
  else .inactive

/-- The line with its gain, unless it keeps its text. -/
def gained? (d : Document) (desired : List Bool) (l : Line) : Option (Nat × Int) :=
  if d.gain desired l = 0 then none else some (l.index, d.gain desired l)

theorem depthAt_of_containing_eq_nil {d : Document} {line : Nat} (h : d.containing line = [])
    (states : List Bool) : d.depthAt states line = 0 := by
  rw [depthAt, h]
  rfl

theorem gain_of_quiet {d : Document} {l : Line}
    (h : l.isBlank = true ∨ l.directive = true ∨ d.containing l.index = [])
    (desired : List Bool) : d.gain desired l = 0 := by
  cases hown : l.isOwnText with
  | false => exact gain_of_not_own hown desired
  | true =>
    obtain ⟨hdirective, hblank⟩ := Line.isOwnText_iff.mp hown
    have hnone : d.containing l.index = [] := by simpa [hdirective, hblank] using h
    simp [gain, depthAt_of_containing_eq_nil hnone]

theorem ofLine_eq (d : Document) (desired : List Bool) (l : Line) :
    Plan.ofLine d d.states desired l =
      if d.reserves desired l then .error (.reserved l.index)
      else .ok (d.lineState desired l, d.gained? desired l) := by
  unfold Plan.ofLine
  cases hdirective : l.directive with
  | true => simp [reserves, lineState, gained?, gain, Line.isOwnText, hdirective]
  | false =>
    by_cases hnone : d.containing l.index = []
    · simp [reserves, lineState, gained?, gain, hnone, depthAt_of_containing_eq_nil hnone]
    · have hempty : (d.containing l.index).isEmpty = false := by simpa using hnone
      have hheld : Plan.depth d.states (d.containing l.index) = d.depthAt d.states l.index := rfl
      have hwant : Plan.depth desired (d.containing l.index) = d.depthAt desired l.index := rfl
      simp only [Bool.false_eq_true, if_false, hempty, hheld, hwant]
      generalize hm : d.depthAt desired l.index = want
      generalize hn : d.depthAt d.states l.index = held
      cases hblank : l.isBlank with
      | true =>
        simp [reserves, lineState, gained?, gain, Line.isOwnText, hdirective, hblank, hempty, hm]
      | false =>
        by_cases heq : want = held
        · subst heq
          have hreserves : d.reserves desired l = false := by
            simp only [reserves, hm, hn]
            by_cases hzero : want = 0 <;> simp [hzero]
          simp [hreserves, lineState, gained?, gain, hdirective, hempty, hm, hn]
        · have hgain : d.gain desired l = (want : Int) - held := by
            simp [gain, Line.isOwnText, hdirective, hblank, hm, hn]
          have hne : (want : Int) - held ≠ 0 := by omega
          have hreserves : d.reserves desired l =
              (decide (held = 0) && marker.isPrefixOf l.content) := by
            simp only [reserves, Line.isOwnText, hdirective, hblank, hm, hn]
            by_cases hzero : held = 0
            · have hwant0 : want ≠ 0 := by omega
              simp [hzero, hwant0]
            · simp [hzero]
          simp [hreserves, heq, lineState, gained?, hgain, hne, hdirective, hempty, hm]

/-- The plan that brings the blocks into the given states. -/
def planTo (d : Document) (desired : List Bool) : Plan :=
  ⟨d.states, desired, d.lines.filterMap (d.gained? desired), d.lines.map (d.lineState desired)⟩

theorem make_eq_ok_iff {d : Document} {r : Request} {p : Plan} :
    Plan.make d r = .ok p ↔ r.check d.groupNames = .ok () ∧ ∃ desired,
      r.select d d.states = .ok desired ∧ (∀ l ∈ d.lines, d.reserves desired l = false) ∧
        p = d.planTo desired := by
  unfold Plan.make
  simp only [Outcome.bind_eq_ok_iff]
  constructor
  · intro h
    obtain ⟨_, hcheck, desired, hselect, entries, hentries, hp⟩ := h
    have hfree : ∀ l ∈ d.lines, d.reserves desired l = false := by
      intro l hl
      obtain ⟨e, he⟩ := Outcome.exists_of_mapM hentries l hl
      rw [ofLine_eq] at he
      cases hreserves : d.reserves desired l with
      | false => rfl
      | true => simp [hreserves] at he
    have hmap := Outcome.eq_map_of_mapM hentries
      (g := fun l => (d.lineState desired l, d.gained? desired l)) fun l hl e he => by
        rw [ofLine_eq, hfree l hl] at he
        exact (Except.ok.inj he).symm
    cases hp
    refine ⟨hcheck, desired, hselect, hfree, ?_⟩
    rw [hmap, planTo, List.filterMap_map, List.map_map]
    rfl
  · intro h
    obtain ⟨hcheck, desired, hselect, hfree, rfl⟩ := h
    refine ⟨(), hcheck, desired, hselect,
      d.lines.map fun l => (d.lineState desired l, d.gained? desired l), ?_, ?_⟩
    · refine Outcome.mapM_eq_ok_map fun l hl => ?_
      rw [ofLine_eq, hfree l hl]
      rfl
    · rw [planTo, List.filterMap_map, List.map_map]
      rfl

/-- An entry is found under its own line. -/
theorem lookup_filterMap {ls : List Line} (hinj : ls.Pairwise (·.index < ·.index))
    (d : Document) (desired : List Bool) {l : Line} (hl : l ∈ ls) :
    ((ls.filterMap (d.gained? desired)).lookup l.index).getD 0 = d.gain desired l := by
  induction ls with
  | nil => simp at hl
  | cons m ls ih =>
    obtain ⟨hfirst, hrest⟩ := List.pairwise_cons.mp hinj
    rcases List.mem_cons.mp hl with rfl | hl
    · by_cases hzero : d.gain desired l = 0
      · have hnone : (ls.filterMap (d.gained? desired)).lookup l.index = none := by
          rw [List.lookup_eq_none_iff]
          intro e he
          obtain ⟨m, hm, heq⟩ := List.mem_filterMap.mp he
          have hlt := hfirst m hm
          unfold gained? at heq
          split at heq
          · simp at heq
          · cases heq
            exact bne_iff_ne.mpr (Nat.ne_of_lt hlt)
        simp [gained?, hzero, hnone]
      · simp [gained?, hzero]
    · have hlt := hfirst l hl
      have hne : (l.index == m.index) = false := beq_eq_false_iff_ne.mpr (by omega)
      rw [← ih hrest hl, List.filterMap_cons]
      by_cases hzero : d.gain desired m = 0
      · simp [gained?, hzero]
      · simp [gained?, hzero, List.lookup_cons, hne]

theorem layersOf_planTo {d : Document} (h : Indexed d.lines) (desired : List Bool) {l : Line}
    (hl : l ∈ d.lines) : (d.planTo desired).layersOf l.index = d.gain desired l :=
  lookup_filterMap h.pairwise d desired hl

end Document

end CommentToggle
