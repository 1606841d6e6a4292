import CommentToggle.Proofs.Toggle.Changes

/-!
What a plan says of each line, and what is written for it. A line of text in a block is
active when all blocks around it are left active, and inactive otherwise; its text changes
when the number of inactive blocks around it does. A directive or a line outside every
block is unchanged, in state and text. A blank line keeps its text too, but its state is
that of a line of text, so in a block it is not reported as unchanged.
-/
namespace CommentToggle

open Text

namespace Document

/-- What the state and the body say that are given for a line. -/
structure Reported (d : Document) (p : Plan) (l : Line) (state : LineState) (body : Text) :
    Prop where
  unchanged : state = .unchanged ↔ l.directive = true ∨ d.containing l.index = []
  active : state = .active ↔ l.directive = false ∧ d.containing l.index ≠ [] ∧
    ∀ b ∈ d.containing l.index, Plan.isActive p.desired b.index = true
  inactive : state = .inactive ↔ l.directive = false ∧
    ∃ b ∈ d.containing l.index, Plan.isActive p.desired b.index = false
  kept : l.isBlank = true ∨ l.directive = true ∨ d.containing l.index = [] → body = l.body
  changed : l.isOwnText = true → (body ≠ l.body ↔
    Plan.depth p.current (d.containing l.index) ≠ Plan.depth p.desired (d.containing l.index))

section Lines

variable {d : Document} {desired : List Bool} {l : Line}

theorem depthAt_eq_zero_iff {states : List Bool} {line : Nat} : d.depthAt states line = 0 ↔
    ∀ b ∈ d.containing line, Plan.isActive states b.index = true := by
  rw [← not_iff_not, ← ne_eq, ← Nat.pos_iff_ne_zero, depthAt_pos_iff]
  simp

theorem lineState_of_outside (h : l.directive = true ∨ d.containing l.index = []) :
    d.lineState desired l = .unchanged := by simp [lineState, h]

theorem lineState_of_inside (h : ¬ (l.directive = true ∨ d.containing l.index = [])) :
    d.lineState desired l = if d.depthAt desired l.index = 0 then .active else .inactive := by
  simp [lineState, h]

theorem lineState_eq_unchanged_iff : d.lineState desired l = .unchanged ↔
    l.directive = true ∨ d.containing l.index = [] := by
  by_cases houtside : l.directive = true ∨ d.containing l.index = []
  · simp only [lineState_of_outside houtside, houtside]
  · rw [lineState_of_inside houtside]
    split <;> simp [houtside]

theorem lineState_eq_active_iff : d.lineState desired l = .active ↔
    ¬ (l.directive = true ∨ d.containing l.index = []) ∧ d.depthAt desired l.index = 0 := by
  by_cases houtside : l.directive = true ∨ d.containing l.index = []
  · simp [lineState_of_outside houtside, houtside]
  · simp [lineState_of_inside houtside, houtside]

theorem lineState_eq_inactive_iff : d.lineState desired l = .inactive ↔
    ¬ (l.directive = true ∨ d.containing l.index = []) ∧ 0 < d.depthAt desired l.index := by
  by_cases houtside : l.directive = true ∨ d.containing l.index = []
  · simp [lineState_of_outside houtside, houtside]
  · simp [lineState_of_inside houtside, houtside, Nat.pos_iff_ne_zero]

theorem reported_planTo (h : d.Sound) (hl : l ∈ d.lines) : d.Reported (d.planTo desired) l
    (d.lineState desired l) (d.rewritten desired l).body where
  unchanged := lineState_eq_unchanged_iff
  active := by
    rw [lineState_eq_active_iff, depthAt_eq_zero_iff, not_or, Bool.not_eq_true, and_assoc]
    rfl
  inactive := by
    rw [lineState_eq_inactive_iff, depthAt_pos_iff, not_or, Bool.not_eq_true, and_assoc]
    refine and_congr_right fun _ => and_iff_right_of_imp fun hinactive => ?_
    obtain ⟨b, hb, -⟩ := hinactive
    exact List.ne_nil_of_mem hb
  kept := fun houtside => (body_rewritten_eq_self_iff h hl).mpr (gain_of_quiet houtside desired)
  changed := by
    intro hown
    rw [ne_eq, body_rewritten_eq_self_iff h hl, gain_of_own hown]
    change _ ↔ d.depthAt d.states l.index ≠ d.depthAt desired l.index
    omega

/-- A blank line carries no directive. -/
theorem Sound.not_directive_of_blank (h : d.Sound) (hl : l ∈ d.lines)
    (hblank : l.isBlank = true) : l.directive = false := by
  have hnil : l.content = [] := by
    rw [(h.parts hl).2, ← trimStart_trimStart, ← (h.parts hl).2]
    exact trimStart_eq_nil_iff.mpr hblank
  rw [Bool.eq_false_iff, ne_eq, h.directive_iff l hl, hnil]
  have hnone : d.style.leader? [] = none := by
    rw [Style.leader?, List.find?_eq_none]
    intro p hp
    simpa using Style.ne_nil_of_mem_leaders hp
  simp [Directive.marked?, Style.uncover?, hnone]

/-- The lines reported as unchanged are the blank ones, the directives and those outside
every block, unless a blank line lies in a block. -/
theorem unchanged_iff_quiet (h : d.Sound) (desired : List Bool) :
    (∀ l ∈ d.lines, d.lineState desired l = .unchanged ↔
      l.isBlank = true ∨ l.directive = true ∨ d.containing l.index = []) ↔
    ∀ l ∈ d.lines, l.isBlank = true → d.containing l.index = [] := by
  refine forall₂_congr fun l hl => ?_
  rw [(reported_planTo h hl).unchanged]
  constructor
  · intro hquiet hblank
    refine (hquiet.mpr (Or.inl hblank)).resolve_left ?_
    simp [h.not_directive_of_blank hl hblank]
  · intro houtside
    exact ⟨Or.inr, fun hquiet => hquiet.elim (fun hblank => Or.inr (houtside hblank)) id⟩

end Lines

end Document

/-- The states and texts of the lines after a toggle, each line with its own terminator. A
blank line in a block is the only line that keeps its text and is not reported so. -/
theorem toggle_reports {s : Style} {t : Text} {r : Request} {done : Toggled}
    (h : toggle s t r = .ok done) :
    Document.read s t = .ok done.document ∧
    done.plan.states.length = done.document.lines.length ∧
    (∃ bodies, done.document.shiftLayers done.plan = .ok bodies ∧
      done.text = done.document.render bodies ∧ bodies.length = done.document.lines.length ∧
      ∀ (k : Nat) (l : Line), done.document.lines[k]? = some l → ∃ state body,
        done.plan.states[k]? = some state ∧ bodies[k]? = some body ∧
          done.document.Reported done.plan l state body) ∧
    ((∀ (k : Nat) (l : Line), done.document.lines[k]? = some l →
        (done.plan.states[k]? = some .unchanged ↔
          l.isBlank = true ∨ l.directive = true ∨ done.document.containing l.index = [])) ↔
      ∀ l ∈ done.document.lines, l.isBlank = true → done.document.containing l.index = []) := by
  obtain ⟨d, desired, hread, -, -, -, rfl⟩ := toggle_eq_ok_iff.mp h
  have hsound := Document.sound_of_read hread
  have hstate {k : Nat} {l : Line} (hl : d.lines[k]? = some l) :
      (d.planTo desired).states[k]? = some (d.lineState desired l) := by
    rw [Document.planTo, List.getElem?_map, hl]
    rfl
  refine ⟨hread, List.length_map _, ⟨_, Document.shiftLayers_planTo hsound desired,
    (Document.render_rewritten d desired).symm, List.length_map _, fun k l hl => ?_⟩, ?_⟩
  · exact ⟨_, _, hstate hl, by rw [List.getElem?_map, hl]; rfl,
      Document.reported_planTo hsound (List.mem_of_getElem? hl)⟩
  · rw [← Document.unchanged_iff_quiet hsound desired]
    constructor
    · intro hquiet l hl
      obtain ⟨k, hk⟩ := List.mem_iff_getElem?.mp hl
      rw [← hquiet k l hk, hstate hk, Option.some.injEq]
    · intro hquiet k l hk
      rw [hstate hk, Option.some.injEq]
      exact hquiet l (List.mem_of_getElem? hk)

/-- A blank line in a block that is switched off is reported as inactive, a blank line before
it as unchanged. -/
theorem toggle_reports_blank :
    ∃ done l state body, toggle .hash ("\n# smc:begin a\nx\n \n# smc:line c\n# y\n# smc:end\n" ++
        "# smc:begin b\n# z\n# smc:end\n").toList ⟨[['b']], [], false⟩ = .ok done ∧
      done.plan.states = [.unchanged, .unchanged, .inactive, .inactive, .unchanged, .inactive,
        .unchanged, .unchanged, .active, .unchanged] ∧
      done.document.lines[3]? = some l ∧ l.isBlank = true ∧ body = l.body ∧
      done.document.Reported done.plan l state body ∧
      ¬ ∀ (k : Nat) (l : Line), done.document.lines[k]? = some l →
        (done.plan.states[k]? = some .unchanged ↔
          l.isBlank = true ∨ l.directive = true ∨ done.document.containing l.index = []) := by
  obtain ⟨done, hdone, hkept⟩ := Outcome.exists_of_passes
    (x := toggle .hash ("\n# smc:begin a\nx\n \n# smc:line c\n# y\n# smc:end\n" ++
      "# smc:begin b\n# z\n# smc:end\n").toList ⟨[['b']], [], false⟩)
    (p := fun done => decide (done.plan.states = [.unchanged, .unchanged, .inactive, .inactive,
        .unchanged, .inactive, .unchanged, .unchanged, .active, .unchanged] ∧
      (done.document.lines[3]?.any fun l => l.isBlank &&
        !(done.document.containing l.index).isEmpty) = true))
    (by decide +kernel)
  obtain ⟨hstates, hline⟩ := of_decide_eq_true hkept
  rw [Option.any_eq_true] at hline
  obtain ⟨l, hl, hblank⟩ := hline
  rw [Bool.and_eq_true, Bool.not_eq_true', List.isEmpty_eq_false_iff] at hblank
  obtain ⟨hblank, hinside⟩ := hblank
  obtain ⟨-, -, ⟨bodies, -, -, -, hlines⟩, hquiet⟩ := toggle_reports hdone
  obtain ⟨state, body, -, -, hreported⟩ := hlines 3 l hl
  refine ⟨done, l, state, body, hdone, hstates, hl, hblank, hreported.kept (Or.inl hblank),
    hreported, fun hlaw => hinside ?_⟩
  exact hquiet.mp hlaw l (List.mem_of_getElem? hl) hblank

end CommentToggle
