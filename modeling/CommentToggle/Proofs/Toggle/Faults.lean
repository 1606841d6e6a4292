import CommentToggle.Proofs.Document.Positions
import CommentToggle.Proofs.Selection.Stable
import CommentToggle.Proofs.Toggle.Rewriting

/-!
How toggling a text can end, for every style. It fails only for what is wrong with the
directives of the text, with the groups asked for, or with content that must not be
commented; that a line has too few layers never comes up, since a plan takes off no more
than the inactive blocks around a line have put there.
-/
namespace CommentToggle

namespace Fault

/-- What toggling a text may end in. -/
def isExpected : Fault → Bool
  | malformed .. | neverClosed .. | notOpen .. | duplicate .. | noOwnLine .. => true
  | unknownGroup .. | conflicting _ | reserved _ => true
  | unsupportedStyle _ | tooFewLayers .. | noLeader _ => false

theorem isExpected_of_append {f : Block.Forming} {d : Directive} {first last : Nat} {e : Fault}
    (h : f.append d first last = .error e) : e.isExpected = true := by
  unfold Block.Forming.append at h
  split at h
  · cases h
    rfl
  · cases h

theorem isExpected_of_step {ls : List Line} {f : Block.Forming} {d : Directive} {e : Fault}
    (h : Block.Forming.step ls f d = .error e) : e.isExpected = true := by
  unfold Block.Forming.step at h
  split at h
  · rcases Outcome.bind_eq_error_iff.mp h with happend | ⟨g, -, hlast⟩
    · exact isExpected_of_append happend
    · cases hlast
  · unfold Block.Forming.close? at h
    split at h
    · split at h
      · cases h
      · split at h <;> cases h <;> rfl
    · cases h
      rfl
  · unfold Block.Forming.tag? at h
    split at h
    · cases h
      rfl
    · split at h
      · cases h
        rfl
      · exact isExpected_of_append h

theorem isExpected_of_resolve {ls : List Line} {ds : List Directive} {e : Fault}
    (h : Block.resolve ls ds = .error e) : e.isExpected = true := by
  unfold Block.resolve at h
  rcases Outcome.bind_eq_error_iff.mp h with hrun | ⟨f, -, hclosed⟩
  · obtain ⟨g, d, -, hstep⟩ := Outcome.exists_of_foldlM_error hrun
    exact isExpected_of_step hstep
  · split at hclosed
    · cases hclosed
      rfl
    · split at hclosed <;> cases hclosed
      rfl

theorem isExpected_of_read {s : Style} {t : Text} {e : Fault}
    (h : Document.read s t = .error e) : e.isExpected = true := by
  unfold Document.read at h
  rcases Outcome.bind_eq_error_iff.mp h with hscan | ⟨ds, -, hrest⟩
  · obtain ⟨line, reason, rfl⟩ := Directive.malformed_of_scan hscan
    rfl
  · rcases Outcome.bind_eq_error_iff.mp hrest with hresolve | ⟨bs, -, hlast⟩
    · exact isExpected_of_resolve hresolve
    · cases hlast

theorem isExpected_of_make {d : Document} {r : Request} {e : Fault}
    (h : Plan.make d r = .error e) : e.isExpected = true := by
  unfold Plan.make at h
  rcases Outcome.bind_eq_error_iff.mp h with hcheck | ⟨_, -, hrest⟩
  · obtain ⟨g, known, rfl⟩ | ⟨groups, rfl⟩ := Request.fault_of_check hcheck <;> rfl
  · rcases Outcome.bind_eq_error_iff.mp hrest with hselect | ⟨desired, -, hlines⟩
    · obtain ⟨groups, rfl⟩ := Request.conflicting_of_select hselect
      rfl
    · rcases Outcome.bind_eq_error_iff.mp hlines with hentries | ⟨entries, -, hlast⟩
      · obtain ⟨l, -, hline⟩ := Outcome.exists_of_mapM_error hentries
        rw [Document.ofLine_eq] at hline
        split at hline
        · cases hline
          rfl
        · cases hline
      · cases hlast

end Fault

/-- Every block has its states in the plan, and every line has the layers it is to lose. -/
structure Plan.Feasible (d : Document) (p : Plan) : Prop where
  current : p.current.length = d.blocks.length
  desired : p.desired.length = d.blocks.length
  shift : ∀ l ∈ d.lines, ∃ body, Layer.shift d.style d.spaced l (p.layersOf l.index) = .ok body

/-- However far a selection has come, every block has a state. -/
structure Request.Steady (d : Document) (r : Request) : Prop where
  sets : ∀ n states, (d.groupSets.take n).foldlM (r.applySet d.blocks) d.states = .ok states →
    states.length = d.blocks.length
  conditions : ∀ n states, states.length = d.blocks.length →
    (((d.blocks.filter (·.isConditional)).take n).foldl (r.applyCondition d.blocks) states).length =
      d.blocks.length

theorem Request.steady (d : Document) (r : Request) : r.Steady d where
  sets := by
    intro n states hrun
    obtain ⟨-, rfl⟩ := foldlM_applySet_eq_ok_iff.mp hrun
    rw [length_foldl_placed, d.length_states]
  conditions := by
    intro n states hlen
    rw [length_foldl_applyCondition, hlen]

theorem Plan.feasible_of_make {d : Document} (h : d.Sound) {r : Request} {p : Plan}
    (hmake : Plan.make d r = .ok p) : p.Feasible d := by
  obtain ⟨-, desired, hselect, -, rfl⟩ := Document.make_eq_ok_iff.mp hmake
  refine ⟨d.length_states, (Request.length_of_select hselect).trans d.length_states, ?_⟩
  intro l hl
  rw [Document.layersOf_planTo h.indexed desired hl]
  exact ⟨_, Document.shift_gain h hl⟩

theorem Fault.isExpected_of_toggle {s : Style} {t : Text} {r : Request} {e : Fault}
    (h : toggle s t r = .error e) : e.isExpected = true := by
  unfold toggle at h
  rcases Outcome.bind_eq_error_iff.mp h with hread | ⟨d, hread, hrest⟩
  · exact isExpected_of_read hread
  · unfold Document.toggle at hrest
    rcases Outcome.bind_eq_error_iff.mp hrest with hmake | ⟨p, hmake, hshift⟩
    · exact isExpected_of_make hmake
    · -- With a plan made, nothing is left that could fail.
      obtain ⟨-, desired, -, -, rfl⟩ := Document.make_eq_ok_iff.mp hmake
      rw [Document.shiftLayers_planTo (Document.sound_of_read hread)] at hshift
      cases hshift

/-- Once the plan is made, the text is written. -/
theorem exists_toggle_of_make {s : Style} {t : Text} {r : Request} {d : Document} {p : Plan}
    (hread : Document.read s t = .ok d) (hmake : Plan.make d r = .ok p) :
    ∃ text, toggle s t r = .ok ⟨d, p, text⟩ := by
  obtain ⟨hcheck, desired, hselect, hfree, rfl⟩ := Document.make_eq_ok_iff.mp hmake
  exact ⟨d.textAt desired,
    toggle_eq_ok_iff.mpr ⟨d, desired, hread, hcheck, hselect, hfree, rfl⟩⟩

/-- Toggling gives a text or an expected fault; no position it uses leads nowhere, and no line
has fewer layers than are to be taken off. -/
theorem toggle_outcome (s : Style) (t : Text) (r : Request) :
    (∀ e, toggle s t r = .error e → e.isExpected = true) ∧
    (∀ body : Text, body.head?.all Text.isBlank = false → Text.words body ≠ []) ∧
    (∀ ds, Directive.scan s (Line.ofText t) = .ok ds → ∀ n f,
      (ds.take n).foldlM (Block.Forming.step (Directive.mark ds (Line.ofText t))) .start = .ok f →
        f.Placed (Line.ofText t).length) ∧
    ∀ d, Document.read s t = .ok d →
      d.Placed ∧ r.Steady d ∧ ∀ p, Plan.make d r = .ok p →
        p.Feasible d ∧ ∃ text, toggle s t r = .ok ⟨d, p, text⟩ := by
  refine ⟨fun e => Fault.isExpected_of_toggle, fun body => Directive.words_ne_nil, ?_, ?_⟩
  · intro ds hscan n f hrun
    have hlen : (Directive.mark ds (Line.ofText t)).length = (Line.ofText t).length := by
      rw [Directive.mark, List.length_map]
    rw [← hlen]
    refine Block.Forming.placed_of_run (Document.ordered_of_scan hscan) (fun e he => ?_) hrun
    rw [hlen]
    exact Document.lt_of_scan hscan he
  · intro d hread
    refine ⟨Document.placed_of_read hread, Request.steady d r, fun p hmake => ⟨?_, ?_⟩⟩
    · exact Plan.feasible_of_make (Document.sound_of_read hread) hmake
    · exact exists_toggle_of_make hread hmake

/-- A plan that takes a layer off a nested line, and a text that ends within a group. -/
theorem toggle_outcome_nested :
    (∃ d p, Document.read .hash
        "# smc:flag p\nn\n# smc:begin a\n# x\n# smc:end\n# smc:end\n".toList = .ok d ∧
      Plan.make d ⟨[['a']], [], false⟩ = .ok p ∧ p.layers = [(3, -1)] ∧
      d.Placed ∧ p.Feasible d ∧
      ∃ text, toggle .hash
        "# smc:flag p\nn\n# smc:begin a\n# x\n# smc:end\n# smc:end\n".toList
        ⟨[['a']], [], false⟩ = .ok ⟨d, p, text⟩) ∧
    toggle .hash "# smc:begin a\nx\n".toList ⟨[['a']], [], false⟩ =
        .error (.neverClosed ['a'] 0) ∧
      (Fault.neverClosed ['a'] 0).isExpected = true := by
  constructor
  · obtain ⟨d, hread, hpasses⟩ := Outcome.exists_of_passes
      (x := Document.read .hash
        "# smc:flag p\nn\n# smc:begin a\n# x\n# smc:end\n# smc:end\n".toList)
      (p := fun d => Outcome.passes (Plan.make d ⟨[['a']], [], false⟩) fun p =>
        decide (p.layers = [(3, -1)])) (by decide +kernel)
    obtain ⟨p, hmake, hlayers⟩ := Outcome.exists_of_passes hpasses
    obtain ⟨hplaced, -, hplan⟩ := (toggle_outcome _ _ ⟨[['a']], [], false⟩).2.2.2 d hread
    obtain ⟨hfeasible, hwritten⟩ := hplan p hmake
    exact ⟨d, p, hread, hmake, of_decide_eq_true hlayers, hplaced, hfeasible, hwritten⟩
  · have herror : toggle .hash "# smc:begin a\nx\n".toList ⟨[['a']], [], false⟩ =
        .error (.neverClosed ['a'] 0) := by rfl
    exact ⟨herror, (toggle_outcome _ _ _).1 _ herror⟩

end CommentToggle
