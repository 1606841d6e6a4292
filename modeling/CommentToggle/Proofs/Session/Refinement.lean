import CommentToggle.Proofs.Session.Exclusive
import CommentToggle.Proofs.Toggle.Machine

/-!
A session as the run of a machine. For a text written as the tool writes it, the states
of the blocks are all that a request changes: each step is refused for the names it
uses or writes the same lines under the layers of the new states, which are then the
states read from the text. This holds for any number of steps when no line goes on with
the marker up to the closer; a single step fails at such a line, and only there.
-/
namespace CommentToggle

open Text

namespace Document

/-- The states after a request, as they will be read. -/
def advance (d : Document) (states : List Bool) (r : Request) : Except Fault (List Bool) := do
  r.check d.groupNames
  return d.seen (← r.select d states)

/-- The states after a sequence of requests; a request that is refused changes none. -/
def statesAfter (d : Document) (states : List Bool) (rs : List Request) : List Bool :=
  rs.foldl (fun now r => match d.advance now r with
    | .ok next => next
    | .error _ => now) states

theorem advance_eq_ok_iff {d : Document} {states next : List Bool} {r : Request} :
    d.advance states r = .ok next ↔ r.check d.groupNames = .ok () ∧
      ∃ desired, r.select d states = .ok desired ∧ next = d.seen desired := by
  unfold advance
  simp only [Outcome.bind_eq_ok_iff]
  constructor
  · intro h
    obtain ⟨_, hcheck, desired, hselect, hnext⟩ := h
    cases hnext
    exact ⟨hcheck, desired, hselect, rfl⟩
  · intro h
    obtain ⟨hcheck, desired, hselect, rfl⟩ := h
    exact ⟨(), hcheck, desired, hselect, rfl⟩

theorem fault_of_advance {d : Document} {states : List Bool} {r : Request} {f : Fault}
    (h : d.advance states r = .error f) :
    (do r.check d.groupNames; r.select d states) = .error f ∧
      ((∃ g known, f = .unknownGroup g known) ∨ ∃ groups, f = .conflicting groups) := by
  unfold advance at h
  cases hcheck : r.check d.groupNames with
  | error g =>
    rw [hcheck] at h
    cases h
    exact ⟨rfl, Request.fault_of_check hcheck⟩
  | ok =>
    rw [hcheck] at h
    cases hselect : r.select d states with
    | ok desired =>
      rw [hselect] at h
      cases h
    | error g =>
      rw [hselect] at h
      cases h
      exact ⟨rfl, Or.inr (Request.conflicting_of_select hselect)⟩

end Document

/-- The text is written from the document with the given states, and they are what is
read from it. -/
structure Represents (s : Style) (d : Document) (u : Nat → Text) (t : Text)
    (states : List Bool) : Prop where
  read : Document.read s t = .ok (d.written u states)
  readBack : (d.written u states).states = states
  written : (d.written u states).Written u
  clear : (d.written u states).Clear u

section Step

variable {s : Style} {d : Document} {u : Nat → Text} {t : Text} {states : List Bool}

theorem Represents.refused (h : Represents s d u t states) {r : Request} {f : Fault}
    (hadvance : d.advance states r = .error f) : toggle s t r = .error f ∧
      ((∃ g known, f = .unknownGroup g known) ∨ ∃ groups, f = .conflicting groups) := by
  obtain ⟨hrefused, hfault⟩ := Document.fault_of_advance hadvance
  refine ⟨toggle_of_refused h.read ?_, hfault⟩
  rw [h.readBack]
  exact hrefused

theorem Represents.step (hs : s.Regular) (hd : d.style = s) (hw : d.Written u)
    (h : Represents s d u t states) {r : Request} {next : List Bool}
    (hadvance : d.advance states r = .ok next) : ∃ done, toggle s t r = .ok done ∧
      done.text = d.writtenText u done.plan.desired ∧ Represents s d u done.text next := by
  obtain ⟨hcheck, desired, hselect, rfl⟩ := Document.advance_eq_ok_iff.mp hadvance
  have htidy : d.style.Tidy := hd ▸ hs.toTidy
  have htidy' : (d.written u states).style.Tidy := htidy
  have hsound := Document.sound_of_read h.read
  have hagain : (d.written u states).written u desired = d.written u desired :=
    hw.written_written htidy states desired
  have htoggle : toggle s t r = .ok ⟨d.written u states, (d.written u states).planTo desired,
      (d.written u states).textAt desired⟩ := by
    refine toggle_eq_ok_iff.mpr ⟨d.written u states, desired, h.read, hcheck, ?_, ?_, rfl⟩
    · rw [h.readBack]
      exact hselect
    · exact fun l hl => h.written.free desired hl
  have hharmless : (d.written u states).Harmless desired :=
    (h.written.harmless_iff (hd ▸ hs) hsound desired).mpr fun l hl hin _ _ => h.clear l hl hin
  have hread := Document.read_textAt hs.toInline h.read hharmless
  have hseen := hw.seen_written htidy states desired
  have hnext : d.written u (d.seen desired) = d.written u desired := by
    rw [← hagain, ← Document.written_seen hsound u desired, hseen,
      hw.written_written htidy states]
  rw [h.written.settled htidy' hsound desired, hagain, ← hnext] at hread
  refine ⟨_, htoggle, ?_, hread, ?_, ?_, ?_⟩
  · rw [h.written.textAt htidy' hsound desired, Document.writtenText, hagain]
    rfl
  · rw [hnext, ← hagain, h.written.states_written htidy' hsound desired, hseen]
  · rw [hnext, ← hagain]
    exact h.written.written htidy' hsound desired
  · rw [hnext, ← hagain]
    exact h.written.clear_written htidy' h.clear desired

theorem Represents.run (hs : s.Regular) (hd : d.style = s) (hw : d.Written u)
    (h : Represents s d u t states) (rs : List Request) :
    Represents s d u (session s t rs) (d.statesAfter states rs) := by
  induction rs generalizing t states with
  | nil => exact h
  | cons r rs ih =>
    rw [session_cons]
    change Represents s d u _ (d.statesAfter (match d.advance states r with
      | .ok next => next
      | .error _ => states) rs)
    cases hadvance : d.advance states r with
    | error f =>
      obtain ⟨htoggle, -⟩ := h.refused hadvance
      rw [htoggle]
      exact ih h
    | ok next =>
      obtain ⟨done, htoggle, -, hnext⟩ := h.step hs hd hw hadvance
      rw [htoggle]
      exact ih hnext

end Step

/-- A step from a written text keeps the structure unless it gives a line that goes on with
the marker its first layer; without such lines, every session is a run of the machine. -/
theorem session_refines {s : Style} (hs : s.Regular) {t : Text} {d : Document}
    (hread : Document.read s t = .ok d) {u : Nat → Text} (hw : d.Written u) :
    (∀ r done, toggle s t r = .ok done →
      ((∃ e, Document.read s done.text = .ok e ∧ d.Alike e) ↔
        ∀ l ∈ d.lines, d.inside l = true → d.depthAt done.plan.desired l.index = 1 →
          d.depthAt d.states l.index ≠ 1 →
          ¬ marker <+: u l.index ++ Layer.behind d.style d.spaced)) ∧
    (d.Clear u → ∀ rs r, Represents s d u (session s t rs) (d.statesAfter d.states rs) ∧
      match d.advance (d.statesAfter d.states rs) r with
      | .error f => toggle s (session s t rs) r = .error f ∧
          ((∃ g known, f = .unknownGroup g known) ∨ ∃ groups, f = .conflicting groups)
      | .ok next => ∃ done, toggle s (session s t rs) r = .ok done ∧
          done.text = d.writtenText u done.plan.desired ∧ Represents s d u done.text next) := by
  have hd := (Document.read_eq_ok_iff.mp hread).1
  have hsound := Document.sound_of_read hread
  constructor
  · intro r done htoggle
    obtain ⟨desired, -, rfl⟩ := done_of_toggle hread htoggle
    refine Iff.trans ?_ (hw.harmless_iff (hd ▸ hs) hsound desired)
    constructor
    · intro h
      obtain ⟨e, he, halike⟩ := h
      exact Document.harmless_of_alike hs.toInline hread he halike
    · intro hharmless
      exact ⟨_, Document.read_textAt hs.toInline hread hharmless, d.alike_settled desired⟩
  · intro hclear rs r
    have hself := hw.written_self
    have hstart : Represents s d u t d.states :=
      ⟨by rw [hself]; exact hread, by rw [hself], by rw [hself]; exact hw,
        by rw [hself]; exact hclear⟩
    have hrun := hstart.run hs hd hw rs
    refine ⟨hrun, ?_⟩
    cases hadvance : d.advance (d.statesAfter d.states rs) r with
    | error f => exact hrun.refused hadvance
    | ok next => exact hrun.step hs hd hw hadvance

/-- A session on a written text; and a text that goes on with the marker up to the closer. -/
theorem session_refines_page :
    (∃ d u, Document.read .hash (page "n") = .ok d ∧ ∀ rs,
      Represents .hash d u (session .hash (page "n") rs) (d.statesAfter d.states rs)) ∧
    ∃ done, toggle .bracketed "(:smc:begin a:)\nsmc\n(:smc:end:)\n".toList
        ⟨[], [['a']], false⟩ = .ok done ∧
      ¬ ∃ e, Document.read .bracketed done.text = .ok e ∧ done.document.Alike e := by
  constructor
  · obtain ⟨d, hread, hd⟩ := Outcome.exists_of_passes (x := Document.read .hash (page "n"))
      (p := fun d => decide (d.Written (fun i => if i = 1 then ['n'] else if i = 3 then ['x']
        else ['y']) ∧ d.Clear (fun i => if i = 1 then ['n'] else if i = 3 then ['x']
        else ['y']))) (by decide +kernel)
    obtain ⟨hwritten, hclear⟩ := of_decide_eq_true hd
    exact ⟨d, _, hread, fun rs => ((session_refines Style.regular_hash hread hwritten).2 hclear rs
      ⟨[], [], false⟩).1⟩
  · obtain ⟨d, hread, hd⟩ := Outcome.exists_of_passes
      (x := Document.read .bracketed "(:smc:begin a:)\nsmc\n(:smc:end:)\n".toList)
      (p := fun d => decide (d.Written fun _ => "smc".toList)) (by decide +kernel)
    obtain ⟨done, hdone, hbroken⟩ := Outcome.exists_of_passes
      (x := toggle .bracketed "(:smc:begin a:)\nsmc\n(:smc:end:)\n".toList
        ⟨[], [['a']], false⟩)
      (p := fun done => done.document.lines.any fun l => done.document.inside l &&
        (done.document.depthAt done.plan.desired l.index = 1) &&
        (done.document.depthAt done.document.states l.index ≠ 1) &&
        marker.isPrefixOf ("smc".toList ++
          Layer.behind done.document.style done.document.spaced)) (by decide +kernel)
    obtain ⟨desired, -, rfl⟩ := done_of_toggle hread hdone
    refine ⟨_, hdone, ((session_refines Style.regular_bracketed hread (of_decide_eq_true hd)).1 _ _
      hdone).not.mpr fun hall => ?_⟩
    obtain ⟨l, hl, hcond⟩ := List.any_eq_true.mp hbroken
    simp only [Bool.and_eq_true, decide_eq_true_eq, List.isPrefixOf_iff_prefix] at hcond
    exact hall l hl hcond.1.1.1 hcond.1.1.2 hcond.1.2 hcond.2

end CommentToggle
