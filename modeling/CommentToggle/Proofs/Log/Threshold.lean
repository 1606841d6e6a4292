import CommentToggle.Proofs.Log.Settings
import Mathlib.Order.MinMax

/-!
Which records get past the root. After each set-up the root has the handlers of that one and no
other, whatever came before. Its threshold is the lower one of the console's and the log file's,
so both receive all that they would take. The file for errors is not asked: where the others take
nothing but what is critical, it does not receive the errors that it is there for, though it still
receives what is critical.
-/
namespace CommentToggle.Log

namespace Setup

/-- The file for errors is open, and all other handlers leave errors out. -/
def Deaf (s : Setup) : Prop :=
  s.errors.isSome ∧ Level.error.rank < s.console ∧ ∀ f ∈ s.file, Level.error.rank < f.level

instance (s : Setup) : Decidable s.Deaf := inferInstanceAs (Decidable (_ ∧ _ ∧ _))

/-- The file for errors takes errors, and the console takes what is critical. -/
structure Ordinary (s : Setup) : Prop where
  errors : ∀ f ∈ s.errors, f.level = Level.error.rank
  console : s.console ≤ Level.critical.rank

variable {s : Setup}

theorem mem_handlers {h : Handler} : h ∈ s.handlers ↔
    h = .console s.console ∨ (∃ f ∈ s.file, h = .file f) ∨ ∃ f ∈ s.errors, h = .file f := by
  simp [handlers, fileHandlers, eq_comm]

theorem root_le_iff {n : Nat} : s.root ≤ n ↔ s.console ≤ n ∨ ∃ f ∈ s.file, f.level ≤ n := by
  unfold root
  cases s.file with
  | none => simp
  | some f => simp

theorem deaf_iff : s.Deaf ↔ s.errors.isSome ∧ Level.error.rank < s.root := by
  rw [← not_le, root_le_iff, not_or, not_le, Deaf]
  simp

/-- A handler is below the root only if it is the file for errors and nothing else takes these. -/
theorem root_le_of_mem_handlers (hs : s.Ordinary) (hhears : ¬ s.Deaf) {h : Handler}
    (hmem : h ∈ s.handlers) : s.root ≤ h.level := by
  rcases mem_handlers.mp hmem with rfl | ⟨f, hf, rfl⟩ | ⟨f, hf, rfl⟩
  · exact root_le_iff.mpr (Or.inl le_rfl)
  · exact root_le_iff.mpr (Or.inr ⟨f, hf, le_rfl⟩)
  · rw [deaf_iff, not_and, not_lt] at hhears
    exact (hhears (Option.isSome_of_mem hf)).trans (hs.errors f hf).ge

theorem exists_lt_root (hs : s.Ordinary) (hdeaf : s.Deaf) :
    ∃ h ∈ s.handlers, h.level = Level.error.rank ∧ h.level < s.root := by
  obtain ⟨hsome, hroot⟩ := deaf_iff.mp hdeaf
  obtain ⟨f, hf⟩ := Option.isSome_iff_exists.mp hsome
  have hlevel := hs.errors f hf
  exact ⟨.file f, mem_handlers.mpr (Or.inr (Or.inr ⟨f, hf, rfl⟩)), hlevel, hlevel.trans_lt hroot⟩

/-- What is critical always gets past the root. -/
theorem root_le_critical (hs : s.Ordinary) : s.root ≤ Level.critical.rank :=
  root_le_iff.mpr (Or.inl hs.console)

theorem error_le_level (hs : s.Ordinary) (hdeaf : s.Deaf) {h : Handler} (hmem : h ∈ s.handlers) :
    Level.error.rank ≤ h.level := by
  rcases mem_handlers.mp hmem with rfl | ⟨f, hf, rfl⟩ | ⟨f, hf, rfl⟩
  · exact hdeaf.2.1.le
  · exact (hdeaf.2.2 f hf).le
  · exact (hs.errors f hf).ge

/-- Of the records that a handler would take, errors are kept from it, and only where nothing
but the file for errors takes them. -/
theorem root_le_rank_iff (hs : s.Ordinary) {h : Handler} (hmem : h ∈ s.handlers) {l : Level}
    (hl : h.accepts l) : s.root ≤ l.rank ↔ ¬ (s.Deaf ∧ l = .error) := by
  constructor
  · intro hroot hlost
    obtain ⟨hdeaf, rfl⟩ := hlost
    exact absurd hroot (deaf_iff.mp hdeaf).2.not_ge
  · intro hheard
    by_cases hdeaf : s.Deaf
    · have hrank : Level.error.rank ≤ l.rank := (error_le_level hs hdeaf hmem).trans hl
      have hcritical : l = .critical := by
        cases l with
        | critical => rfl
        | error => exact absurd ⟨hdeaf, rfl⟩ hheard
        | _ => exact absurd hrank (by decide)
      rw [hcritical]
      exact root_le_critical hs
    · exact (root_le_of_mem_handlers hs hdeaf hmem).trans hl

end Setup

theorem rankOf_le {v : Value} {usual bound : Nat} (husual : usual ≤ bound)
    (hranks : ∀ e ∈ ranks, e.2 ≤ bound) : rankOf v usual ≤ bound := by
  unfold rankOf
  cases hlookup : ranks.lookup (wordOf v) with
  | none => exact husual
  | some n =>
    obtain ⟨before, behind, hsplit, -⟩ := List.lookup_eq_some_iff.mp hlookup
    exact hranks (wordOf v, n) (hsplit ▸ List.mem_append_right before List.mem_cons_self)

theorem loweredRank_le (verbosity : Int) (n : Nat) : loweredRank verbosity n ≤ n := by
  unfold loweredRank
  split
  · exact le_rfl
  · exact min_le_left ..

theorem ordinary_intended (section_ : Table) (verbosity : Int) (o : Opened) :
    (intended section_ verbosity o).Ordinary where
  errors := by
    intro f hf
    obtain ⟨path, -, rfl⟩ := Option.map_eq_some_iff.mp hf
    rfl
  console := (loweredRank_le ..).trans (rankOf_le (by decide) (by decide))

/-- A call with a table of settings whose levels are known names or unknown words. -/
structure Call.Regular (c : Call) (section_ : Table) : Prop where
  settings : sectionOf c.config = .table section_
  console : Ranked (consoleLevel section_)
  file : Ranked (fileLevel section_)

/-- Nothing but the system keeps the log files of the call from being opened. -/
def Call.Systemic (c : Call) (section_ : Table) (t : FileTree) : Prop :=
  Log.Systemic c.opens t (fileName c.environment section_) (separatesErrors section_)

/-- The set-up that the call is for, with the log files that it can open. -/
def Call.intent (c : Call) (section_ : Table) (t : FileTree) : Setup :=
  intended section_ c.verbosity
    (openFiles c.opens t (fileName c.environment section_) (separatesErrors section_))

namespace State

variable {c : Call} {section_ : Table}

theorem root_after {s : State} (h : c.Regular section_) (hsystem : c.Systemic section_ s.tree) :
    (s.after c).root = s.root.install (c.intent section_ s.tree) := by
  have hset := (setupWith_of_ranked h.settings hsystem c.verbosity h.console fun _ => h.file).1
  have hdone : (c.setup s.tree).outcome = .ok (c.intent section_ s.tree) := hset
  unfold after
  simp only [hdone]

theorem root_after_of_error {s : State} {e : Error} (h : (c.setup s.tree).outcome = .error e) :
    (s.after c).root = s.root := by
  unfold after
  simp only [h]

theorem run_append_singleton (s : State) (calls : List Call) (c : Call) :
    s.run (calls ++ [c]) = (s.run calls).after c := List.foldl_append

/-- After any calls, the root has the handlers of the last one: a console, and the log files that
could be opened. Each of them receives every record that it would take, and is not below the
root, unless the last call left nothing but the file for errors to take errors; then these are
the records that are lost. Only a last call that something else than the system ends leaves the
root as it was. -/
theorem run_admits_iff (start : State) (calls : List Call) (h : c.Regular section_) :
    let before := start.run calls
    let set := c.intent section_ before.tree
    let root := (start.run (calls ++ [c])).root
    (c.Systemic section_ before.tree → root.handlers = set.handlers ∧
      ((∀ handler ∈ root.handlers, root.level ≤ handler.level) ↔ ¬ set.Deaf) ∧
      ∀ handler ∈ root.handlers, ∀ l, handler.accepts l →
        (root.admits l ↔ ¬ (set.Deaf ∧ l = .error))) ∧
    (¬ c.Systemic section_ before.tree → root = before.root ∧
      ∃ f, ¬ f.cause.isOfSystem ∧ (c.setup before.tree).outcome = .error (.file f)) := by
  intro before set root
  have hafter : root = (before.after c).root := congrArg State.root (run_append_singleton ..)
  constructor
  · intro hsystem
    have hordinary : set.Ordinary := ordinary_intended ..
    rw [hafter, root_after h hsystem, Root.handlers_install]
    refine ⟨rfl, ⟨?_, ?_⟩, ?_⟩
    · intro hlevel hdeaf
      obtain ⟨handler, hmem, -, hlt⟩ := Setup.exists_lt_root hordinary hdeaf
      exact absurd (hlevel handler hmem) hlt.not_ge
    · intro hhears handler hmem
      exact Setup.root_le_of_mem_handlers hordinary hhears hmem
    · intro handler hmem l hl
      exact Setup.root_le_rank_iff hordinary hmem hl
  · intro hsystem
    obtain ⟨f, hfault, hf⟩ :=
      setupWith_of_not_systemic h.settings hsystem c.verbosity h.console h.file
    exact ⟨hafter.trans (root_after_of_error hf), f, hfault, hf⟩

end State

/-- Both the console and the log file take only what is critical, beside a file for errors. -/
def criticalSection : Table :=
  [("console_level".toList, .text "critical".toList), ("file".toList, .text "a".toList),
    ("file_level".toList, .text "FATAL".toList), ("separate_error_log".toList, .bool true)]

def criticalCall (verbosity : Int) : Call :=
  ⟨openLog, noHome, [("logging".toList, .table criticalSection)], verbosity⟩

def startState : State := ⟨logTree, ⟨30, [.console 30]⟩⟩

theorem regular_critical (verbosity : Int) : (criticalCall verbosity).Regular criticalSection where
  settings := rfl
  console := by decide
  file := by decide

/-- Such a set-up loses errors, but not what is critical; a verbose one that comes after it loses
nothing. -/
theorem State.run_admits_critical :
    (∃ h ∈ (startState.run [criticalCall 0]).root.handlers, h.accepts .error ∧
      ¬ (startState.run [criticalCall 0]).root.admits .error ∧
      (startState.run [criticalCall 0]).root.admits .critical) ∧
    ∀ h ∈ (startState.run [criticalCall 0, criticalCall 1]).root.handlers, ∀ l, h.accepts l →
      (startState.run [criticalCall 0, criticalCall 1]).root.admits l := by
  have hfirst : (criticalCall 0).Systemic criticalSection (startState.run []).tree :=
    systemic_of_opened (by decide +kernel) (by decide +kernel)
  have hsecond : (criticalCall 1).Systemic criticalSection (startState.run [criticalCall 0]).tree :=
    systemic_of_opened (by decide +kernel) (by decide +kernel)
  have hdeaf : ((criticalCall 0).intent criticalSection (startState.run []).tree).Deaf := by
    decide +kernel
  have hhears : ¬ ((criticalCall 1).intent criticalSection
      (startState.run [criticalCall 0]).tree).Deaf := by
    decide +kernel
  obtain ⟨hhandlers, -, hlost⟩ :=
    (State.run_admits_iff startState [] (regular_critical 0)).1 hfirst
  obtain ⟨-, -, hall⟩ :=
    (State.run_admits_iff startState [criticalCall 0] (regular_critical 1)).1 hsecond
  constructor
  · obtain ⟨h, hmem, hlevel, -⟩ := Setup.exists_lt_root (ordinary_intended ..) hdeaf
    have hinstalled : h ∈ (startState.run [criticalCall 0]).root.handlers := hhandlers ▸ hmem
    have herror : h.accepts .error := hlevel.le
    refine ⟨h, hinstalled, herror, fun hadmits => ?_, ?_⟩
    · exact (hlost h hinstalled .error herror).mp hadmits ⟨hdeaf, rfl⟩
    · refine (hlost h hinstalled .critical (hlevel.le.trans (by decide))).mpr fun hboth => ?_
      cases hboth.2
  · intro h hmem l hl
    exact (hall h hmem l hl).mpr fun hboth => hhears hboth.1

end CommentToggle.Log
