import CommentToggle.Log.Root

/-!
What a set-up makes of its settings. A level that is not known counts as the usual one, a log file
that the system does not open is complained about and left out, and the console is always there.
Only two words end a set-up: those for the format of records and for the table of its styles,
which are found where levels are looked up. One of them as the level of the console does so in any
case, as the level of the log file when that file is opened.
-/
namespace CommentToggle.Log

open Text

/-- The levels by their names. -/
def ranks : List (String × Nat) :=
  [("NOTSET", 0), ("DEBUG", 10), ("INFO", 20), ("WARN", 30), ("WARNING", 30), ("ERROR", 40),
   ("FATAL", 50), ("CRITICAL", 50)]

/-- The level of that name, or the usual one if there is none. -/
def rankOf (v : Value) (usual : Nat) : Nat := (ranks.lookup (wordOf v)).getD usual

/-- The value is none of the two words that stand for something else than a level. -/
def Ranked (v : Value) : Prop := wordOf v ≠ "BASIC_FORMAT" ∧ wordOf v ≠ "_STYLES"

instance (v : Value) : Decidable (Ranked v) := inferInstanceAs (Decidable (_ ∧ _))

section Levels

variable {v : Value}

theorem lookup_map_snd {α β γ : Type} [BEq α] (f : β → γ) (xs : List (α × β)) (k : α) :
    (xs.map fun e => (e.1, f e.2)).lookup k = (xs.lookup k).map f := by
  induction xs with
  | nil => rfl
  | cons e rest ih =>
    rw [List.map_cons, List.lookup_cons, List.lookup_cons]
    cases k == e.1 with
    | true => rfl
    | false => exact ih

theorem levelNames_eq : levelNames = ranks.map (fun e => (e.1, .rank e.2)) ++
    [("BASIC_FORMAT", .format), ("_STYLES", .styles)] := rfl

theorem lookup_levelNames (w : String) : levelNames.lookup w =
    ((ranks.lookup w).map LevelSetting.rank).or
      ([("BASIC_FORMAT", LevelSetting.format), ("_STYLES", LevelSetting.styles)].lookup w) := by
  rw [levelNames_eq, List.lookup_append, lookup_map_snd]

theorem levelOf_of_ranked (h : Ranked v) (usual : Nat) :
    levelOf v usual = .rank (rankOf v usual) := by
  unfold levelOf rankOf
  rw [lookup_levelNames]
  cases ranks.lookup (wordOf v) with
  | some n => rfl
  | none =>
    rw [List.lookup_cons, beq_eq_false_iff_ne.mpr h.1]
    simp only
    rw [List.lookup_cons, beq_eq_false_iff_ne.mpr h.2]
    rfl

theorem not_rank_of_not_ranked (h : ¬ Ranked v) (usual : Nat) :
    levelOf v usual = .format ∨ levelOf v usual = .styles := by
  unfold levelOf
  by_cases hformat : wordOf v = "BASIC_FORMAT"
  · rw [hformat]
    exact Or.inl rfl
  · by_cases hstyles : wordOf v = "_STYLES"
    · rw [hstyles]
      exact Or.inr rfl
    · exact absurd ⟨hformat, hstyles⟩ h

theorem mainLog_of_not_ranked (h : ¬ Ranked v) (usual : Nat) (path : Path) :
    ∃ f, mainLog (levelOf v usual) path = .error (.level f) := by
  rcases not_rank_of_not_ranked h usual with hlevel | hlevel
  · rw [hlevel]
    exact ⟨_, rfl⟩
  · rw [hlevel]
    exact ⟨_, rfl⟩

variable {section_ : Table}

theorem consoleRank_of_ranked (h : Ranked (consoleLevel section_)) (verbosity : Int) :
    consoleRank section_ verbosity =
      .ok (loweredRank verbosity (rankOf (consoleLevel section_) 30)) := by
  unfold consoleRank lowered
  rw [levelOf_of_ranked h]
  split
  · rename_i hquiet
    rw [loweredRank, if_pos hquiet]
    rfl
  · rfl

theorem consoleRank_of_not_ranked (h : ¬ Ranked (consoleLevel section_)) (verbosity : Int) :
    ∃ f, consoleRank section_ verbosity = .error f := by
  unfold consoleRank lowered
  rcases not_rank_of_not_ranked h 30 with hlevel | hlevel
  · rw [hlevel]
    split <;> exact ⟨_, rfl⟩
  · rw [hlevel]
    split <;> exact ⟨_, rfl⟩

end Levels

/-- The log files that could be opened, and what is said of those that could not. -/
structure Opened where
  file : Option Path
  errors : Option Path
  complaints : List String

def complaints (name : Text) : Except FileFault Path → List String
  | .ok _ => []
  | .error f => [complaint name f]

/-- What comes of opening the log file of that name, and the one for errors beside it. -/
def openFiles (opens : Opening) (t : FileTree) (name : Text) (separate : Bool) : Opened :=
  if name = [] then ⟨none, none, []⟩
  else
    let (made, main) := opens t name
    if separate then
      let beside := (opens made (errorName name)).2
      ⟨main.toOption, beside.toOption, complaints name main ++ complaints (errorName name) beside⟩
    else ⟨main.toOption, none, complaints name main⟩

/-- Nothing but the system keeps those log files from being opened that are asked for. -/
structure Systemic (opens : Opening) (t : FileTree) (name : Text) (separate : Bool) : Prop where
  file : name ≠ [] → ∀ f, (opens t name).2 = .error f → f.cause.isOfSystem
  errors : name ≠ [] → separate = true →
    ∀ f, (opens (opens t name).1 (errorName name)).2 = .error f → f.cause.isOfSystem

section Files

variable {opens : Opening} {t : FileTree} {name : Text} {separate : Bool}

theorem withErrors_of_system
    (h : ∀ f, (opens t name).2 = .error f → f.cause.isOfSystem) (told : List String)
    (console : Nat) (file : Option FileHandler) :
    withErrors opens t told ⟨console, file, none⟩ name = ⟨(opens t name).1,
      told ++ complaints name (opens t name).2,
      .ok ⟨console, file, (opens t name).2.toOption.map errorLog⟩⟩ := by
  unfold withErrors
  cases hopened : opens t name with
  | mk made result =>
    rw [hopened] at h
    cases result with
    | ok path => simp [complaints, Except.toOption]
    | error f => simp [complaints, Except.toOption, h f rfl]

theorem withErrors_of_not_system {f : FileFault} (hfault : (opens t name).2 = .error f)
    (hsystem : ¬ f.cause.isOfSystem) (told : List String) (s : Setup) :
    (withErrors opens t told s name).outcome = .error (.file f) := by
  unfold withErrors
  cases hopened : opens t name with
  | mk made result =>
    rw [hopened] at hfault
    obtain rfl : result = .error f := hfault
    simp only [hsystem]
    rfl

/-- Files that are opened are used, and there is a complaint about each of the others. -/
theorem withFiles_of_rank (h : Systemic opens t name separate) (hname : name ≠ [])
    {level : LevelSetting} {n : Nat}
    (hlevel : (opens t name).2.toOption.isSome → level = .rank n) (console : Nat) :
    (withFiles opens t console name level separate).outcome =
      .ok ⟨console, (openFiles opens t name separate).file.map (logFile n),
        (openFiles opens t name separate).errors.map errorLog⟩ ∧
    (withFiles opens t console name level separate).complaints =
      (openFiles opens t name separate).complaints := by
  have herrors := fun hseparate => withErrors_of_system (h.errors hname hseparate)
  have hfile := h.file hname
  unfold withFiles openFiles
  rw [if_neg hname]
  cases hopened : opens t name with
  | mk made result =>
    rw [hopened] at herrors hfile hlevel
    cases result with
    | ok path =>
      obtain rfl := hlevel rfl
      cases separate with
      | false => exact ⟨rfl, rfl⟩
      | true =>
        have hbeside := herrors rfl [] console (some (logFile n path))
        exact ⟨congrArg SetupResult.outcome hbeside, congrArg SetupResult.complaints hbeside⟩
    | error f =>
      simp only [hfile f rfl, if_true]
      cases separate with
      | false => exact ⟨rfl, rfl⟩
      | true =>
        have hbeside := herrors rfl [complaint name f] console none
        exact ⟨congrArg SetupResult.outcome hbeside, congrArg SetupResult.complaints hbeside⟩

theorem ne_nil_of_not_systemic (h : ¬ Systemic opens t name separate) : name ≠ [] := by
  intro hname
  exact h ⟨fun hne => absurd hname hne, fun hne => absurd hname hne⟩

theorem beside_of_not_systemic (h : ¬ Systemic opens t name separate)
    (hfile : ∀ f, (opens t name).2 = .error f → f.cause.isOfSystem) :
    separate = true ∧ ∃ f, (opens (opens t name).1 (errorName name)).2 = .error f ∧
      ¬ f.cause.isOfSystem := by
  have herrors : ¬ (name ≠ [] → separate = true →
      ∀ f, (opens (opens t name).1 (errorName name)).2 = .error f → f.cause.isOfSystem) :=
    fun herrors => h ⟨fun _ => hfile, herrors⟩
  simp only [Classical.not_imp, Classical.not_forall] at herrors
  obtain ⟨-, hseparate, f, hf, hfault⟩ := herrors
  exact ⟨hseparate, f, hf, hfault⟩

theorem systemic_of_opened (hfile : (opens t name).2.toOption.isSome)
    (herrors : (opens (opens t name).1 (errorName name)).2.toOption.isSome) :
    Systemic opens t name separate := by
  constructor
  · intro _ f h
    rw [h] at hfile
    cases hfile
  · intro _ _ f h
    rw [h] at herrors
    cases herrors

/-- A fault that is none of the system's ends the set-up. -/
theorem withFiles_of_not_systemic (h : ¬ Systemic opens t name separate) (console n : Nat) :
    ∃ f, ¬ f.cause.isOfSystem ∧
      (withFiles opens t console name (.rank n) separate).outcome = .error (.file f) := by
  have hbeside := beside_of_not_systemic h
  unfold withFiles
  cases hopened : opens t name with
  | mk made result =>
    rw [hopened] at hbeside
    cases result with
    | ok path =>
      obtain ⟨rfl, f, hf, hfault⟩ := hbeside fun f hf => by cases hf
      exact ⟨f, hfault, withErrors_of_not_system hf hfault ..⟩
    | error f =>
      by_cases hsystem : f.cause.isOfSystem
      · obtain ⟨rfl, g, hg, hfault⟩ := hbeside fun g hg => by cases hg; exact hsystem
        refine ⟨g, hfault, ?_⟩
        simp only [hsystem, if_true]
        exact withErrors_of_not_system hg hfault ..
      · refine ⟨f, hsystem, ?_⟩
        simp only [hsystem]
        rfl

theorem withFiles_of_not_ranked {v : Value} (hopened : (opens t name).2.toOption.isSome)
    (hlevel : ¬ Ranked v) (console usual : Nat) :
    ∃ f, (withFiles opens t console name (levelOf v usual) separate).outcome =
      .error (.level f) := by
  unfold withFiles
  cases hresult : opens t name with
  | mk made result =>
    rw [hresult] at hopened
    cases result with
    | error f => cases hopened
    | ok path =>
      obtain ⟨f, hf⟩ := mainLog_of_not_ranked hlevel usual path
      refine ⟨f, ?_⟩
      simp only [hf]

theorem openFiles_file (hname : name ≠ []) :
    (openFiles opens t name separate).file = (opens t name).2.toOption := by
  unfold openFiles
  rw [if_neg hname]
  cases separate <;> rfl

end Files

/-- What a set-up with these settings comes to, once those log files are open. -/
def intended (section_ : Table) (verbosity : Int) (o : Opened) : Setup :=
  ⟨loweredRank verbosity (rankOf (consoleLevel section_) 30),
    o.file.map (logFile (rankOf (fileLevel section_) 10)), o.errors.map errorLog⟩

section Setup

variable {config section_ : Table} {opens : Opening} {t : FileTree} {e : Environment}

/-- A set-up from settings of which each is put to use. -/
theorem setupWith_of_ranked (hsection : sectionOf config = .table section_)
    (hsystem : Systemic opens t (fileName e section_) (separatesErrors section_)) (verbosity : Int)
    (hconsole : Ranked (consoleLevel section_))
    (hfile : (openFiles opens t (fileName e section_) (separatesErrors section_)).file.isSome →
      Ranked (fileLevel section_)) :
    (setupWith opens t e config verbosity).outcome = .ok (intended section_ verbosity
      (openFiles opens t (fileName e section_) (separatesErrors section_))) ∧
    (setupWith opens t e config verbosity).complaints =
      (openFiles opens t (fileName e section_) (separatesErrors section_)).complaints := by
  unfold setupWith
  rw [hsection]
  simp only [Value.asSection, consoleRank_of_ranked hconsole]
  by_cases hname : fileName e section_ = []
  · rw [if_pos (List.isEmpty_iff.mpr hname), openFiles, if_pos hname]
    exact ⟨rfl, rfl⟩
  · rw [openFiles_file hname] at hfile
    rw [if_neg (by simpa using hname)]
    exact withFiles_of_rank hsystem hname (fun hopened => levelOf_of_ranked (hfile hopened) 10) _

/-- A set-up whose levels can be put to use, and which something else than the system ends. -/
theorem setupWith_of_not_systemic (hsection : sectionOf config = .table section_)
    (hsystem : ¬ Systemic opens t (fileName e section_) (separatesErrors section_))
    (verbosity : Int) (hconsole : Ranked (consoleLevel section_))
    (hfile : Ranked (fileLevel section_)) :
    ∃ f, ¬ f.cause.isOfSystem ∧
      (setupWith opens t e config verbosity).outcome = .error (.file f) := by
  have hname := ne_nil_of_not_systemic hsystem
  unfold setupWith
  rw [hsection]
  simp only [Value.asSection, consoleRank_of_ranked hconsole]
  rw [if_neg (by simpa using hname), levelOf_of_ranked hfile]
  exact withFiles_of_not_systemic hsystem ..

/-- A word that is no level ends the set-up, when it is met as a level that is put to use. -/
theorem setupWith_of_not_ranked (hsection : sectionOf config = .table section_) (verbosity : Int)
    (hunranked : ¬ (Ranked (consoleLevel section_) ∧
      ((openFiles opens t (fileName e section_) (separatesErrors section_)).file.isSome →
        Ranked (fileLevel section_)))) :
    ∃ f, (setupWith opens t e config verbosity).outcome = .error (.level f) := by
  unfold setupWith
  rw [hsection]
  simp only [Value.asSection]
  by_cases hconsole : Ranked (consoleLevel section_)
  · obtain ⟨hopened, hfile⟩ := Classical.not_imp.mp (not_and.mp hunranked hconsole)
    have hname : fileName e section_ ≠ [] := by
      intro hname
      rw [openFiles, if_pos hname] at hopened
      cases hopened
    rw [openFiles_file hname] at hopened
    rw [consoleRank_of_ranked hconsole]
    simp only
    rw [if_neg (by simpa using hname)]
    exact withFiles_of_not_ranked hopened hfile ..
  · obtain ⟨f, hf⟩ := consoleRank_of_not_ranked hconsole verbosity
    rw [hf]
    exact ⟨f, rfl⟩

/-- Whatever strings, numbers and truth values the settings are, and whatever the system does, the
set-up comes to a console and to the log files that could be opened, with the usual level for each
one that is not known, and there is a complaint about each file that could not; unless one of the
two words that are no levels is met as a level that is put to use. Then it ends with a fault. -/
theorem setupWith_returns_iff (hsection : sectionOf config = .table section_)
    (hsystem : Systemic opens t (fileName e section_) (separatesErrors section_)) (verbosity : Int) :
    let files := openFiles opens t (fileName e section_) (separatesErrors section_)
    let done := setupWith opens t e config verbosity
    (Ranked (consoleLevel section_) ∧ (files.file.isSome → Ranked (fileLevel section_)) →
      ∃ s, done.outcome = .ok s ∧ s = intended section_ verbosity files ∧
        (∀ r : Root, .console s.console ∈ (r.install s).handlers) ∧
        done.complaints = files.complaints) ∧
    (¬ (Ranked (consoleLevel section_) ∧ (files.file.isSome → Ranked (fileLevel section_))) →
      ∃ f, done.outcome = .error (.level f)) := by
  constructor
  · intro h
    obtain ⟨hconsole, hfile⟩ := h
    obtain ⟨hset, htold⟩ := setupWith_of_ranked hsection hsystem verbosity hconsole hfile
    refine ⟨_, hset, rfl, fun r => ?_, htold⟩
    rw [Root.handlers_install]
    exact List.mem_cons_self
  · exact setupWith_of_not_ranked hsection verbosity

end Setup

/-- A folder that cannot be opened as a log file, while the one for errors beside it can. -/
def logTree : FileTree :=
  ⟨["w".toList], [(["w".toList], .folder), (["w".toList, "d".toList], .folder)]⟩

def noHome : Environment := ⟨[], fun _ => none⟩

/-- Settings that are no levels, and a word that is none as the level of the log file. -/
def oddSection (file : Text) : Table :=
  [("console_level".toList, .bool true), ("file".toList, .text file),
    ("file_level".toList, .text "basic_format".toList), ("separate_error_log".toList, .int 7)]

def oddConfig (file : Text) : Table := [("logging".toList, .table (oddSection file))]

/-- With the folder as its log file the odd word is not met, and with another file it is. -/
theorem setupWith_returns_odd :
    (setup logTree noHome (oddConfig "d".toList) 1).outcome =
      .ok ⟨20, none, some (errorLog ["w".toList, "d.error".toList])⟩ ∧
    (setup logTree noHome (oddConfig "d".toList) 1).complaints =
      ["Error setting up log file 'd': [Errno 21] Is a directory: '/w/d'."] ∧
    ∃ f, (setup logTree noHome (oddConfig "a".toList) 1).outcome = .error (.level f) := by
  have hfolder : Systemic openLog logTree (fileName noHome (oddSection "d".toList)) true := by
    constructor
    · intro _ f h
      have hfault : Except.error ⟨.isDirectory, "/w/d".toList, none⟩ = Except.error f := h
      cases hfault
      rfl
    · intro _ _ f h
      cases h
  have hfile : Systemic openLog logTree (fileName noHome (oddSection "a".toList)) true :=
    systemic_of_opened (by decide +kernel) (by decide +kernel)
  have hsection (file : Text) : sectionOf (oddConfig file) = .table (oddSection file) := rfl
  have hodd (file : Text) : wordOf (fileLevel (oddSection file)) = "BASIC_FORMAT" := rfl
  have hopened : (openFiles openLog logTree (fileName noHome (oddSection "a".toList))
      (separatesErrors (oddSection "a".toList))).file.isSome = true := by decide +kernel
  obtain ⟨s, hset, hsetup, -, htold⟩ :=
    (setupWith_returns_iff (hsection "d".toList) hfolder 1).1
      ⟨by decide, fun hopened => absurd hopened (by decide +kernel)⟩
  refine ⟨hset.trans (congrArg Except.ok (hsetup.trans rfl)), htold.trans (by decide +kernel), ?_⟩
  refine (setupWith_returns_iff (hsection "a".toList) hfile 1).2 fun h => ?_
  exact (h.2 hopened).1 (hodd "a".toList)

end CommentToggle.Log
