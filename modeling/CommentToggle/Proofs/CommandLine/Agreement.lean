import CommentToggle.Proofs.CommandLine.Modes
import CommentToggle.Proofs.Encoding.Reading

/-!
The modes agree. What is printed, what passes through the filter and what the file holds
afterwards are the same bytes, and a check tells whether they are new; or all modes fail
with the same error. A file that is left alone because its text stays as it is holds these
bytes already, since what is read gives the bytes back and no two texts have the same ones.
-/
namespace CommentToggle

/-- A style given on the command line does not depend on the path. -/
theorem Detect.detect_given {q : Question} (h : given q.leader ≠ none ∨ given q.styleName ≠ none)
    (config : Table) (lexers : Text → Option Lexer) (path : Option Text) :
    detect config lexers { q with path } = detect config lexers q := by
  unfold detect
  cases hleader : given q.leader with
  | some leader => simp only
  | none =>
    cases hname : given q.styleName with
    | some name => simp only
    | none => simp [hleader, hname] at h

namespace CommandLine.Job

theorem outcome_styleOf (j : Job) (h : Host) (path : Text) : (j.styleOf h path).outcome =
    (Detect.detect j.config h.lexers ⟨some path, j.styleName, j.leader, j.closer⟩).outcome := by
  unfold styleOf
  rw [Logged.outcome_bind]
  cases (Detect.detect j.config h.lexers ⟨some path, j.styleName, j.leader, j.closer⟩).outcome with
  | error e => rfl
  | ok s => rfl

/-- A style given on the command line is the same for the file and the filter. -/
theorem outcome_styleOf_of_given {j : Job} {h : Host}
    (hgiven : Detect.given j.leader ≠ none ∨ Detect.given j.styleName ≠ none)
    (path path' : Text) :
    (j.styleOf h path').outcome = (j.styleOf h path).outcome := by
  rw [outcome_styleOf, outcome_styleOf]
  exact congrArg Logged.outcome (Detect.detect_given
    (q := ⟨some path, j.styleName, j.leader, j.closer⟩) hgiven j.config h.lexers (some path'))

end CommandLine.Job

section Bytes
variable [Charsets] [Packages]

namespace FileToggle

theorem outcome_ofBytes (h : Host) (source : Text) (raw : Bytes) (s : Style) (r : Request) :
    (ofBytes h source raw s r).outcome =
      ((toggleLogged s (Reading.decode h.detector source raw).2.text r).mapError
        Error.fault).outcome.map fun done =>
          ⟨(Reading.decode h.detector source raw).2.text,
            (Reading.decode h.detector source raw).2.encoding, done⟩ := by
  unfold ofBytes
  rw [← Reading.decodeNoted_snd h source raw]
  cases Reading.decodeNoted h source raw with
  | mk records decoded =>
    simp only [Logged.outcome_bind, Logged.notes, Except.bind]
    cases ((toggleLogged s decoded.text r).mapError Error.fault).outcome <;> rfl

theorem outcome_ofBytes_source (h : Host) (source source' : Text) (raw : Bytes) (s : Style)
    (r : Request) : (ofBytes h source' raw s r).outcome = (ofBytes h source raw s r).outcome := by
  rw [outcome_ofBytes, outcome_ofBytes, Reading.decode_source]

theorem of_outcome_ofBytes {h : Host} {source : Text} {raw : Bytes} {s : Style} {r : Request}
    {f : ToggledFile} (hof : (ofBytes h source raw s r).outcome = .ok f) :
    f.initial = (Reading.decode h.detector source raw).2.text ∧
      f.encoding = (Reading.decode h.detector source raw).2.encoding := by
  rw [outcome_ofBytes] at hof
  cases hdone : ((toggleLogged s (Reading.decode h.detector source raw).2.text r).mapError
      Error.fault).outcome with
  | error e =>
    rw [hdone] at hof
    cases hof
  | ok done =>
    rw [hdone] at hof
    cases hof
    exact ⟨rfl, rfl⟩

/-- The text that was read gives the bytes back. -/
theorem encodeBy_initial {h : Host} {source : Text} {raw : Bytes} {s : Style} {r : Request}
    {f : ToggledFile} (hof : (ofBytes h source raw s r).outcome = .ok f) :
    Codec.encodeBy f.encoding f.initial = .ok raw := by
  obtain ⟨hinitial, hencoding⟩ := of_outcome_ofBytes hof
  rw [hinitial, hencoding]
  exact Reading.encodeBy_decode h.detector source raw

omit [Charsets] [Packages] in
theorem text_of_unchanged {f : ToggledFile} (hnot : f.changed = false) :
    f.done.text = f.initial := by
  simpa [ToggledFile.changed, Toggled.changed] using hnot

/-- The text that stays as it is can be encoded, so only a new text has to be. -/
theorem exists_encodeBy {h : Host} {source : Text} {raw : Bytes} {s : Style} {r : Request}
    {f : ToggledFile} (hof : (ofBytes h source raw s r).outcome = .ok f)
    (hnew : f.changed = true → ∃ bytes, Codec.encodeBy f.encoding f.done.text = .ok bytes) :
    ∃ bytes, Codec.encodeBy f.encoding f.done.text = .ok bytes := by
  cases hchanged : f.changed with
  | true => exact hnew hchanged
  | false => exact ⟨raw, text_of_unchanged hchanged ▸ encodeBy_initial hof⟩

/-- The text changes exactly when its bytes do. -/
theorem changed_iff {h : Host} {source : Text} {raw bytes : Bytes} {s : Style} {r : Request}
    {f : ToggledFile} (hof : (ofBytes h source raw s r).outcome = .ok f)
    (hencode : Codec.encodeBy f.encoding f.done.text = .ok bytes)
    (hfurther : ∀ c ∈ Charsets.find? f.encoding, c.Injective) :
    f.changed = true ↔ bytes ≠ raw := by
  have hback := encodeBy_initial hof
  unfold ToggledFile.changed Toggled.changed
  rw [bne_iff_ne, not_iff_not]
  constructor
  · intro hsame
    rw [hsame, hback] at hencode
    exact (Except.ok.inj hencode).symm
  · rintro rfl
    exact Codec.encodeBy_inj hfurther hencode hback

end FileToggle

namespace FileTree

variable {t : FileTree} {h : Host} {path : Text} {raw : Bytes} {s : Style} {r : Request}

theorem readToggled_of_read (hread : t.read h.refuses path = .ok raw) (s : Style) (r : Request) :
    t.readToggled h path s r = FileToggle.ofBytes h path raw s r := by
  unfold readToggled
  rw [hread]
  rfl

/-- A file that is not to be written is toggled without a trace. -/
theorem toggle_unwritten (hread : t.read h.refuses path = .ok raw) (s : Style) (r : Request) :
    t.toggle h path s r false = (t, FileToggle.ofBytes h path raw s r) := by
  unfold toggle
  simp only [readToggled_of_read hread]
  cases (FileToggle.ofBytes h path raw s r).outcome <;> rfl

theorem toggle_of_error {e : Error} (hread : t.read h.refuses path = .ok raw)
    (hof : (FileToggle.ofBytes h path raw s r).outcome = .error e) (write : Bool) :
    t.toggle h path s r write = (t, FileToggle.ofBytes h path raw s r) := by
  unfold toggle
  simp only [readToggled_of_read hread, hof]

/-- A file that can be written holds the bytes of the new text afterwards, also when it is
left alone because the text stays as it is. -/
theorem toggle_written (hhere : t.here.Plain) {f : ToggledFile} {bytes : Bytes}
    (hread : t.read h.refuses path = .ok raw)
    (hof : (FileToggle.ofBytes h path raw s r).outcome = .ok f)
    (hencode : Codec.encodeBy f.encoding f.done.text = .ok bytes)
    (hwritable : f.changed = true → t.Writable h path f.encoding f.done.text) :
    ∃ after run, t.toggle h path s r true = (after, run) ∧ run.outcome = .ok f ∧
      after.read h.refuses path = .ok bytes := by
  have hok := (outcome_toggle_eq_ok_iff hhere h path s r true f).mpr
    ⟨raw, hread, hof, fun _ => hwritable⟩
  rcases toggle_cases hhere h path s r true with ⟨run, e, hrun, he⟩ | ⟨run, g, hrun, hg, hnot⟩ |
    ⟨run, g, p, raw', mode, bytes', -, -, hfind, -, hencode', hrun, hg⟩
  all_goals rw [hrun] at hok
  · cases he.symm.trans hok
  · obtain rfl : g = f := Except.ok.inj (hg.symm.trans hok)
    have hunchanged : g.changed = false := by simpa using hnot
    rw [FileToggle.text_of_unchanged hunchanged, FileToggle.encodeBy_initial hof] at hencode
    obtain rfl := Except.ok.inj hencode
    exact ⟨t, run, hrun, hok, hread⟩
  · obtain rfl : g = f := Except.ok.inj (hg.symm.trans hok)
    obtain rfl := Except.ok.inj (hencode'.symm.trans hencode)
    exact ⟨_, run, hrun, hok, read_put hread hfind bytes'⟩

end FileTree

namespace CommandLine

namespace Job

variable {j : Job} {h : Host} {t : FileTree} {path : Text} {raw : Bytes}

/-- What the bytes of the file are toggled to, in the style of the job. -/
def toggled (j : Job) (h : Host) (path : Text) (raw : Bytes) : Except Error ToggledFile := do
  let s ← (j.styleOf h path).outcome
  (FileToggle.ofBytes h path raw s j.request).outcome

theorem toggled_of_given
    (hgiven : Detect.given j.leader ≠ none ∨ Detect.given j.styleName ≠ none) (path' : Text) :
    j.toggled h path' raw = j.toggled h path raw := by
  unfold toggled
  rw [outcome_styleOf_of_given hgiven path path']
  simp only [FileToggle.outcome_ofBytes_source h path path' raw]

/-- The report on a file whose style is known. -/
theorem process_of_style {s : Style} (hdash : path ≠ ['-'])
    (hstyle : (j.styleOf h path).outcome = .ok s) (stdin : Bytes) :
    j.process h stdin t path = ⟨(j.onFile h t path s).1, (j.onFile h t path s).2.1,
      (j.styleOf h path).records ++ (j.onFile h t path s).2.2.records,
      (j.onFile h t path s).2.2.outcome⟩ := by
  unfold process
  simp only [hstyle, if_neg hdash]

theorem process_of_error {e : Error} (hlist : j.list = false) (hdash : path ≠ ['-'])
    (hread : t.read h.refuses path = .ok raw) (htoggled : j.toggled h path raw = .error e)
    (stdin : Bytes) : ∃ records, j.process h stdin t path = ⟨t, [], records, .error e⟩ := by
  rcases Outcome.bind_eq_error_iff.mp htoggled with hstyle | ⟨s, hstyle, hof⟩
  · unfold process
    simp only [hstyle]
    exact ⟨_, rfl⟩
  · rw [process_of_style hdash hstyle]
    simp only [onFile, hlist, Bool.false_eq_true, if_false, FileTree.toggle_of_error hread hof, hof]
    exact ⟨_, rfl⟩

section Ok
variable {f : ToggledFile} {bytes : Bytes}

/-- Printing and checking are told alike. -/
theorem process_unwritten (hlist : j.list = false) (hstdout : j.toStdout = false)
    (hdash : path ≠ ['-']) (hread : t.read h.refuses path = .ok raw)
    (htoggled : j.toggled h path raw = .ok f)
    (hencode : Codec.encodeBy f.encoding f.done.text = .ok bytes) (stdin : Bytes) :
    ∃ records,
      (j.inMode .toStdout).process h stdin t path = ⟨t, bytes, records, .ok f.changed⟩ ∧
      (j.inMode .check).process h stdin t path = ⟨t, [], records, .ok f.changed⟩ := by
  obtain ⟨s, hstyle, hof⟩ := Outcome.bind_eq_ok_iff.mp htoggled
  have htoggle := FileTree.toggle_unwritten hread s j.request
  have hprinted : (j.inMode .toStdout).onFile h t path s =
      (t, bytes, ⟨(FileToggle.ofBytes h path raw s j.request).records, .ok f.changed⟩) := by
    simp only [onFile, Job.inMode, hlist, Bool.false_eq_true, if_false, decide_true, Bool.or_true,
      Bool.true_or, Bool.not_true, htoggle, hof, if_true, printed, hencode]
    simp
  have hchecked : (j.inMode .check).onFile h t path s =
      (t, [], ⟨(FileToggle.ofBytes h path raw s j.request).records, .ok f.changed⟩) := by
    simp only [onFile, Job.inMode, hlist, hstdout, Bool.false_eq_true, if_false, decide_true,
      Bool.or_true, Bool.not_true, htoggle, hof]
    simp
  rw [process_of_style (j := j.inMode .toStdout) hdash hstyle, hprinted,
    process_of_style (j := j.inMode .check) hdash hstyle, hchecked]
  exact ⟨_, rfl, rfl⟩

theorem process_inPlace (hlist : j.list = false) (hstdout : j.toStdout = false)
    (hcheck : j.check = false) (hdash : path ≠ ['-']) (hhere : t.here.Plain)
    (hread : t.read h.refuses path = .ok raw) (htoggled : j.toggled h path raw = .ok f)
    (hencode : Codec.encodeBy f.encoding f.done.text = .ok bytes)
    (hwritable : f.changed = true → t.Writable h path f.encoding f.done.text)
    (stdin : Bytes) :
    ∃ after records, j.process h stdin t path = ⟨after, [], records, .ok f.changed⟩ ∧
      after.read h.refuses path = .ok bytes := by
  obtain ⟨s, hstyle, hof⟩ := Outcome.bind_eq_ok_iff.mp htoggled
  obtain ⟨after, run, htoggle, hrun, hafter⟩ :=
    FileTree.toggle_written hhere hread hof hencode hwritable
  rw [process_of_style hdash hstyle]
  simp only [onFile, hlist, hstdout, hcheck, Bool.false_eq_true, if_false, Bool.or_false,
    Bool.not_false, htoggle, hrun]
  exact ⟨after, _, rfl, hafter⟩

end Ok

/-- The filter takes the bytes from standard input and leaves the tree alone. -/
theorem process_dash_of_error {e : Error} (hlist : j.list = false)
    (htoggled : j.toggled h ['-'] raw = .error e) (t : FileTree) :
    ∃ records, j.process h raw t ['-'] = ⟨t, [], records, .error e⟩ := by
  unfold process
  rcases Outcome.bind_eq_error_iff.mp htoggled with hstyle | ⟨s, hstyle, hof⟩
  · simp only [hstyle]
    exact ⟨_, rfl⟩
  · have hof' := (FileToggle.outcome_ofBytes_source h ['-'] stdinName raw s j.request).trans hof
    simp only [hstyle, if_true, onStdin, hlist, Bool.false_eq_true, if_false, hof']
    exact ⟨_, rfl⟩

theorem process_dash_of_ok {f : ToggledFile} {bytes : Bytes} (hlist : j.list = false)
    (htoggled : j.toggled h ['-'] raw = .ok f)
    (hencode : Codec.encodeBy f.encoding f.done.text = .ok bytes) (t : FileTree) :
    ∃ records, j.process h raw t ['-'] = ⟨t, bytes, records, .ok f.changed⟩ := by
  obtain ⟨s, hstyle, hof⟩ := Outcome.bind_eq_ok_iff.mp htoggled
  have hof' := (FileToggle.outcome_ofBytes_source h ['-'] stdinName raw s j.request).trans hof
  unfold process
  simp only [hstyle, if_true, onStdin, hlist, Bool.false_eq_true, if_false, hof', printed, hencode]
  exact ⟨_, rfl⟩

end Job

section Conclude
omit [Charsets]
variable {j : Job} {h : Host} {t : FileTree} {r : FileReport}

/-- The end of a run on one file that comes to no error. -/
theorem conclude_of_ok {changed : Bool} (hok : r.outcome = .ok changed) (path : Text)
    (early : String) (threshold : Nat) :
    conclude j early threshold ((Progress.start t).add j h path r) =
      ⟨if j.check = true ∧ changed = true then 1 else 0, r.printed,
        early ++ consoleLines threshold r.records ++
          (if j.check = true ∧ changed = true then wouldChange path else ""), r.tree, none⟩ := by
  unfold Progress.add conclude
  rw [hok]
  cases changed <;> cases j.check <;> simp [Progress.start]

/-- The end of a run on one file that comes to an error. -/
theorem conclude_of_error {e : Error} (herror : r.outcome = .error e) (path : Text) (early : String)
    (threshold : Nat) : ∃ told, conclude j early threshold ((Progress.start t).add j h path r) =
      ⟨1, r.printed, told ++ (if e.isDiagnostic = true then faultLine j.several path e else ""),
        r.tree, if e.isDiagnostic = true then none else some e⟩ := by
  unfold Progress.add conclude
  rw [herror]
  cases hdiagnostic : e.isDiagnostic with
  | false =>
    refine ⟨early ++ consoleLines threshold r.records, ?_⟩
    simp [Progress.start, hdiagnostic]
  | true =>
    refine ⟨early ++ consoleLines threshold (r.records ++ [j.givingUp h path e]), ?_⟩
    simp [Progress.start, hdiagnostic]

end Conclude

/-- The command on the file in some mode, with the bytes on standard input for the filter. -/
def runIn (h : Host) (i : Invocation) (t : FileTree) (raw : Bytes) (args : Mode → List Text)
    (m : Mode) : Outcome :=
  run h { i with arguments := args m, stdin := m.stdin raw i.stdin } t

/-- A run that fails with the error, prints nothing and leaves the tree alone. A diagnostic
is told last, any other error ends the run. -/
structure Outcome.FailsWith (o : Outcome) (t : FileTree) (e : Error) : Prop where
  exit : o.exit = 1
  stdout : o.stdout = []
  tree : o.tree = t
  failure : o.failure = if e.isDiagnostic = true then none else some e
  reported : e.isDiagnostic = true → ∃ told, o.stderr = told ++ ("Error: " ++ e.message ++ "\n")

/-- The runs in the four modes on a file with the bytes `raw` agree on the bytes of the new
text. -/
structure Launch.Agree {h : Host} {i : Invocation} {t : FileTree} (l : Launch h i t)
    (raw bytes : Bytes) (ends : Mode → Outcome) : Prop where
  toStdout : (ends .toStdout).stdout = bytes
  filter : (ends .filter).stdout = bytes
  inPlace : (ends .inPlace).tree.read h.refuses l.parameters.file = .ok bytes
  check : (ends .check).exit = if bytes = raw then 0 else 1
  reported : (ends .check).stderr = (ends .toStdout).stderr ++
    if bytes = raw then "" else wouldChange l.parameters.file
  silent : (ends .inPlace).stdout = [] ∧ (ends .check).stdout = []
  kept : ∀ m, m ≠ .inPlace → (ends m).tree = l.started.tree
  exit : ∀ m, m ≠ .check → (ends m).exit = 0
  failure : ∀ m, (ends m).failure = none

namespace Launch

variable {h : Host} {i : Invocation} {t : FileTree} {l : Launch h i t}

section Ends
variable {args : Mode → List Text} {m : Mode} {r : FileReport}

omit [Charsets] in
theorem Single.several (hsingle : l.Single) : l.job.several = false := by
  simp [job, Parameters.job, Parameters.several, Parameters.paths, hsingle.alone]

theorem Single.run_inMode (hsingle : l.Single) (raw : Bytes)
    (hargs : Packages.parameters h i.environment t (args m) = .ok (l.parameters.inMode m)) :
    runIn h i t raw args m = conclude (l.job.inMode m) l.started.told l.started.log.console
      ((Progress.start l.started.tree).add (l.job.inMode m) h (m.file l.parameters.file)
        ((l.job.inMode m).process h (m.stdin raw i.stdin) l.started.tree
          (m.file l.parameters.file))) := by
  have hone : (l.parameters.inMode m).several = false := hsingle.several
  have hpaths : (l.parameters.inMode m).paths = [m.file l.parameters.file] := by
    simp [Parameters.paths, Parameters.inMode, hsingle.alone]
  unfold runIn
  rw [(l.inMode m raw hargs).run_eq]
  unfold runFiles Launch.inMode
  simp only [hone, hpaths, Bool.false_and, Bool.false_eq_true, if_false, work_one,
    Parameters.job_inMode]
  rfl

/-- The end of the run in some mode, from the report on the file. -/
theorem Single.runIn_of_ok (hsingle : l.Single) (raw : Bytes)
    (hargs : Packages.parameters h i.environment t (args m) = .ok (l.parameters.inMode m))
    {changed : Bool}
    (hr : (l.job.inMode m).process h (m.stdin raw i.stdin) l.started.tree
      (m.file l.parameters.file) = r)
    (hok : r.outcome = .ok changed) : runIn h i t raw args m =
      ⟨if m = .check ∧ changed = true then 1 else 0, r.printed,
        l.started.told ++ consoleLines l.started.log.console r.records ++
          (if m = .check ∧ changed = true then wouldChange l.parameters.file else ""),
        r.tree, none⟩ := by
  have hcheck : (l.job.inMode m).check = true ↔ m = .check := by
    have hbase : l.job.check = false := hsingle.check
    simp [Job.inMode, hbase]
  rw [hsingle.run_inMode raw hargs, hr, conclude_of_ok hok]
  by_cases hm : m = .check
  · subst hm
    simp [hcheck, Mode.file]
  · simp [hcheck, hm]

/-- The end of the run in some mode, when the file cannot be toggled. -/
theorem Single.runIn_of_error (hsingle : l.Single) {raw : Bytes}
    (hargs : Packages.parameters h i.environment t (args m) = .ok (l.parameters.inMode m))
    {e : Error}
    (hr : (l.job.inMode m).process h (m.stdin raw i.stdin) l.started.tree
      (m.file l.parameters.file) = r)
    (herror : r.outcome = .error e) : ∃ told, runIn h i t raw args m =
      ⟨1, r.printed, told ++ (if e.isDiagnostic = true then "Error: " ++ e.message ++ "\n" else ""),
        r.tree, if e.isDiagnostic = true then none else some e⟩ := by
  have hseveral : (l.job.inMode m).several = false := hsingle.several
  obtain ⟨told, hend⟩ := conclude_of_error (j := l.job.inMode m) (h := h) (t := l.started.tree)
    herror (m.file l.parameters.file) l.started.told l.started.log.console
  refine ⟨told, ?_⟩
  rw [hsingle.run_inMode raw hargs, hr, hend]
  simp [faultLine, hseveral]

end Ends

/-- The file that cannot be toggled is reported so in every mode. -/
theorem Single.process_of_error (hsingle : l.Single) {raw : Bytes} {e : Error}
    (hread : l.started.tree.read h.refuses l.parameters.file = .ok raw)
    (htoggled : l.job.toggled h l.parameters.file raw = .error e) (m : Mode) : ∃ records,
      (l.job.inMode m).process h (m.stdin raw i.stdin) l.started.tree (m.file l.parameters.file) =
        ⟨l.started.tree, [], records, .error e⟩ := by
  have hlist : (l.job.inMode m).list = false := hsingle.list
  by_cases hm : m = .filter
  · subst hm
    exact Job.process_dash_of_error hlist
      ((Job.toggled_of_given hsingle.styled ['-']).trans htoggled) l.started.tree
  · rw [Mode.file, if_neg hm]
    exact Job.process_of_error hlist hsingle.named hread htoggled _

/-- The file that can be toggled is reported as changed or not in every mode, a check and a
printed text with the same records. -/
theorem Single.process_of_ok (hsingle : l.Single) (hhere : l.started.tree.here.Plain)
    {raw bytes : Bytes} {f : ToggledFile}
    (hread : l.started.tree.read h.refuses l.parameters.file = .ok raw)
    (htoggled : l.job.toggled h l.parameters.file raw = .ok f)
    (hencode : Codec.encodeBy f.encoding f.done.text = .ok bytes)
    (hwritable : f.changed = true →
      l.started.tree.Writable h l.parameters.file f.encoding f.done.text) :
    ∃ (records : Mode → List Record) (after : FileTree),
      records .check = records .toStdout ∧ after.read h.refuses l.parameters.file = .ok bytes ∧
      ∀ m, (l.job.inMode m).process h (m.stdin raw i.stdin) l.started.tree (m.file l.parameters.file) =
        ⟨if m = .inPlace then after else l.started.tree,
          if m = .toStdout ∨ m = .filter then bytes else [], records m, .ok f.changed⟩ := by
  obtain ⟨told, hprinted, hchecked⟩ := Job.process_unwritten hsingle.list hsingle.toStdout
    hsingle.named hread htoggled hencode i.stdin
  obtain ⟨after, written, hwritten, hafter⟩ := Job.process_inPlace hsingle.list hsingle.toStdout
    hsingle.check hsingle.named hhere hread htoggled hencode hwritable i.stdin
  obtain ⟨filtered, hfiltered⟩ := Job.process_dash_of_ok (j := l.job) hsingle.list
    ((Job.toggled_of_given hsingle.styled ['-']).trans htoggled) hencode l.started.tree
  rw [← l.job.inMode_inPlace] at hwritten
  rw [← l.job.inMode_filter] at hfiltered
  refine ⟨fun m => if m = .inPlace then written else if m = .filter then filtered else told, after,
    rfl, hafter, fun m => ?_⟩
  cases m with
  | inPlace => exact hwritten
  | toStdout => exact hprinted
  | check => exact hchecked
  | filter => exact hfiltered

end Launch

/-- The four modes agree on a file that can be read, whatever it holds and whatever the
detector says of it, if a new text can be written in its encoding and no two texts have the
same bytes in it. What goes to log files besides is not looked at. -/
theorem modes_agree {h : Host} {i : Invocation} {t : FileTree} (l : Launch h i t)
    (hsingle : l.Single) (hhere : t.here.Plain) {args : Mode → List Text}
    (hargs : ∀ m, Packages.parameters h i.environment t (args m) = .ok (l.parameters.inMode m))
    {raw : Bytes} (hread : l.started.tree.read h.refuses l.parameters.file = .ok raw)
    (hwrites : ∀ f, l.job.toggled h l.parameters.file raw = .ok f →
      (f.changed = true →
        l.started.tree.Writable h l.parameters.file f.encoding f.done.text) ∧
        ∀ c ∈ Charsets.find? f.encoding, c.Injective) :
    (∀ f, l.job.toggled h l.parameters.file raw = .ok f → ∃ bytes,
      Codec.encodeBy f.encoding f.done.text = .ok bytes ∧
      l.Agree raw bytes (runIn h i t raw args)) ∧
    ∀ e, l.job.toggled h l.parameters.file raw = .error e →
      ∀ m, (runIn h i t raw args m).FailsWith l.started.tree e := by
  have hplain : l.started.tree.here.Plain := startUp_here l.startUp_eq ▸ hhere
  constructor
  · intro f htoggled
    obtain ⟨hwritable, hfurther⟩ := hwrites f htoggled
    obtain ⟨s, -, hof⟩ := Outcome.bind_eq_ok_iff.mp htoggled
    obtain ⟨bytes, hencode⟩ := FileToggle.exists_encodeBy hof
      fun hchanged => (hwritable hchanged).imp fun _ => And.left
    refine ⟨bytes, hencode, ?_⟩
    have hchanged := FileToggle.changed_iff hof hencode hfurther
    obtain ⟨records, after, hsame, hafter, hprocess⟩ :=
      hsingle.process_of_ok hplain hread htoggled hencode hwritable
    have hend (m : Mode) := hsingle.runIn_of_ok raw (hargs m) (hprocess m) rfl
    refine ⟨?_, ?_, ?_, ?_, ?_, ⟨?_, ?_⟩, fun m hm => ?_, fun m hm => ?_, fun m => ?_⟩
    · simp [hend]
    · simp [hend]
    · simp [hend, hafter]
    · rw [hend]
      by_cases heq : bytes = raw <;> simp [hchanged, heq]
    · rw [hend, hend, hsame]
      by_cases heq : bytes = raw <;> simp [hchanged, heq]
    · simp [hend]
    · simp [hend]
    · simp [hend, hm]
    · simp [hend, hm]
    · rw [hend]
  · intro e htoggled m
    obtain ⟨records, hprocess⟩ := hsingle.process_of_error hread htoggled m
    obtain ⟨told, hend⟩ := hsingle.runIn_of_error (hargs m) hprocess rfl
    rw [hend]
    exact ⟨rfl, rfl, rfl, rfl, fun hdiagnostic => ⟨told, by simp [hdiagnostic]⟩⟩

end CommandLine

end Bytes

namespace CommandLine

section Plain

attribute [local instance] Charsets.none Packages.plain

/-- The file in Latin-1, with a group that is to be disabled. -/
def latinRaw : Bytes :=
  Utf8.encode "# smc:flag a\nx".toList ++ 0xe9 :: Utf8.encode "\n# smc:end\n".toList

/-- The bytes of the new text of the file in Latin-1, in which the line of the group is
commented and the rest stays. -/
def latinDone : Bytes :=
  Utf8.encode "# smc:flag a\n# x".toList ++ 0xe9 :: Utf8.encode "\n# smc:end\n".toList

def disablingLatin (m : Mode) : Invocation :=
  ⟨(words ++ ["-d", "a", "-c", "#"]).map (·.toList), ⟨[("HOME".toList, ['/', 'h'])], fun _ => none⟩,
    []⟩
where
  words : List String :=
    match m with
    | .inPlace => ["a.x"]
    | .toStdout => ["a.x", "--stdout"]
    | .check => ["a.x", "--check"]
    | .filter => ["-"]

theorem modes_agree_latin : latinPair.here.Plain ∧
    ∃ l : Launch openHost (disablingLatin .inPlace) latinPair, l.Single ∧
      (∀ m, Packages.parameters openHost (disablingLatin .inPlace).environment latinPair
        (disablingLatin m).arguments = .ok (l.parameters.inMode m)) ∧
      l.started.tree.read openHost.refuses l.parameters.file = .ok latinRaw ∧
      l.Agree latinRaw latinDone (runIn openHost (disablingLatin .inPlace) latinPair latinRaw
        fun m => (disablingLatin m).arguments) := by
  have hhere : latinPair.here.Plain := by decide
  obtain ⟨l, -, hsingle, hfile, hnow, hentries, hpasses, hasked⟩ :
      ∃ l ∈ launch? openHost (disablingLatin .inPlace) latinPair, l.Single ∧
        l.parameters.file = "a.x".toList ∧ l.started.tree.here = latinPair.here ∧
        l.started.tree.entries = latinPair.entries ∧
        Outcome.passes (l.job.toggled openHost l.parameters.file latinRaw) (fun f =>
          (Codec.encodeBy f.encoding f.done.text).toOption = some latinDone) = true ∧
        ∀ m ∈ [Mode.inPlace, .toStdout, .check, .filter],
          Outcome.passes (Packages.parameters openHost (disablingLatin .inPlace).environment
            latinPair (disablingLatin m).arguments) (· = l.parameters.inMode m) = true := by
    decide +kernel
  have hargs (m : Mode) : Packages.parameters openHost (disablingLatin .inPlace).environment
      latinPair (disablingLatin m).arguments = .ok (l.parameters.inMode m) := by
    obtain ⟨p, hparameters, hsame⟩ := Outcome.exists_of_passes (hasked m (by cases m <;> simp))
    obtain rfl := of_decide_eq_true hsame
    exact hparameters
  have htree : l.started.tree = latinPair := by
    cases htree : l.started.tree
    rw [htree] at hnow hentries
    simp only at hnow hentries
    rw [hnow, hentries]
  have hread : l.started.tree.read openHost.refuses l.parameters.file = .ok latinRaw := by
    rw [htree, hfile]
    rfl
  have hreal : l.started.tree.realPath l.parameters.file = [['w'], "a.x".toList] := by
    rw [htree, hfile]
    rfl
  obtain ⟨f, hf, hbytes⟩ := Outcome.exists_of_passes hpasses
  have hencode : Codec.encodeBy f.encoding f.done.text = .ok latinDone := by
    have hsome := of_decide_eq_true hbytes
    cases hcase : Codec.encodeBy f.encoding f.done.text with
    | error fault => simp [hcase, Except.toOption] at hsome
    | ok bytes => simpa [hcase, Except.toOption] using hsome
  obtain ⟨hagree, -⟩ := modes_agree l hsingle hhere hargs hread fun g hg => by
    obtain rfl : f = g := Except.ok.inj (hf.symm.trans hg)
    refine ⟨fun _ => ⟨_, hencode, ?_⟩, fun c hc => by cases hc⟩
    rw [hreal, htree]
    exact ⟨⟨rfl, _, rfl⟩, rfl, rfl, rfl, rfl⟩
  obtain ⟨bytes, hsame, hmodes⟩ := hagree f hf
  obtain rfl : bytes = latinDone := Except.ok.inj (hsame.symm.trans hencode)
  exact ⟨hhere, l, hsingle, hargs, hread, hmodes⟩

end Plain

end CommandLine

end CommentToggle
