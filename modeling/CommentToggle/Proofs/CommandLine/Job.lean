import CommentToggle.CommandLine.Job
import CommentToggle.Proofs.Files.Edits

/-!
Working on one file. What is printed and recorded and how it ends depends on the files,
folders and links that there are and on the content of that file; at most that file is
edited. A heading, shown when there are several files, changes nothing else.
-/
namespace CommentToggle.CommandLine.Job

variable [Charsets] [Packages] {t u : FileTree} {path : Text}

theorem onFile_congr (j : Job) (h : FileTree.Alike t u) (hhere : t.here.Plain) (host : Host)
    (hsame : u.find path = t.find path) (s : Style) : ∃ e done, t.Edits path e ∧
      j.onFile host t path s = (t.edit e, done) ∧ j.onFile host u path s = (u.edit e, done) := by
  have hread : u.read host.refuses path = t.read host.refuses path := by
    unfold FileTree.read FileTree.readFile
    rw [hsame]
  unfold onFile
  rw [hread]
  split
  · cases t.read host.refuses path with
    | error f => exact ⟨none, _, .none t path, rfl, rfl⟩
    | ok raw => exact ⟨none, _, .none t path, rfl, rfl⟩
  · obtain ⟨e, run, hedits, hdone, hdone'⟩ :=
      h.toggle hhere host hsame s j.request (!(j.toStdout || j.check))
    rw [hdone, hdone']
    cases hrun : run.outcome with
    | error fault =>
      simp only [hrun]
      exact ⟨e, _, hedits, rfl, rfl⟩
    | ok f =>
      simp only [hrun]
      split
      · exact ⟨e, _, hedits, rfl, rfl⟩
      · exact ⟨e, _, hedits, rfl, rfl⟩

/-- The same file is worked on alike in both trees. -/
theorem process_congr (j : Job) (h : FileTree.Alike t u) (hhere : t.here.Plain) (host : Host)
    (stdin : Bytes) (hpath : path ≠ ['-']) (hsame : u.find path = t.find path) :
    ∃ e, t.Edits path e ∧ (j.process host stdin t path).tree = t.edit e ∧
      j.process host stdin u path = { j.process host stdin t path with tree := u.edit e } := by
  unfold process
  cases hstyle : (j.styleOf host path).outcome with
  | error fault =>
    simp only [hstyle]
    exact ⟨none, .none t path, rfl, rfl⟩
  | ok s =>
    obtain ⟨e, done, hedits, hdone, hdone'⟩ := j.onFile_congr h hhere host hsame s
    simp only [hstyle, if_neg hpath, hdone, hdone']
    exact ⟨e, hedits, rfl, rfl⟩

theorem listed_heading (heading heading' : Bytes) (host : Host) (source : Text) (raw : Bytes)
    (s : Style) : (listed heading' host source raw s).2 = (listed heading host source raw s).2 := by
  unfold listed
  simp only
  split <;> rfl

theorem onFile_several (j : Job) (several : Bool) (host : Host) (t : FileTree) (path : Text)
    (s : Style) : ∃ printed, ({ j with several } : Job).onFile host t path s =
      ((j.onFile host t path s).1, printed, (j.onFile host t path s).2.2) := by
  unfold onFile
  cases hlist : j.list with
  | false => exact ⟨_, rfl⟩
  | true =>
    simp only [if_true]
    cases t.read host.refuses path with
    | error f => exact ⟨_, rfl⟩
    | ok raw =>
      have hlisted := listed_heading (j.heading path) (({ j with several } : Job).heading path) host
        path raw s
      exact ⟨_, Prod.ext rfl (Prod.ext rfl hlisted)⟩

/-- Whether the file is one of several shows only in what is printed. -/
theorem process_several (j : Job) (several : Bool) (host : Host) (stdin : Bytes) (t : FileTree)
    (path : Text) : ∃ printed, ({ j with several } : Job).process host stdin t path =
      { j.process host stdin t path with printed } := by
  have hstyle : ({ j with several } : Job).styleOf host path = j.styleOf host path := rfl
  unfold process
  rw [hstyle]
  cases hs : (j.styleOf host path).outcome with
  | error fault =>
    simp only [hs]
    exact ⟨_, rfl⟩
  | ok s =>
    simp only [hs]
    obtain ⟨printed, hfile⟩ := j.onFile_several several host t path s
    by_cases hpath : path = ['-']
    · simp only [if_pos hpath]
      exact ⟨_, rfl⟩
    · simp only [if_neg hpath, hfile]
      exact ⟨printed, rfl⟩

end CommentToggle.CommandLine.Job
