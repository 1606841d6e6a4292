import CommentToggle.Packages.Plain
import CommentToggle.Proofs.CommandLine.Work
import CommentToggle.Proofs.Log.Setup

/-!
A run over several files against the runs on each of them alone. As long as no file comes to
an error that is no diagnostic, all files are left as they are left alone, and every
diagnostic is told. The first such error ends the run: the files after it stay as they were.
-/
namespace CommentToggle.CommandLine

/-- What is asked for, of the given path alone. -/
def Parameters.only (p : Parameters) (path : Text) : Parameters :=
  { p with file := path, moreFiles := [] }

theorem conclude_tree (j : Job) (early : String) (threshold : Nat) (p : Progress) :
    (conclude j early threshold p).tree = p.tree := by
  unfold conclude
  cases p.failure with
  | some e => rfl
  | none =>
    simp only
    split
    · rfl
    · split <;> rfl

/-- The end of a run that an error ended early. -/
theorem conclude_of_ended (j : Job) (early : String) (threshold : Nat) {p : Progress}
    (h : p.failure.isSome = true) : conclude j early threshold p =
      ⟨1, p.printed, early ++ consoleLines threshold p.records, p.tree, p.failure⟩ := by
  obtain ⟨e, he⟩ := Option.isSome_iff_exists.mp h
  unfold conclude
  rw [he]

/-- The end of a run that nothing ended early. -/
theorem conclude_of_going (j : Job) (early : String) (threshold : Nat) {p : Progress}
    (h : p.failure = none) : conclude j early threshold p =
      ⟨if p.faults ≠ [] ∨ j.check = true ∧ p.changed ≠ [] then 1 else 0, p.printed,
        early ++ consoleLines threshold p.records ++
          String.join (p.faults.map fun (x, e) => faultLine j.several x e) ++
          (if p.faults = [] ∧ j.check = true then String.join (p.changed.map wouldChange) else ""),
        p.tree, none⟩ := by
  unfold conclude
  rw [h]
  cases hfaults : p.faults with
  | cons fault faults => simp
  | nil =>
    cases hcheck : j.check with
    | false => simp
    | true =>
      cases hchanged : p.changed with
      | nil => simp
      | cons x xs => simp

section Run

variable [Packages]

theorem startUp_here {e : Environment} {t : FileTree} {p : Parameters} {s : Started}
    (h : startUp e t p = .ok s) : s.tree.here = t.here := by
  unfold startUp at h
  grind [Log.setup_here]

theorem Progress.add_tree (p : Progress) (j : Job) (h : Host) (path : Text) (r : FileReport) :
    (p.add j h path r).tree = r.tree := by
  unfold add
  cases r.outcome with
  | ok changed => cases changed <;> rfl
  | error e =>
    simp only
    split <;> rfl

/-- A run that gets as far as its files. -/
structure Launch (h : Host) (i : Invocation) (t : FileTree) where
  parameters : Parameters
  started : Started
  read_eq : Packages.parameters h i.environment t i.arguments = .ok parameters
  startUp_eq : startUp i.environment t parameters = .ok started

def launch? (h : Host) (i : Invocation) (t : FileTree) : Option (Launch h i t) :=
  match hread : Packages.parameters h i.environment t i.arguments with
  | .error _ => none
  | .ok p =>
    match hstart : startUp i.environment t p with
    | .error _ => none
    | .ok s => some ⟨p, s, hread, hstart⟩

variable [Charsets]

theorem work_one (j : Job) (h : Host) (stdin : Bytes) (t : FileTree) (path : Text) :
    work j h stdin (.start t) [path] =
      (Progress.start t).add j h path (j.process h stdin t path) := by
  unfold work work
  simp only [ite_self]
  rfl

theorem work_one_tree (j : Job) (h : Host) (stdin : Bytes) (t : FileTree) (path : Text) :
    (work j h stdin (.start t) [path]).tree = (j.process h stdin t path).tree := by
  rw [work_one]
  exact Progress.add_tree ..

namespace Launch

variable {h : Host} {i : Invocation} {t : FileTree}

def paths (l : Launch h i t) : List Text := l.parameters.paths

def job (l : Launch h i t) : Job := l.parameters.job l.started.config

/-- What is done with a file in the tree that the run starts with. -/
def report (l : Launch h i t) (path : Text) : FileReport :=
  l.job.process h i.stdin l.started.tree path

/-- Several files, none of them standard input, no two of them one place and none of them a
log file, which every record makes longer. -/
structure Separate (l : Launch h i t) : Prop where
  several : 1 < l.paths.length
  named : ['-'] ∉ l.paths
  distinct : l.paths.Pairwise l.started.tree.Distinct
  unlogged : ∀ f ∈ l.started.log.fileHandlers, ∀ x ∈ l.paths,
    l.started.tree.Distinct x (Path.text f.path)

instance (l : Launch h i t) : Decidable l.Separate :=
  decidable_of_iff (1 < l.paths.length ∧ ['-'] ∉ l.paths ∧
      l.paths.Pairwise l.started.tree.Distinct ∧
      ∀ f ∈ l.started.log.fileHandlers, ∀ x ∈ l.paths,
        l.started.tree.Distinct x (Path.text f.path))
    ⟨fun ⟨hseveral, hnamed, hdistinct, hunlogged⟩ => ⟨hseveral, hnamed, hdistinct, hunlogged⟩,
      fun h => ⟨h.several, h.named, h.distinct, h.unlogged⟩⟩

theorem run_eq (l : Launch h i t) : run h i t = runFiles h i.stdin l.parameters l.started := by
  unfold run
  rw [l.read_eq]
  simp only [l.startUp_eq]

/-- The run on one of the paths alone. -/
def alone (l : Launch h i t) (x : Text) {args : List Text}
    (hargs : Packages.parameters h i.environment t args = .ok (l.parameters.only x)) :
    Launch h { i with arguments := args } t where
  parameters := l.parameters.only x
  started := l.started
  read_eq := hargs
  -- What a run starts with does not depend on the files it is asked for.
  startUp_eq := l.startUp_eq

theorem run_alone_tree (l : Launch h i t) (x : Text) {args : List Text}
    (hargs : Packages.parameters h i.environment t args = .ok (l.parameters.only x)) :
    (run h { i with arguments := args } t).tree = (l.report x).tree := by
  have hone : (l.parameters.only x).several = false := rfl
  have hjob : (l.parameters.only x).job l.started.config = { l.job with several := false } := rfl
  rw [(l.alone x hargs).run_eq]
  unfold runFiles alone
  simp only [hone, Bool.false_and, Bool.false_eq_true, if_false, hjob]
  rw [conclude_tree]
  -- The job of the whole command shows headings, this one does not.
  obtain ⟨printed, hprocess⟩ := l.job.process_several false h i.stdin l.started.tree x
  exact (work_one_tree ..).trans (congrArg FileReport.tree hprocess :)

/-- What the path finds is what the same command on this path alone leaves there. -/
def AsAlone (l : Launch h i t) (x : Text) : Prop :=
  ∀ args, Packages.parameters h i.environment t args = .ok (l.parameters.only x) →
    (run h i t).tree.find x = (run h { i with arguments := args } t).tree.find x

/-- The diagnostics, each with its path. -/
def faults (l : Launch h i t) : List (Text × Error) :=
  l.paths.filterMap fun x => (l.report x).fault?.map (x, ·)

/-- The paths of the files that change or would change. -/
def changed (l : Launch h i t) : List Text := l.paths.filter fun x => (l.report x).changes

section Several

variable {l : Launch h i t}

theorem Separate.run_eq (hsep : l.Separate) :
    run h i t = conclude l.job l.started.told l.started.log.console
      (work l.job h i.stdin (.start l.started.tree) l.paths) := by
  have hnamed : l.parameters.paths.contains ['-'] = false := by
    simpa [Launch.paths] using hsep.named
  rw [l.run_eq]
  unfold runFiles
  rw [hnamed, Bool.and_false, if_neg Bool.false_ne_true]
  rfl

theorem asAlone_of_find {x : Text}
    (hfind : (run h i t).tree.find x = (l.report x).tree.find x) : l.AsAlone x := by
  intro args hargs
  rw [l.run_alone_tree x hargs]
  exact hfind

end Several

end Launch

/-- A run over several files is as good as runs on each of them, unless an error that is no
diagnostic ends it; then the files up to there are left as alone, those after it as they
were, and no diagnostic is told. -/
theorem run_independent {h : Host} {i : Invocation} {t : FileTree} (l : Launch h i t)
    (hsep : l.Separate) (hhere : t.here.Plain) :
    ((∀ x ∈ l.paths, (l.report x).aborts = false) →
      (∀ x ∈ l.paths, l.AsAlone x) ∧
      (run h i t).stderr = l.started.told ++
        consoleLines l.started.log.console (l.paths.flatMap fun x => (l.report x).told l.job h x) ++
        String.join (l.faults.map fun (x, e) => faultLine true x e) ++
        (if l.faults = [] ∧ l.parameters.check = true then
          String.join (l.changed.map wouldChange) else "") ∧
      (run h i t).exit =
        (if l.faults ≠ [] ∨ l.parameters.check = true ∧ l.changed ≠ [] then 1 else 0) ∧
      (run h i t).failure = none) ∧
    ∀ front x rest, l.paths = front ++ x :: rest →
      (∀ y ∈ front, (l.report y).aborts = false) → (l.report x).aborts = true →
      (∀ y ∈ front ++ [x], l.AsAlone y) ∧
      (∀ y ∈ rest, (run h i t).tree.find y = l.started.tree.find y) ∧
      (run h i t).stderr = l.started.told ++ consoleLines l.started.log.console
        (front.flatMap (fun y => (l.report y).told l.job h y) ++ (l.report x).records) ∧
      (run h i t).exit = 1 ∧ (run h i t).failure = (l.report x).fault? := by
  have hplain : l.started.tree.here.Plain := startUp_here l.startUp_eq ▸ hhere
  have hseveral : l.job.several = true := decide_eq_true hsep.several
  constructor
  · intro hcalm
    obtain ⟨after, hleft, hwork⟩ := work_calm (p := .start l.started.tree) hplain (.refl ..)
      hsep.named hsep.distinct hcalm rfl
    have hrun := hsep.run_eq
    rw [hwork, conclude_of_going _ _ _ rfl, hseveral] at hrun
    refine ⟨fun x hx => Launch.asAlone_of_find ?_, ?_, ?_, ?_⟩
    · rw [hrun]
      exact hleft.own x hx
    · rw [hrun]
      rfl
    · rw [hrun]
      rfl
    · rw [hrun]
  · intro front x rest hpaths hcalm hx
    have hnamed := hsep.named
    have hdistinct := hsep.distinct
    rw [hpaths] at hnamed hdistinct
    obtain ⟨after, hleft, hwork⟩ := work_aborted (p := .start l.started.tree) hplain (.refl ..)
      hnamed hdistinct hcalm hx rfl
    have hcross : ∀ z ∈ front ++ [x], ∀ y ∈ rest, l.started.tree.Distinct z y := by
      rw [List.append_cons] at hdistinct
      exact (List.pairwise_append.mp hdistinct).2.2
    have hrun := hsep.run_eq
    rw [hpaths, hwork, conclude_of_ended _ _ _ (FileReport.isSome_fault?_of_aborts hx)] at hrun
    have htree : (run h i t).tree = after := by rw [hrun]
    refine ⟨fun y hy => Launch.asAlone_of_find ?_, fun y hy => ?_, ?_, ?_, ?_⟩
    · rw [htree]
      exact hleft.own y hy
    · rw [htree]
      exact hleft.others y fun z hz => hcross z hz y hy
    · rw [hrun]
      rfl
    · rw [hrun]
    · rw [hrun]
      rfl

end Run

section Plain

attribute [local instance] Charsets.none Packages.plain

/-- A file in Latin-1, one in UTF-8, and a configuration with a leader that is not in
Latin-1. -/
def latinPair : FileTree :=
  ⟨[['w']], [([['w']], .folder),
    ([['w'], ['a', '.', 'x']],
      .file (Utf8.encode "# smc:flag a\nx".toList ++
        0xe9 :: Utf8.encode "\n# smc:end\n".toList) 0o644),
    ([['w'], ['b', '.', 'x']], .file (Utf8.encode "# smc:flag a\nx\n# smc:end\n".toList) 0o644),
    ([['w'], ['c']], .file (Utf8.encode
      "[comments.x]\nline_prefix = ['★', '#']\n".toList) 0o644)]⟩

/-- Group a is disabled in the files. -/
def disablingIn (files : List String) : Invocation :=
  ⟨(files ++ ["-d", "a", "-s", "x", "--config", "c"]).map (·.toList),
    ⟨[("HOME".toList, ['/', 'h'])], fun _ => none⟩, []⟩

/-- A machine that refuses nothing. -/
def openHost : Host := FileTree.plainHost fun _ => none

/-- A file that is missing leaves the other one to be changed as alone; one that cannot hold
the new leader, when it comes first, keeps the other one from being changed. -/
theorem run_independent_latin : latinPair.here.Plain ∧
    (∃ l : Launch openHost (disablingIn ["m.x", "-f", "b.x"]) latinPair, l.Separate ∧
      (∀ x ∈ l.paths, (l.report x).aborts = false) ∧ l.changed = ["b.x".toList] ∧
      (run openHost (disablingIn ["m.x", "-f", "b.x"]) latinPair).tree.find "b.x".toList =
        (run openHost (disablingIn ["b.x"]) latinPair).tree.find "b.x".toList ∧
      (run openHost (disablingIn ["m.x", "-f", "b.x"]) latinPair).exit = 1) ∧
    ∃ l : Launch openHost (disablingIn ["a.x", "-f", "b.x"]) latinPair, l.Separate ∧
      (l.report "a.x".toList).aborts = true ∧ (l.report "b.x".toList).changes = true ∧
      (run openHost (disablingIn ["a.x", "-f", "b.x"]) latinPair).tree.find "b.x".toList =
        l.started.tree.find "b.x".toList ∧
      (run openHost (disablingIn ["a.x", "-f", "b.x"]) latinPair).failure.isSome := by
  have hhere : latinPair.here.Plain := by decide
  refine ⟨hhere, ?_, ?_⟩
  · obtain ⟨l, -, hsep, hcalm, hfaults, hchanged, hpasses⟩ :
      ∃ l ∈ launch? openHost (disablingIn ["m.x", "-f", "b.x"]) latinPair,
        l.Separate ∧ (∀ x ∈ l.paths, (l.report x).aborts = false) ∧
        l.faults ≠ [] ∧ l.changed = ["b.x".toList] ∧
        Outcome.passes (Packages.parameters openHost (disablingIn ["b.x"]).environment latinPair
          (disablingIn ["b.x"]).arguments) (· = l.parameters.only "b.x".toList) = true := by
      decide +kernel
    obtain ⟨p, hparameters, hsame⟩ := Outcome.exists_of_passes hpasses
    obtain rfl := of_decide_eq_true hsame
    obtain ⟨halone, -, hexit, -⟩ := (run_independent l hsep hhere).1 hcalm
    have hmem : "b.x".toList ∈ l.paths := by
      have hin : "b.x".toList ∈ l.changed := by simp [hchanged]
      exact (List.mem_filter.mp hin).1
    exact ⟨l, hsep, hcalm, hchanged, halone _ hmem _ hparameters,
      hexit.trans (if_pos (.inl hfaults))⟩
  · obtain ⟨l, -, hsep, hpaths, haborts, hchanges⟩ :
      ∃ l ∈ launch? openHost (disablingIn ["a.x", "-f", "b.x"]) latinPair,
        l.Separate ∧ l.paths = ["a.x".toList, "b.x".toList] ∧
        (l.report "a.x".toList).aborts = true ∧ (l.report "b.x".toList).changes = true := by
      decide +kernel
    obtain ⟨-, hrest, -, -, hfailure⟩ :=
      (run_independent l hsep hhere).2 [] _ _ hpaths (by simp) haborts
    rw [hfailure]
    exact ⟨l, hsep, haborts, hchanges, hrest _ (by simp),
      FileReport.isSome_fault?_of_aborts haborts⟩

end Plain

end CommentToggle.CommandLine
