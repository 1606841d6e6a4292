import CommentToggle.CommandLine.Program
import CommentToggle.Proofs.CommandLine.Job

/-!
Working on file after file. As long as no two paths lead to the same place, each file is
worked on as it would be in the tree at the start, and what one leaves behind stays as it
is while the others are worked on. An error that is no diagnostic ends the work; the files
after it are as they were.
-/
namespace CommentToggle.CommandLine

namespace FileReport

/-- Whether an error that is no diagnostic came up. -/
def aborts (r : FileReport) : Bool :=
  match r.outcome with
  | .ok _ => false
  | .error e => !e.isDiagnostic

def fault? (r : FileReport) : Option Error :=
  match r.outcome with
  | .ok _ => none
  | .error e => some e

def changes (r : FileReport) : Bool :=
  match r.outcome with
  | .ok changed => changed
  | .error _ => false

theorem isSome_fault?_of_aborts {r : FileReport} (h : r.aborts = true) :
    r.fault?.isSome = true := by
  unfold aborts at h
  unfold fault?
  cases houtcome : r.outcome with
  | ok changed => simp [houtcome] at h
  | error e => rfl

/-- The records on a file, with the one on giving it up. -/
def told [Packages] (r : FileReport) (j : Job) (h : Host) (path : Text) : List Record :=
  r.records ++ (r.fault?.map (j.givingUp h path)).toList

end FileReport

/-- Nothing but what files hold has changed, and the paths find what they found. -/
structure Intact (start now : FileTree) (paths : List Text) : Prop where
  alike : FileTree.Alike start now
  find : ∀ x ∈ paths, now.find x = start.find x

theorem Intact.refl (t : FileTree) (paths : List Text) : Intact t t paths :=
  ⟨.refl t, fun _ _ => rfl⟩

section Work

variable [Packages]

theorem Progress.add_of_calm (p : Progress) (j : Job) (host : Host) (path : Text) {r : FileReport}
    (h : r.aborts = false) : p.add j host path r =
      ⟨r.tree, p.printed ++ r.printed, p.records ++ r.told j host path,
        p.faults ++ (r.fault?.map (path, ·)).toList,
        p.changed ++ if r.changes then [path] else [], p.failure⟩ := by
  unfold FileReport.aborts at h
  unfold add FileReport.told FileReport.fault? FileReport.changes
  cases houtcome : r.outcome with
  | ok changed => cases changed <;> simp
  | error e =>
    have hdiagnostic : e.isDiagnostic = true := by simpa [houtcome] using h
    simp [hdiagnostic]

theorem Progress.add_of_aborts (p : Progress) (j : Job) (host : Host) (path : Text) {r : FileReport}
    (h : r.aborts = true) : p.add j host path r =
      ⟨r.tree, p.printed ++ r.printed, p.records ++ r.records, p.faults, p.changed, r.fault?⟩ := by
  unfold FileReport.aborts at h
  unfold add FileReport.fault?
  cases houtcome : r.outcome with
  | ok changed => simp [houtcome] at h
  | error e =>
    have hdiagnostic : e.isDiagnostic = false := by simpa [houtcome] using h
    simp [hdiagnostic]

variable [Charsets] {j : Job} {host : Host} {stdin : Bytes} {start now : FileTree}

/-- One file: it comes out as it would at the start, and all others are as they were. -/
theorem Intact.step {x : Text} {rest : List Text} (h : Intact start now (x :: rest))
    (hhere : start.here.Plain) (j : Job) (host : Host) (stdin : Bytes) (hx : x ≠ ['-'])
    (hdistinct : ∀ y ∈ rest, start.Distinct x y) : ∃ after,
      j.process host stdin now x = { j.process host stdin start x with tree := after } ∧
      Intact start after rest ∧ after.find x = (j.process host stdin start x).tree.find x ∧
      ∀ y, start.Distinct x y → after.find y = now.find y := by
  have hfind := h.find x (by simp)
  obtain ⟨e, hedits, htree, hprocess⟩ := j.process_congr h.alike hhere host stdin hx hfind
  have hedits' := hedits.of_find hfind
  have hothers : ∀ y, start.Distinct x y → (now.edit e).find y = now.find y :=
    fun y hne => hedits'.find (hne.of_alike h.alike)
  refine ⟨now.edit e, hprocess, ⟨h.alike.trans hedits'.alike, fun y hy => ?_⟩, ?_, hothers⟩
  · exact (hothers y (hdistinct y hy)).trans (h.find y (List.mem_cons_of_mem x hy))
  · rw [htree]
    exact FileTree.find_edit_congr hedits hfind

theorem work_append {p : Progress} {front : List Text} (rest : List Text)
    (h : (work j host stdin p front).failure = none) :
    work j host stdin p (front ++ rest) = work j host stdin (work j host stdin p front) rest := by
  induction front generalizing p with
  | nil => rfl
  | cons x front ih =>
    rw [List.cons_append, work, work]
    rw [work] at h
    by_cases hfailed : (p.add j host x (j.process host stdin p.tree x)).failure.isSome = true
    · simp only [hfailed, if_true] at h
      simp [h] at hfailed
    · simp only [hfailed, Bool.false_eq_true, if_false] at h ⊢
      exact ih h

/-- What the paths leave when they are worked on one after the other from the start. -/
structure Left (j : Job) (host : Host) (stdin : Bytes) (start before after : FileTree)
    (paths : List Text) : Prop where
  alike : FileTree.Alike start after
  own : ∀ x ∈ paths, after.find x = (j.process host stdin start x).tree.find x
  others : ∀ y, (∀ x ∈ paths, start.Distinct x y) → after.find y = before.find y

/-- All files are worked on when none of them aborts the work. -/
theorem work_calm (hhere : start.here.Plain) {paths : List Text} {p : Progress}
    (h : Intact start p.tree paths) (hdash : ['-'] ∉ paths)
    (hdistinct : paths.Pairwise start.Distinct)
    (hcalm : ∀ x ∈ paths, (j.process host stdin start x).aborts = false)
    (hgoing : p.failure = none) : ∃ after, Left j host stdin start p.tree after paths ∧
      work j host stdin p paths =
        ⟨after, p.printed ++ paths.flatMap fun x => (j.process host stdin start x).printed,
          p.records ++ paths.flatMap fun x => (j.process host stdin start x).told j host x,
          p.faults ++ paths.filterMap fun x => (j.process host stdin start x).fault?.map (x, ·),
          p.changed ++ paths.filter fun x => (j.process host stdin start x).changes, none⟩ := by
  induction paths generalizing p with
  | nil =>
    refine ⟨p.tree, ⟨h.alike, by simp, fun _ _ => rfl⟩, ?_⟩
    rw [work, ← hgoing]
    simp
  | cons x rest ih =>
    obtain ⟨hfirst, hrest⟩ := List.pairwise_cons.mp hdistinct
    have hcalmx := hcalm x (by simp)
    obtain ⟨now, hprocess, hintact, hx, hothers⟩ :=
      h.step hhere j host stdin (fun heq => hdash (by simp [heq])) hfirst
    have hstep := p.add_of_calm j host x
      (r := { j.process host stdin start x with tree := now }) hcalmx
    obtain ⟨after, hleft, hwork⟩ := ih
      (p := p.add j host x { j.process host stdin start x with tree := now })
      (by rw [hstep]; exact hintact) (fun hmem => hdash (List.mem_cons_of_mem x hmem)) hrest
      (fun y hy => hcalm y (List.mem_cons_of_mem x hy)) (by rw [hstep]; exact hgoing)
    rw [hstep] at hwork hleft
    refine ⟨after, ⟨hleft.alike, fun y hy => ?_, fun y hne => ?_⟩, ?_⟩
    · rcases List.mem_cons.mp hy with rfl | hy
      -- The first file is none of those worked on after it.
      · exact (hleft.others y fun z hz => (hfirst z hz).symm).trans hx
      · exact hleft.own y hy
    · exact (hleft.others y fun z hz => hne z (List.mem_cons_of_mem x hz)).trans
        (hothers y (hne x (by simp)))
    · rw [work, hprocess, hstep]
      simp only [hgoing, Option.isSome_none, Bool.false_eq_true, if_false]
      rw [hgoing] at hwork
      rw [hwork]
      have htold : FileReport.told { j.process host stdin start x with tree := now } j host x =
          (j.process host stdin start x).told j host x := rfl
      have hfault : FileReport.fault? { j.process host stdin start x with tree := now } =
          (j.process host stdin start x).fault? := rfl
      have hchanges : FileReport.changes { j.process host stdin start x with tree := now } =
          (j.process host stdin start x).changes := rfl
      simp only [htold, hfault, hchanges, List.flatMap_cons, List.append_assoc]
      cases hf : (j.process host stdin start x).fault? <;>
        cases hc : (j.process host stdin start x).changes <;> simp [hf, hc]

/-- The work ends with the first file that aborts it. -/
theorem work_aborted (hhere : start.here.Plain) {front rest : List Text} {x : Text} {p : Progress}
    (h : Intact start p.tree (front ++ x :: rest)) (hdash : ['-'] ∉ front ++ x :: rest)
    (hdistinct : (front ++ x :: rest).Pairwise start.Distinct)
    (hcalm : ∀ y ∈ front, (j.process host stdin start y).aborts = false)
    (hx : (j.process host stdin start x).aborts = true) (hgoing : p.failure = none) :
    ∃ after, Left j host stdin start p.tree after (front ++ [x]) ∧
      work j host stdin p (front ++ x :: rest) =
        ⟨after, p.printed ++ (front ++ [x]).flatMap fun y => (j.process host stdin start y).printed,
          p.records ++ (front.flatMap (fun y => (j.process host stdin start y).told j host y) ++
            (j.process host stdin start x).records),
          p.faults ++ front.filterMap fun y => (j.process host stdin start y).fault?.map (y, ·),
          p.changed ++ front.filter fun y => (j.process host stdin start y).changes,
          (j.process host stdin start x).fault?⟩ := by
  obtain ⟨hfront, hrest, hcross⟩ := List.pairwise_append.mp hdistinct
  obtain ⟨hafter, -⟩ := List.pairwise_cons.mp hrest
  obtain ⟨between, hleft, hwork⟩ := work_calm hhere
    (⟨h.alike, fun y hy => h.find y (List.mem_append_left _ hy)⟩ : Intact start p.tree front)
    (fun hmem => hdash (List.mem_append_left _ hmem)) hfront hcalm hgoing
  have hintact : Intact start between (x :: rest) := by
    refine ⟨hleft.alike, fun y hy => ?_⟩
    rw [hleft.others y fun z hz => hcross z hz y hy]
    exact h.find y (List.mem_append_right _ hy)
  obtain ⟨after, hprocess, hintact', hfound, hothers⟩ :=
    hintact.step hhere j host stdin (fun heq => hdash (by simp [heq])) hafter
  refine ⟨after, ⟨hintact'.alike, fun y hy => ?_, fun y hne => ?_⟩, ?_⟩
  · rcases List.mem_append.mp hy with hy | hy
    · exact (hothers y (hcross y hy x (by simp)).symm).trans (hleft.own y hy)
    · rw [List.mem_singleton.mp hy]
      exact hfound
  · exact (hothers y (hne x (by simp))).trans
      (hleft.others y fun z hz => hne z (List.mem_append_left _ hz))
  · have hstop := Progress.add_of_aborts (work j host stdin p front) j host x
      (r := { j.process host stdin start x with tree := after }) hx
    have hfault : FileReport.fault? { j.process host stdin start x with tree := after } =
        (j.process host stdin start x).fault? := rfl
    rw [work_append (x :: rest) (by rw [hwork]), work]
    have hnow : (work j host stdin p front).tree = between := by rw [hwork]
    rw [hnow, hprocess, hstop]
    simp only [hfault, FileReport.isSome_fault?_of_aborts hx, if_true]
    rw [hwork]
    simp

end Work

end CommentToggle.CommandLine
