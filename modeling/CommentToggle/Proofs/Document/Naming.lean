import CommentToggle.Proofs.Block.Stacks
import CommentToggle.Proofs.Directive.Ending

/-!
Reading a text on which ends are named. Behind every line the groups that the scan has
open are those of the open blocks, as long as the blocks can be formed; an end without a
name therefore closes the innermost of them. When names are written on such ends the
blocks stay the same, or cannot be formed for the same reason.
-/
namespace CommentToggle

open Text

namespace Directive

variable {ls ms : List Line} {ds es : List Directive}

theorem listed_respelled (h : List.Forall₂ Respelled ds es) (line : Nat) :
    Document.listed es line = Document.listed ds line := by
  induction h with
  | nil => rfl
  | cons hfirst _ ih =>
    unfold Document.listed at ih ⊢
    rw [List.any_cons, List.any_cons, hfirst.line_eq, ih]

theorem outline_mark (h : List.Forall₂ Respelled ds es)
    (hlines : List.Forall₂ (Replaces ds) ls ms) :
    (mark es ms).map Block.outline = (mark ds ls).map Block.outline := by
  have hflagged {l m : Line} (hline : Replaces ds l m) :
      Block.outline (Document.flagged es m) = Block.outline (Document.flagged ds l) := by
    unfold Document.flagged
    rw [listed_respelled h]
    rcases hline with rfl | ⟨hindex, d, hd, hline⟩
    · rfl
    · have hlisted : Document.listed ds l.index = true :=
        List.any_eq_true.mpr ⟨d, hd, decide_eq_true hline⟩
      rw [hindex, if_pos hlisted, if_pos hlisted]
      simp [Block.outline, Line.isOwnText]
  change (ms.map (Document.flagged es)).map _ = (ls.map (Document.flagged ds)).map _
  rw [List.map_map, List.map_map, eq_comm, ← List.forall₂_eq_eq_eq, List.forall₂_map_left_iff,
    List.forall₂_map_right_iff]
  exact hlines.imp fun _ _ hline => (hflagged hline).symm

end Directive

namespace Document

/-- Both texts are refused for the same reason, or give the same blocks and group sets and
directives that are the same but for the terms of ends. -/
def ReadAlike (s : Style) (t t' : Text) : Prop :=
  (∃ f, read s t = .error f ∧ read s t' = .error f) ∨
    ∃ d d', read s t = .ok d ∧ read s t' = .ok d' ∧ d'.blocks = d.blocks ∧
      d'.groupSets = d.groupSets ∧ List.Forall₂ Directive.Respelled d.directives d'.directives

open Directive

variable {s : Style} {t t' : Text} {ds : List Directive}

theorem read_of_scan (hscan : scan s (Line.ofText t) = .ok ds) :
    read s t = (Block.resolve (mark ds (Line.ofText t)) ds).map fun bs =>
      ⟨s, mark ds (Line.ofText t), ds, bs, GroupSet.ofBlocks bs⟩ := by
  unfold read
  simp only [hscan, bind, Except.bind]
  cases Block.resolve (mark ds (Line.ofText t)) ds <;> rfl

theorem readAlike_of_spelled (hscan : scan s (Line.ofText t) = .ok ds)
    (h : Spelled s [] (Line.ofText t) (Line.ofText t')) : ReadAlike s t t' := by
  obtain ⟨es, hes, hrespelled, hlines⟩ := h.scanFrom (scan_eq_ok_iff.mp hscan)
  have hblocks : Block.resolve (mark es (Line.ofText t')) es =
      Block.resolve (mark ds (Line.ofText t)) ds :=
    Block.resolve_respelled (outline_mark hrespelled hlines) hrespelled
  unfold ReadAlike
  rw [read_of_scan hscan, read_of_scan (scan_eq_ok_iff.mpr hes), hblocks]
  cases Block.resolve (mark ds (Line.ofText t)) ds with
  | error f => exact Or.inl ⟨f, rfl, rfl⟩
  | ok bs => exact Or.inr ⟨_, _, rfl, rfl, rfl, rfl, hrespelled⟩

/-- The text with the innermost open group written on the chosen ends that name none. -/
def nameEnds (s : Style) (p : Nat → Bool) (t : Text) : Text :=
  ofLines ((Directive.nameEnds s p [] (Line.ofText t)).map Line.raw)

theorem aligned_ofText (t : Text) : ∀ l ∈ Line.ofText t, Aligned l l := by
  intro l hl
  obtain ⟨i, hi⟩ := List.mem_iff_getElem?.mp hl
  obtain ⟨r, hr, rfl⟩ := Line.getElem?_ofText hi
  exact ⟨i, r.body, r.body, r.terminator, rfl, rfl, unbroken_lines (List.mem_of_getElem? hr), id⟩

theorem ofText_of_aligned {ms : List Line} (h : List.Forall₂ Aligned (Line.ofText t) ms) :
    Line.ofText (ofLines (ms.map Line.raw)) = ms := by
  have hindex : (Line.ofText t).map Line.index = ms.map Line.index := by
    rw [← List.forall₂_eq_eq_eq, List.forall₂_map_left_iff, List.forall₂_map_right_iff]
    refine h.imp fun l m hline => ?_
    obtain ⟨i, body, body', e, rfl, rfl, -⟩ := hline
    rfl
  have hindexed : Indexed ms := by
    intro i m hm
    have hsame := congrArg (·[i]?) hindex
    simp only [List.getElem?_map, hm, Option.map_some] at hsame
    obtain ⟨l, hl, hline⟩ := Option.map_eq_some_iff.mp hsame
    exact hline.symm.trans (Line.indexed_ofText t i l hl)
  have heach : ∀ m ∈ ms, m = .ofBody m.index m.body m.terminator ∧ Unbroken m.body := by
    refine ((List.forall₂_and_left (R := fun _ _ => True) _ _).mp (h.flip.imp ?_)).1
    rintro m l ⟨i, body, body', e, rfl, rfl, hbody, -⟩
    rw [Line.body_ofBody]
    exact ⟨⟨rfl, hbody⟩, trivial⟩
  have hapart : Apart (ms.map Line.raw) := by
    have hold : Apart ((Line.ofText t).map Line.raw) := Line.map_raw_ofText t ▸ apart_lines t
    refine hold.of_forall₂ ?_
    rw [List.forall₂_map_left_iff, List.forall₂_map_right_iff]
    refine h.imp fun l m hline => ?_
    obtain ⟨i, body, body', e, rfl, rfl, -, hempty⟩ := hline
    simp only [Line.raw, Line.body_ofBody]
    exact ⟨rfl, hempty⟩
  have hplain : ∀ m ∈ ms, m.plain = m := by
    intro m hm
    rw [(heach m hm).1]
    rfl
  rw [Line.ofText_ofLines hindexed (fun m hm => (hplain m hm).trans (heach m hm).1)
    (fun m hm => (heach m hm).2) hapart]
  exact (List.map_congr_left hplain).trans (List.map_id ms)

/-- The groups that the scan has open are those of the open blocks behind every line, as long
as the blocks can be formed, and an end without a name closes the innermost of them. A text
with the name of the innermost open group on some of these ends is read alike; such a text
is got by writing the name behind any choice of ends, unless a leader holds the marker. -/
theorem bare_ends_innermost (hscan : scan s (Line.ofText t) = .ok ds) :
    (∀ before after, Line.ofText t = before ++ after → ∃ es rest, ds = es ++ rest ∧
      scanFrom s [] before = (es, none) ∧
      scanFrom s (openedBy s [] before) after = (rest, none) ∧
      ∀ ls f, es.foldlM (Block.Forming.step ls) .start = .ok f →
        f.opened.map (Block.groupAt f.blocks) = (openedBy s [] before).map some ∧
        ∀ l tail d, after = l :: tail → ofLine? s l = .ok (some d) → d.Bare →
          ∃ i outer b, f.opened = i :: outer ∧ f.blocks[i]? = some b ∧
            rest.head? = some { d with group := b.group } ∧
            Block.Forming.step ls f { d with group := b.group } =
              .ok ⟨Block.Forming.ended f.blocks i d.line, outer⟩) ∧
    (∀ t', Spelled s [] (Line.ofText t) (Line.ofText t') → ReadAlike s t t') ∧
    ((∀ q ∈ s.leaders, ¬ marker <:+: q) → ∀ p,
      Spelled s [] (Line.ofText t) (Line.ofText (nameEnds s p t)) ∧
        ReadAlike s t (nameEnds s p t)) := by
  refine ⟨?_, fun t' h => readAlike_of_spelled hscan h, fun hleaders p => ?_⟩
  · intro before after hsplit
    obtain ⟨es, rest, rfl, hbefore, hafter⟩ :=
      scanFrom_append (hsplit ▸ scan_eq_ok_iff.mp hscan)
    refine ⟨es, rest, rfl, hbefore, hafter, fun ls f hrun => ?_⟩
    have htracks := Block.Forming.tracks_start.run hbefore hrun
    refine ⟨htracks, ?_⟩
    rintro l tail d rfl hline hbare
    rcases scanFrom_cons hafter with ⟨hnone, -⟩ | ⟨d', e, still, ends, hsome, hsettle, -, rfl⟩
    · rw [hline] at hnone
      cases hnone
    · cases hline.symm.trans hsome
      obtain ⟨group, hopened, rfl⟩ := settle?_of_bare hbare hsettle
      rw [hopened] at htracks
      obtain ⟨i, outer, b, hhead, hb, hgroup, hstep⟩ :=
        htracks.step_end (d := { d with group }) hbare.1 ls
      obtain rfl : b.group = group := hgroup
      exact ⟨i, outer, b, hhead, hb, rfl, hstep⟩
  · obtain ⟨hspelled, haligned⟩ := spelled_nameEnds hleaders p (scan_eq_ok_iff.mp hscan)
      (by simp) (aligned_ofText t)
    have hspelled : Spelled s [] (Line.ofText t) (Line.ofText (nameEnds s p t)) := by
      rw [nameEnds, ofText_of_aligned haligned]
      exact hspelled
    exact ⟨hspelled, readAlike_of_spelled hscan hspelled⟩

/-- A leader that holds the marker may take in a bare end once it is named. -/
example : (scan .swallowing (Line.ofText "#smc:begin  a\nx\n#smc:end\n".toList)).toOption.map
      (·.length) = some 2 ∧
    nameEnds .swallowing (fun _ => true) "#smc:begin  a\nx\n#smc:end\n".toList =
      "#smc:begin  a\nx\n#smc:end a\n".toList ∧
    (scan .swallowing (Line.ofText "#smc:begin  a\nx\n#smc:end a\n".toList)).toOption.map
      (·.length) = some 1 := by
  decide +kernel

/-- Two bare ends behind each other, of a condition in a group; with both named the text is
read alike. -/
theorem bare_ends_innermost_nested :
    ∃ ds, scan .hash (Line.ofText
        "# smc:begin a\nx\n# smc:flag b && !c\ny\n# smc:end\n# smc:end \n".toList) = .ok ds ∧
      (∃ es rest, ds = es ++ rest ∧ ∀ ls f, es.foldlM (Block.Forming.step ls) .start = .ok f →
        f.opened.map (Block.groupAt f.blocks) = [some "b && !c".toList, some ['a']]) ∧
      ReadAlike .hash
        "# smc:begin a\nx\n# smc:flag b && !c\ny\n# smc:end\n# smc:end \n".toList
        "# smc:begin a\nx\n# smc:flag b && !c\ny\n# smc:end b && !c\n# smc:end a \n".toList := by
  obtain ⟨ds, hscan, -⟩ := Outcome.exists_of_passes
    (x := scan .hash (Line.ofText
      "# smc:begin a\nx\n# smc:flag b && !c\ny\n# smc:end\n# smc:end \n".toList))
    (p := fun _ => true) (by decide +kernel)
  obtain ⟨hstacks, -, hnamed⟩ := bare_ends_innermost hscan
  refine ⟨ds, hscan, ?_, ?_⟩
  · obtain ⟨es, rest, hds, -, -, hopen⟩ := hstacks _ _ (List.take_append_drop 4 _).symm
    refine ⟨es, rest, hds, fun ls f hrun => (hopen ls f hrun).1.trans ?_⟩
    decide +kernel
  · have hleaders : ∀ q ∈ Style.hash.leaders, ¬ marker <:+: q := by decide
    obtain ⟨-, halike⟩ := hnamed hleaders fun _ => true
    have htext : nameEnds .hash (fun _ => true)
        "# smc:begin a\nx\n# smc:flag b && !c\ny\n# smc:end\n# smc:end \n".toList =
          "# smc:begin a\nx\n# smc:flag b && !c\ny\n# smc:end b && !c\n# smc:end a \n".toList := by
      decide +kernel
    rwa [htext] at halike

end Document

end CommentToggle
