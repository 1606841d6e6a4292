import CommentToggle.Proofs.Toggle.Structure

/-!
Texts that differ in their line ends only. When every line feed becomes another line end,
the same lines are read with the same directives and blocks, the same plan is made, and
the text it leads to is the old one with the new line ends; a fault stays the same fault.
-/
namespace CommentToggle

namespace Text

/-- Every line feed becomes the given line end. -/
def withBreaks (e : Terminator) (t : Text) : Text :=
  t.flatMap fun c => if c = '\n' then e.text else [c]

def Terminator.withBreak : Terminator → Terminator → Terminator
  | .lf, e => e
  | other, _ => other

def RawLine.withBreak (e : Terminator) (l : RawLine) : RawLine :=
  { l with terminator := l.terminator.withBreak e }

/-- A line feed, or the end of the text. -/
def Fed (e : Terminator) : Prop := e = .lf ∨ e = .absent

theorem withBreaks_append (e : Terminator) (a b : Text) :
    withBreaks e (a ++ b) = withBreaks e a ++ withBreaks e b :=
  List.flatMap_append

theorem withBreaks_unbroken {b : Text} (hb : Unbroken b) (e : Terminator) :
    withBreaks e b = b := by
  induction b with
  | nil => rfl
  | cons c b ih =>
    have hc : c ≠ '\n' := fun h => hb.2 (h ▸ List.mem_cons_self)
    have hrest : Unbroken b := Unbroken.right (a := [c]) hb
    unfold withBreaks at ih ⊢
    rw [List.flatMap_cons, ih hrest, if_neg hc]
    rfl

theorem withBreaks_line {l : RawLine} (hl : Unbroken l.body) (hfed : Fed l.terminator)
    (e : Terminator) : withBreaks e l.text = (l.withBreak e).text := by
  rw [RawLine.text, withBreaks_append, withBreaks_unbroken hl]
  unfold RawLine.text RawLine.withBreak
  rcases hfed with hend | hend <;>
    simp [hend, Terminator.withBreak, withBreaks, Terminator.text]

theorem withBreaks_ofLines {ls : List RawLine} (hls : ∀ l ∈ ls, Unbroken l.body)
    (hfed : ∀ l ∈ ls, Fed l.terminator) (e : Terminator) :
    withBreaks e (ofLines ls) = ofLines (ls.map (RawLine.withBreak e)) := by
  induction ls with
  | nil => rfl
  | cons l ls ih =>
    have hrest := ih (fun m hm => hls m (List.mem_cons_of_mem l hm))
      (fun m hm => hfed m (List.mem_cons_of_mem l hm))
    have hline := withBreaks_line (hls l (by simp)) (hfed l (by simp)) e
    unfold ofLines at hrest ⊢
    rw [List.flatMap_cons, withBreaks_append, hline, hrest, List.map_cons, List.flatMap_cons]

theorem fed_of_lines {t : Text} (ht : '\r' ∉ t) {l : RawLine} (hl : l ∈ lines t) :
    Fed l.terminator := by
  have hin : ∀ c ∈ l.terminator.text, c ∈ t := by
    intro c hc
    rw [← ofLines_lines t]
    exact List.mem_flatMap.mpr ⟨l, hl, List.mem_append_right _ hc⟩
  cases hend : l.terminator with
  | absent => exact Or.inr rfl
  | lf => exact Or.inl rfl
  | crlf => exact absurd (hin '\r' (by simp [hend, Terminator.text])) ht
  | cr => exact absurd (hin '\r' (by simp [hend, Terminator.text])) ht

/-- With one kind of line end throughout, no CR can join a LF. -/
theorem Apart.withBreak {ls : List RawLine} (h : Apart ls) (hfed : ∀ l ∈ ls, Fed l.terminator)
    {e : Terminator} (he : e ≠ .absent) : Apart (ls.map (RawLine.withBreak e)) := by
  induction ls with
  | nil => trivial
  | cons l ls ih =>
    have htail := ih h.tail fun m hm => hfed m (List.mem_cons_of_mem l hm)
    cases ls with
    | nil =>
      intro habsent
      rcases hfed l (by simp) with hend | hend
      · exact absurd (by simpa [RawLine.withBreak, hend, Terminator.withBreak] using habsent) he
      · exact h hend
    | cons m ls =>
      have hend : l.terminator = .lf := (hfed l (by simp)).resolve_right h.1
      have hnew : (l.withBreak e).terminator = e := by
        rw [RawLine.withBreak, hend]
        rfl
      refine ⟨by rwa [hnew], fun ⟨hcr, _, hlf⟩ => ?_, htail⟩
      rw [hnew] at hcr
      rcases hfed m (by simp) with hnext | hnext <;>
        simp [RawLine.withBreak, hnext, Terminator.withBreak, hcr] at hlf

theorem lines_withBreaks {t : Text} (ht : '\r' ∉ t) {e : Terminator} (he : e ≠ .absent) :
    lines (withBreaks e t) = (lines t).map (RawLine.withBreak e) := by
  have hls : ∀ l ∈ lines t, Unbroken l.body := fun l hl => unbroken_lines hl
  have hfed : ∀ l ∈ lines t, Fed l.terminator := fun l hl => fed_of_lines ht hl
  conv_lhs => rw [← ofLines_lines t, withBreaks_ofLines hls hfed]
  refine lines_ofLines ?_ ((apart_lines t).withBreak hfed he)
  intro m hm
  obtain ⟨l, hl, rfl⟩ := List.mem_map.mp hm
  exact hls l hl

end Text

open Text

namespace Line

def withBreak (e : Terminator) (l : Line) : Line :=
  { l with terminator := l.terminator.withBreak e }

@[simp] theorem index_withBreak (e : Terminator) (l : Line) :
    (l.withBreak e).index = l.index := rfl

@[simp] theorem content_withBreak (e : Terminator) (l : Line) :
    (l.withBreak e).content = l.content := rfl

@[simp] theorem directive_withBreak (e : Terminator) (l : Line) :
    (l.withBreak e).directive = l.directive := rfl

@[simp] theorem isOwnText_withBreak (e : Terminator) (l : Line) :
    (l.withBreak e).isOwnText = l.isOwnText := rfl

theorem ofText_withBreaks {t : Text} (ht : '\r' ∉ t) {e : Terminator} (he : e ≠ .absent) :
    ofText (t.withBreaks e) = (ofText t).map (withBreak e) := by
  unfold ofText
  rw [lines_withBreaks ht he, List.zipIdx_map, List.map_map, List.map_map]
  exact List.map_congr_left fun _ _ => rfl

theorem render_withBreak {bodies : List Text} {ls : List Line}
    (hbodies : ∀ b ∈ bodies, Unbroken b) (hfed : ∀ l ∈ ls, Fed l.terminator) (e : Terminator) :
    render bodies (ls.map (withBreak e)) = (render bodies ls).withBreaks e := by
  induction bodies generalizing ls with
  | nil => rfl
  | cons b bodies ih =>
    cases ls with
    | nil => rfl
    | cons l ls =>
      have hrest := ih (fun c hc => hbodies c (List.mem_cons_of_mem b hc))
        (fun m hm => hfed m (List.mem_cons_of_mem l hm))
      have hline := withBreaks_line (l := ⟨b, l.terminator⟩) (hbodies b (by simp))
        (hfed l (by simp)) e
      unfold render at hrest ⊢
      rw [List.map_cons, List.zip_cons_cons, List.zip_cons_cons, List.flatMap_cons,
        List.flatMap_cons, withBreaks_append, hrest]
      exact congrArg (· ++ _) hline.symm

end Line

namespace Directive

theorem scan_withBreak (s : Style) (ls : List Line) (e : Terminator) :
    scan s (ls.map (Line.withBreak e)) = scan s ls :=
  scan_map fun _ _ => ⟨rfl, ofLine?_congr rfl rfl⟩

theorem mark_withBreak (ds : List Directive) (ls : List Line) (e : Terminator) :
    mark ds (ls.map (Line.withBreak e)) = (mark ds ls).map (Line.withBreak e) := by
  unfold mark
  rw [List.map_map, List.map_map]
  refine List.map_congr_left fun l _ => ?_
  simp only [Function.comp_apply]
  rw [apply_ite (Line.withBreak e)]
  rfl

end Directive

namespace Block

theorem resolve_withBreak (ls : List Line) (ds : List Directive) (e : Terminator) :
    resolve (ls.map (Line.withBreak e)) ds = resolve ls ds := by
  refine resolve_of_outline ?_ ds
  rw [List.map_map]
  rfl

end Block

namespace Document

def withBreaks (e : Terminator) (d : Document) : Document :=
  { d with lines := d.lines.map (Line.withBreak e) }

/-- What is read does not depend on the line ends. -/
theorem read_withBreaks (s : Style) {t : Text} (ht : '\r' ∉ t) {e : Terminator}
    (he : e ≠ .absent) : read s (t.withBreaks e) = (read s t).map (withBreaks e) := by
  unfold read
  simp only [Line.ofText_withBreaks ht he, Directive.scan_withBreak]
  cases Directive.scan s (Line.ofText t) with
  | error f => rfl
  | ok ds =>
    simp only [bind, Except.bind, Directive.mark_withBreak, Block.resolve_withBreak]
    cases Block.resolve (Directive.mark ds (Line.ofText t)) ds <;> rfl

/-- Peeled lines whose ends do not matter. -/
def Peeled.withBreak (e : Terminator) (p : Peeled) : Peeled :=
  p.map fun entry => (entry.1.withBreak e, entry.2)

theorem peel_withBreak (s : Style) (b : Block) (p : Peeled) (e : Terminator) :
    peel s b (p.withBreak e) = Peeled.withBreak e (peel s b p) := by
  unfold peel Peeled.withBreak
  rw [List.map_map, List.map_map]
  refine List.map_congr_left fun entry _ => ?_
  have howns : owns b (entry.1.withBreak e, entry.2) = owns b entry := rfl
  simp only [Function.comp_apply, howns]
  split <;> rfl

theorem readsInactive_withBreak (s : Style) (b : Block) (p : Peeled) (e : Terminator) :
    readsInactive s b (p.withBreak e) = readsInactive s b p := by
  have hfilter : (p.withBreak e).filter (owns b) = Peeled.withBreak e (p.filter (owns b)) :=
    List.filter_map
  unfold readsInactive
  simp only [hfilter]
  unfold Peeled.withBreak
  rw [List.isEmpty_map, List.all_map]
  rfl

theorem statesFrom_withBreak (s : Style) (p : Peeled) (e : Terminator) (bs : List Block) :
    statesFrom s (p.withBreak e) bs = statesFrom s p bs := by
  induction bs generalizing p with
  | nil => rfl
  | cons b bs ih =>
    unfold statesFrom
    rw [readsInactive_withBreak, peel_withBreak, ih, ih]

theorem states_withBreaks (d : Document) (e : Terminator) : (d.withBreaks e).states = d.states := by
  have hpeeled : (d.withBreaks e).lines.map (fun l => (l, l.content)) =
      Peeled.withBreak e (d.lines.map fun l => (l, l.content)) := by
    simp only [withBreaks, Peeled.withBreak, List.map_map]
    exact List.map_congr_left fun _ _ => rfl
  unfold states
  rw [hpeeled]
  exact statesFrom_withBreak d.style _ e d.blocks

theorem make_withBreaks (d : Document) (r : Request) (e : Terminator) :
    Plan.make (d.withBreaks e) r = Plan.make d r := by
  have hlines : ∀ current desired : List Bool,
      (d.withBreaks e).lines.mapM (Plan.ofLine (d.withBreaks e) current desired) =
        d.lines.mapM (Plan.ofLine d current desired) :=
    fun _ _ => List.mapM_map
  have hselect : ∀ states, r.select (d.withBreaks e) states = r.select d states := fun _ => rfl
  unfold Plan.make
  simp only [states_withBreaks, hselect, hlines]
  rfl

theorem shiftLayers_withBreaks (d : Document) (p : Plan) (e : Terminator) :
    (d.withBreaks e).shiftLayers p = d.shiftLayers p :=
  List.mapM_map

end Document

def Toggled.withBreaks (e : Terminator) (done : Toggled) : Toggled :=
  ⟨done.document.withBreaks e, done.plan, done.text.withBreaks e⟩

theorem Document.toggled_withBreaks {d : Document} (hs : d.style.Inline) (h : d.Sound)
    (hfed : ∀ l ∈ d.lines, Fed l.terminator) (r : Request) (e : Terminator) :
    (d.withBreaks e).toggle r = (d.toggle r).map (Toggled.withBreaks e) := by
  unfold Document.toggle
  rw [make_withBreaks]
  cases hmake : Plan.make d r with
  | error f => rfl
  | ok p =>
    obtain ⟨-, desired, -, -, rfl⟩ := make_eq_ok_iff.mp hmake
    have hbodies : ∀ b ∈ d.lines.map (fun l => (d.rewritten desired l).body), Unbroken b := by
      intro b hb
      obtain ⟨l, hl, rfl⟩ := List.mem_map.mp hb
      exact unbroken_rewritten hs h desired hl
    have htext := Line.render_withBreak hbodies hfed e
    simp only [bind, Except.bind, shiftLayers_withBreaks, shiftLayers_planTo h]
    exact congrArg (fun u => Except.ok (Toggled.mk (d.withBreaks e) (d.planTo desired) u)) htext

/-- The line ends of a text without CR do not matter to what a request does. -/
theorem toggle_withBreaks {s : Style} (hs : s.Inline) {t : Text} (ht : '\r' ∉ t)
    {e : Terminator} (he : e ≠ .absent) (r : Request) :
    toggle s (t.withBreaks e) r = (toggle s t r).map (Toggled.withBreaks e) := by
  unfold toggle
  rw [Document.read_withBreaks s ht he]
  cases hread : Document.read s t with
  | error f => rfl
  | ok d =>
    have hstyle := (Document.read_eq_ok_iff.mp hread).1
    have hfed : ∀ l ∈ d.lines, Fed l.terminator := by
      intro l hl
      exact fed_of_lines ht (Document.map_raw_lines hread ▸ List.mem_map_of_mem hl)
    exact Document.toggled_withBreaks (hstyle ▸ hs) (Document.sound_of_read hread) hfed r e

/-- A page with a blank line, a line that a toggle empties and an unterminated last line, in
both other forms; and a request that is refused in the same words. -/
theorem toggle_withBreaks_page :
    (∃ done, toggle .hash "# smc:begin a\n#\n\n# x\n# smc:end\ny".toList ⟨[['a']], [], false⟩ =
        .ok done ∧
      done.text = "# smc:begin a\n\n\nx\n# smc:end\ny".toList ∧
      toggle .hash "# smc:begin a\r\n#\r\n\r\n# x\r\n# smc:end\r\ny".toList ⟨[['a']], [], false⟩ =
        .ok (done.withBreaks .crlf) ∧
      (done.withBreaks .crlf).text =
        "# smc:begin a\r\n\r\n\r\nx\r\n# smc:end\r\ny".toList ∧
      toggle .hash "# smc:begin a\r#\r\r# x\r# smc:end\ry".toList ⟨[['a']], [], false⟩ =
        .ok (done.withBreaks .cr) ∧
      (done.withBreaks .cr).text = "# smc:begin a\r\r\rx\r# smc:end\ry".toList) ∧
    toggle .hash "# smc:begin a\r# smc:end b\r".toList ⟨[], [], false⟩ =
      .error (.notOpen ['b'] 1) := by
  constructor
  · obtain ⟨done, hdone, htext⟩ := Outcome.exists_of_passes
      (x := toggle .hash "# smc:begin a\n#\n\n# x\n# smc:end\ny".toList ⟨[['a']], [], false⟩)
      (p := fun done => decide (done.text = "# smc:begin a\n\n\nx\n# smc:end\ny".toList))
      (by decide +kernel)
    have htext := of_decide_eq_true htext
    have hsame := fun (e : Terminator) (he : e ≠ .absent) => toggle_withBreaks
      Style.regular_hash.toInline (t := "# smc:begin a\n#\n\n# x\n# smc:end\ny".toList)
      (by decide) he ⟨[['a']], [], false⟩
    rw [hdone] at hsame
    have hcrlf : "# smc:begin a\r\n#\r\n\r\n# x\r\n# smc:end\r\ny".toList =
        withBreaks .crlf "# smc:begin a\n#\n\n# x\n# smc:end\ny".toList := by decide
    have hcr : "# smc:begin a\r#\r\r# x\r# smc:end\ry".toList =
        withBreaks .cr "# smc:begin a\n#\n\n# x\n# smc:end\ny".toList := by decide
    rw [hcrlf, hcr]
    refine ⟨done, hdone, htext, hsame .crlf (by decide), ?_, hsame .cr (by decide), ?_⟩
    · simp only [Toggled.withBreaks, htext]
      decide
    · simp only [Toggled.withBreaks, htext]
      decide
  · have hsame := toggle_withBreaks Style.regular_hash.toInline
      (t := "# smc:begin a\n# smc:end b\n".toList) (by decide) (e := .cr) (by decide)
      ⟨[], [], false⟩
    have hfault : toggle .hash "# smc:begin a\n# smc:end b\n".toList ⟨[], [], false⟩ =
        .error (.notOpen ['b'] 1) := by rfl
    have hcr : "# smc:begin a\r# smc:end b\r".toList =
        withBreaks .cr "# smc:begin a\n# smc:end b\n".toList := by decide
    rw [hcr, hsame, hfault]
    rfl

end CommentToggle
