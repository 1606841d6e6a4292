import CommentToggle.Document
import CommentToggle.Proofs.Block.Arena
import CommentToggle.Proofs.Directive.Scan
import CommentToggle.Proofs.Text.Separation

/-!
What a document that was read is like, and when a text with other lines in place
of some of its lines is read as the same document. The lines keep their positions
and terminators and stay apart, directive lines keep their content and no other
line shows the marker; then the directives and blocks come out as before, provided
that every block with nested blocks still has a line of its own.
-/
namespace CommentToggle

open Text

def Line.raw (l : Line) : RawLine := ⟨l.body, l.terminator⟩

def Line.plain (l : Line) : Line := { l with directive := false }

/-- Each line knows its position. -/
def Indexed (ls : List Line) : Prop := ∀ (i : Nat) (l : Line), ls[i]? = some l → l.index = i

namespace Line

theorem getElem?_ofText {t : Text} {i : Nat} {l : Line} (h : (ofText t)[i]? = some l) :
    ∃ r, (lines t)[i]? = some r ∧ l = ofBody i r.body r.terminator := by
  simp only [ofText, List.getElem?_map, List.getElem?_zipIdx, Option.map_map,
    Option.map_eq_some_iff] at h
  obtain ⟨r, hr, rfl⟩ := h
  exact ⟨r, hr, by simp⟩

theorem indexed_ofText (t : Text) : Indexed (ofText t) := by
  intro i l h
  obtain ⟨r, _, rfl⟩ := getElem?_ofText h
  rfl

theorem map_raw_ofText (t : Text) : (ofText t).map raw = lines t := by
  apply List.ext_getElem?
  intro i
  simp only [ofText, List.getElem?_map, List.getElem?_zipIdx, Option.map_map]
  cases (lines t)[i]? with
  | none => rfl
  | some r =>
    simp only [Option.map_some, Function.comp_apply, raw, body_ofBody]
    rfl

/-- Lines that are parsed as they stand are read from their own text. -/
theorem ofText_ofLines {ls : List Line} (hindexed : Indexed ls)
    (hparsed : ∀ l ∈ ls, l.plain = ofBody l.index l.body l.terminator)
    (hunbroken : ∀ l ∈ ls, Unbroken l.body) (hapart : Apart (ls.map raw)) :
    ofText (ofLines (ls.map raw)) = ls.map plain := by
  have hlines : lines (ofLines (ls.map raw)) = ls.map raw := by
    refine lines_ofLines ?_ hapart
    intro r hr
    obtain ⟨l, hl, rfl⟩ := List.mem_map.mp hr
    exact hunbroken l hl
  apply List.ext_getElem?
  intro i
  simp only [ofText, hlines, List.getElem?_map, List.getElem?_zipIdx, Option.map_map]
  cases hl : ls[i]? with
  | none => rfl
  | some l =>
    have hmem : l ∈ ls := List.mem_of_getElem? hl
    simp only [Option.map_some, Function.comp_apply, raw, Nat.zero_add]
    rw [hparsed l hmem, hindexed i l hl]

end Line

theorem Line.eq_of_fields {l m : Line} (hindex : l.index = m.index) (hindent : l.indent = m.indent)
    (hcontent : l.content = m.content) (hterminator : l.terminator = m.terminator)
    (hdirective : l.directive = m.directive) : l = m := by
  cases l
  cases m
  simp_all

theorem Indexed.pairwise {ls : List Line} (h : Indexed ls) : ls.Pairwise (·.index < ·.index) := by
  rw [List.pairwise_iff_getElem]
  intro i j hi hj hij
  rw [h i _ (List.getElem?_eq_getElem hi), h j _ (List.getElem?_eq_getElem hj)]
  exact hij

theorem Indexed.map {ls : List Line} (h : Indexed ls) {g : Line → Line}
    (hg : ∀ l ∈ ls, (g l).index = l.index) : Indexed (ls.map g) := by
  intro i m hm
  rw [List.getElem?_map] at hm
  obtain ⟨l, hl, rfl⟩ := Option.map_eq_some_iff.mp hm
  rw [hg l (List.mem_of_getElem? hl)]
  exact h i l hl

theorem Indexed.inj {ls : List Line} (h : Indexed ls) {l m : Line} (hl : l ∈ ls) (hm : m ∈ ls)
    (heq : l.index = m.index) : l = m := by
  obtain ⟨i, hi⟩ := List.mem_iff_getElem?.mp hl
  obtain ⟨j, hj⟩ := List.mem_iff_getElem?.mp hm
  rw [h i l hi, h j m hj] at heq
  subst heq
  rw [hi] at hj
  exact Option.some.inj hj

namespace Block

/-- Forming looks at lines only for the directives on them. -/
theorem Forming.step_congr {ls ms : List Line}
    (h : ∀ i : Nat, ms[i]?.map (·.directive) = ls[i]?.map (·.directive)) :
    Forming.step ms = Forming.step ls := by
  funext f d
  unfold Forming.step
  cases d.kind with
  | opening => rfl
  | closing => rfl
  | tagging =>
    have hline := h (d.line + 1)
    simp only [Forming.tag?]
    cases hl : ls[d.line + 1]? <;> cases hm : ms[d.line + 1]? <;> simp_all

/-- What the forming of blocks reads of a line. -/
def outline (l : Line) : Nat × Bool × Bool := (l.index, l.directive, l.isOwnText)

theorem hasOwnLine_outline {ls ms : List Line} (h : ms.map outline = ls.map outline)
    (bs : List Block) (b : Block) : hasOwnLine ms bs b = hasOwnLine ls bs b := by
  have hany (ks : List Line) : ((b.ownText ks).any fun l => !b.nests bs l.index) =
      (ks.map outline).any fun (i, _, own) => (b.contains i && own) && !b.nests bs i := by
    rw [ownText, List.any_filter, List.any_map]
    rfl
  unfold hasOwnLine
  rw [hany, hany, h]

theorem resolve_of_outline {ls ms : List Line} (h : ms.map outline = ls.map outline)
    (ds : List Directive) : resolve ms ds = resolve ls ds := by
  have hstep : Forming.step ms = Forming.step ls := by
    refine Forming.step_congr fun i => ?_
    have hflags := congrArg (fun os => os[i]?.map fun o : Nat × Bool × Bool => o.2.1) h
    simp only [List.getElem?_map, Option.map_map] at hflags
    exact hflags
  unfold resolve
  simp only [hstep, hasOwnLine_outline h]

theorem resolve_congr {ls ms : List Line} {ds : List Directive} {bs cs : List Block}
    (h : ∀ i : Nat, ms[i]?.map (·.directive) = ls[i]?.map (·.directive))
    (hbs : resolve ls ds = .ok bs) :
    resolve ms ds = .ok cs ↔ (∀ b ∈ bs, hasOwnLine ms bs b = true) ∧ cs = bs := by
  obtain ⟨f, hrun, hopen, -, rfl⟩ := resolve_eq_ok_iff.mp hbs
  rw [resolve_eq_ok_iff, Forming.step_congr h]
  constructor
  · intro hspec
    obtain ⟨g, hrun', -, hown, rfl⟩ := hspec
    rw [hrun] at hrun'
    cases hrun'
    exact ⟨hown, rfl⟩
  · intro hspec
    obtain ⟨hown, rfl⟩ := hspec
    exact ⟨f, hrun, hopen, hown, rfl⟩

end Block

namespace Document

/-- What holds of every document that was read from a text. -/
structure Sound (d : Document) : Prop where
  indexed : Indexed d.lines
  directive_iff : ∀ l ∈ d.lines,
    l.directive = true ↔ (Directive.marked? d.style l.content).isSome = true
  parsed : ∀ l ∈ d.lines, l.plain = Line.ofBody l.index l.body l.terminator
  unbroken : ∀ l ∈ d.lines, Unbroken l.body
  apart : Apart (d.lines.map Line.raw)
  arena : Block.Arena d.blocks
  own : ∀ b ∈ d.blocks, Block.hasOwnLine d.lines d.blocks b = true
  sets : d.groupSets = GroupSet.ofBlocks d.blocks

/-- Bodies put together with the terminators of their lines make the text of these lines. -/
theorem render_map (d : Document) (g : Line → Line)
    (hg : ∀ l ∈ d.lines, (g l).terminator = l.terminator) :
    d.render (d.lines.map fun l => (g l).body) = ofLines ((d.lines.map g).map Line.raw) := by
  unfold render Line.render ofLines
  generalize d.lines = ls at hg
  induction ls with
  | nil => rfl
  | cons l ls ih =>
    have hrest := ih fun m hm => hg m (List.mem_cons_of_mem l hm)
    simp only [List.map_cons, List.zip_cons_cons, List.flatMap_cons, hrest]
    simp [RawLine.text, Line.raw, hg l (by simp)]

theorem read_eq_ok_iff {s : Style} {t : Text} {d : Document} :
    read s t = .ok d ↔ d.style = s ∧ Directive.scan s (Line.ofText t) = .ok d.directives ∧
      d.lines = Directive.mark d.directives (Line.ofText t) ∧
      Block.resolve d.lines d.directives = .ok d.blocks ∧
      d.groupSets = GroupSet.ofBlocks d.blocks := by
  unfold read
  simp only [Outcome.bind_eq_ok_iff]
  constructor
  · intro h
    obtain ⟨ds, hscan, bs, hresolve, hd⟩ := h
    cases hd
    exact ⟨rfl, hscan, rfl, hresolve, rfl⟩
  · intro h
    obtain ⟨rfl, hscan, hlines, hresolve, hsets⟩ := h
    refine ⟨d.directives, hscan, d.blocks, hlines ▸ hresolve, ?_⟩
    rw [← hlines, ← hsets]
    rfl

/-- Whether one of the directives stands on the line. -/
def listed (ds : List Directive) (line : Nat) : Bool := ds.any (·.line = line)

/-- The line with its mark, if a directive stands on it. -/
def flagged (ds : List Directive) (l : Line) : Line :=
  if listed ds l.index then { l with directive := true } else l

theorem flagged_spec (ds : List Directive) (l : Line) :
    (flagged ds l).index = l.index ∧ (flagged ds l).indent = l.indent ∧
      (flagged ds l).content = l.content ∧ (flagged ds l).terminator = l.terminator ∧
      (flagged ds l).directive = (listed ds l.index || l.directive) := by
  unfold flagged
  split <;> simp_all

theorem mem_lines_iff {s : Style} {t : Text} {d : Document} (h : read s t = .ok d) {l : Line} :
    l ∈ d.lines ↔ ∃ m ∈ Line.ofText t, l = flagged d.directives m := by
  obtain ⟨-, -, hlines, -⟩ := read_eq_ok_iff.mp h
  rw [hlines]
  simp only [Directive.mark, List.mem_map]
  exact ⟨fun ⟨m, hm, heq⟩ => ⟨m, hm, heq.symm⟩, fun ⟨m, hm, heq⟩ => ⟨m, hm, heq.symm⟩⟩

theorem map_raw_lines {s : Style} {t : Text} {d : Document} (h : read s t = .ok d) :
    d.lines.map Line.raw = Text.lines t := by
  obtain ⟨-, -, hlines, -⟩ := read_eq_ok_iff.mp h
  rw [hlines, ← Line.map_raw_ofText, Directive.mark, List.map_map]
  apply List.map_congr_left
  intro l _
  simp only [Function.comp_apply]
  split <;> rfl

theorem directive_lines_iff {s : Style} {t : Text} {d : Document} (h : read s t = .ok d)
    {m : Line} (hm : m ∈ Line.ofText t) :
    (flagged d.directives m).directive = true ↔ (Directive.marked? s m.content).isSome = true := by
  obtain ⟨-, hscan, -⟩ := read_eq_ok_iff.mp h
  have hfound := Directive.found_of_scan hscan
  have hindexed := Line.indexed_ofText t
  have hplain : m.directive = false := by
    obtain ⟨i, hi⟩ := List.mem_iff_getElem?.mp hm
    obtain ⟨r, _, rfl⟩ := Line.getElem?_ofText hi
    rfl
  rw [(flagged_spec d.directives m).2.2.2.2, hplain, Bool.or_false, listed, List.any_eq_true]
  constructor
  · intro hspec
    obtain ⟨e, he, heq⟩ := hspec
    obtain ⟨l, hl, hline, hmarked⟩ := hfound.line e he
    have hsame : l = m := hindexed.inj hl hm (hline.symm.trans (of_decide_eq_true heq))
    rwa [← hsame]
  · intro hmarked
    obtain ⟨e, he, heq⟩ := hfound.every m hm hmarked
    exact ⟨e, he, decide_eq_true heq⟩

theorem ordered_of_scan {s : Style} {t : Text} {ds : List Directive}
    (hscan : Directive.scan s (Line.ofText t) = .ok ds) :
    Block.Forming.Ordered (Directive.mark ds (Line.ofText t)) ds := by
  have hfound := Directive.found_of_scan hscan
  refine ⟨hfound.increasing (Line.indexed_ofText t).pairwise, ?_⟩
  intro e he l hl
  rw [Directive.mark, List.getElem?_map] at hl
  obtain ⟨m, hm, heq⟩ := Option.map_eq_some_iff.mp hl
  have hindex : m.index = e.line := Line.indexed_ofText t e.line m hm
  have hany : ds.any (·.line = m.index) = true :=
    List.any_eq_true.mpr ⟨e, he, by simp [hindex]⟩
  rw [← heq, if_pos hany]

/-- A directive stands on one of the lines. -/
theorem lt_of_scan {s : Style} {t : Text} {ds : List Directive}
    (hscan : Directive.scan s (Line.ofText t) = .ok ds) {e : Directive} (he : e ∈ ds) :
    e.line < (Line.ofText t).length := by
  obtain ⟨m, hm, hline, -⟩ := (Directive.found_of_scan hscan).line e he
  obtain ⟨i, hi⟩ := List.mem_iff_getElem?.mp hm
  rw [hline, Line.indexed_ofText t i m hi]
  exact (List.getElem?_eq_some_iff.mp hi).1

theorem ordered_of_read {s : Style} {t : Text} {d : Document} (h : read s t = .ok d) :
    Block.Forming.Ordered d.lines d.directives := by
  obtain ⟨-, hscan, hlines, -⟩ := read_eq_ok_iff.mp h
  rw [hlines]
  exact ordered_of_scan hscan

theorem sound_of_read {s : Style} {t : Text} {d : Document} (h : read s t = .ok d) :
    d.Sound := by
  obtain ⟨hstyle, hscan, hlines, hresolve, hsets⟩ := read_eq_ok_iff.mp h
  have hfound := Directive.found_of_scan hscan
  have hraw := map_raw_lines h
  refine ⟨?_, ?_, ?_, ?_, ?_, ?_, ?_, hsets⟩
  · rw [hlines]
    exact (Line.indexed_ofText t).map fun l _ => (flagged_spec d.directives l).1
  · intro l hl
    obtain ⟨m, hm, rfl⟩ := (mem_lines_iff h).mp hl
    rw [directive_lines_iff h hm, (flagged_spec d.directives m).2.2.1, hstyle]
  · intro l hl
    obtain ⟨m, hm, rfl⟩ := (mem_lines_iff h).mp hl
    obtain ⟨i, hi⟩ := List.mem_iff_getElem?.mp hm
    obtain ⟨r, _, rfl⟩ := Line.getElem?_ofText hi
    unfold flagged
    split <;> simp [Line.plain, Line.body, Line.ofBody, trimStart_append_takeWhile]
  · intro l hl
    have hr : l.raw ∈ Text.lines t := hraw ▸ List.mem_map_of_mem hl
    exact unbroken_lines hr
  · rw [hraw]
    exact apart_lines t
  · exact Block.arena_of_resolve (ordered_of_read h) hfound.plain hresolve
  · obtain ⟨f, -, -, hown, hblocks⟩ := Block.resolve_eq_ok_iff.mp hresolve
    rw [hblocks]
    exact hown

theorem ofLines_lines_of_read {s : Style} {t : Text} {d : Document} (h : read s t = .ok d) :
    ofLines (d.lines.map Line.raw) = t := by
  rw [map_raw_lines h, ofLines_lines]

/-- Lines put in place of others that read as the document needs them to. -/
structure Fits (d : Document) (g : Line → Line) : Prop where
  index : ∀ l ∈ d.lines, (g l).index = l.index
  directive : ∀ l ∈ d.lines, (g l).directive = l.directive
  parsed : ∀ l ∈ d.lines, (g l).plain = Line.ofBody (g l).index (g l).body (g l).terminator
  unbroken : ∀ l ∈ d.lines, Unbroken (g l).body
  content : ∀ l ∈ d.lines, l.directive = true → (g l).content = l.content
  unmarked : ∀ l ∈ d.lines, l.directive = false → Directive.marked? d.style (g l).content = none
  apart : Apart ((d.lines.map g).map Line.raw)

/-- A document that was read is parsed from its lines as they stand. -/
theorem ofText_of_read {s : Style} {t : Text} {d : Document} (h : read s t = .ok d) :
    Line.ofText t = d.lines.map Line.plain := by
  have hsound := sound_of_read h
  rw [← ofLines_lines_of_read h]
  exact Line.ofText_ofLines hsound.indexed hsound.parsed hsound.unbroken hsound.apart

theorem flagged_plain {s : Style} {t : Text} {d : Document} (h : read s t = .ok d) {l : Line}
    (hl : l ∈ d.lines) : flagged d.directives l.plain = l := by
  obtain ⟨-, -, hlines, -⟩ := read_eq_ok_iff.mp h
  have hmap : d.lines.map (fun l => flagged d.directives l.plain) = d.lines.map id := by
    conv_rhs => rw [List.map_id, hlines, ofText_of_read h]
    rw [Directive.mark, List.map_map]
    rfl
  exact List.map_inj_left.mp hmap l hl

section Fits

variable {s : Style} {t : Text} {d : Document} {g : Line → Line}

theorem Fits.ofText (hg : d.Fits g) (h : d.Sound) :
    Line.ofText (ofLines ((d.lines.map g).map Line.raw)) = (d.lines.map g).map Line.plain := by
  refine Line.ofText_ofLines (h.indexed.map hg.index) ?_ ?_ hg.apart
  · intro m hm
    obtain ⟨l, hl, rfl⟩ := List.mem_map.mp hm
    exact hg.parsed l hl
  · intro m hm
    obtain ⟨l, hl, rfl⟩ := List.mem_map.mp hm
    exact hg.unbroken l hl

/-- The marker shows on the same lines as before, with the same text behind it. -/
theorem Fits.marked (hg : d.Fits g) (h : d.Sound) {l : Line} (hl : l ∈ d.lines) :
    Directive.marked? d.style (g l).content = Directive.marked? d.style l.content := by
  cases hdirective : l.directive with
  | true => rw [hg.content l hl hdirective]
  | false =>
    have hnone := h.directive_iff l hl
    rw [hdirective] at hnone
    rw [hg.unmarked l hl hdirective]
    cases hm : Directive.marked? d.style l.content with
    | none => rfl
    | some v => simp [hm] at hnone

theorem Fits.scan (hg : d.Fits g) (h : read s t = .ok d) :
    Directive.scan s ((d.lines.map g).map Line.plain) = .ok d.directives := by
  obtain ⟨hstyle, hscan, -⟩ := read_eq_ok_iff.mp h
  have hmarked := fun l hl => hg.marked (sound_of_read h) (l := l) hl
  rw [hstyle] at hmarked
  rw [← hscan, ofText_of_read h, List.map_map, Directive.scan_map, Directive.scan_map]
  · exact fun l _ => ⟨rfl, Directive.ofLine?_congr rfl rfl⟩
  · exact fun l hl => ⟨hg.index l hl, Directive.ofLine?_congr (hg.index l hl) (hmarked l hl)⟩

theorem Fits.mark (hg : d.Fits g) (h : read s t = .ok d) :
    Directive.mark d.directives ((d.lines.map g).map Line.plain) = d.lines.map g := by
  rw [Directive.mark, List.map_map, List.map_map]
  apply List.map_congr_left
  intro l hl
  have hsame : (flagged d.directives (g l).plain).directive = (g l).directive := by
    have hany := congrArg Line.directive (flagged_plain h hl)
    rw [(flagged_spec d.directives _).2.2.2.2] at hany ⊢
    change (listed d.directives l.index || false) = l.directive at hany
    change (listed d.directives (g l).index || false) = (g l).directive
    rw [hg.index l hl, hg.directive l hl]
    exact hany
  change flagged d.directives (g l).plain = g l
  obtain ⟨hindex, hindent, hcontent, hterminator, -⟩ := flagged_spec d.directives (g l).plain
  exact Line.eq_of_fields hindex hindent hcontent hterminator hsame

theorem Fits.map_directive (hg : d.Fits g) (i : Nat) :
    (d.lines.map g)[i]?.map (·.directive) = d.lines[i]?.map (·.directive) := by
  rw [List.getElem?_map]
  cases hl : d.lines[i]? with
  | none => rfl
  | some l =>
    rw [Option.map_some, Option.map_some, Option.map_some,
      hg.directive l (List.mem_of_getElem? hl)]

theorem Fits.read_iff (h : read s t = .ok d) (hg : d.Fits g) {e : Document} :
    read s (ofLines ((d.lines.map g).map Line.raw)) = .ok e ↔
      (∀ b ∈ d.blocks, Block.hasOwnLine (d.lines.map g) d.blocks b = true) ∧
        e = { d with lines := d.lines.map g } := by
  obtain ⟨hstyle, -, -, hresolve, hsets⟩ := read_eq_ok_iff.mp h
  rw [read_eq_ok_iff, hg.ofText (sound_of_read h)]
  constructor
  · intro hspec
    obtain ⟨hestyle, hescan, helines, heresolve, hesets⟩ := hspec
    rw [hg.scan h, Except.ok.injEq] at hescan
    rw [← hescan, hg.mark h] at helines
    rw [helines, ← hescan, Block.resolve_congr hg.map_directive hresolve] at heresolve
    refine ⟨heresolve.1, ?_⟩
    rw [heresolve.2, ← hsets] at hesets
    obtain ⟨style, lines, directives, blocks, sets⟩ := e
    rw [Document.mk.injEq]
    exact ⟨hestyle.trans hstyle.symm, helines, hescan.symm, heresolve.2, hesets⟩
  · intro hspec
    obtain ⟨hown, rfl⟩ := hspec
    exact ⟨hstyle, hg.scan h, (hg.mark h).symm,
      (Block.resolve_congr hg.map_directive hresolve).mpr ⟨hown, rfl⟩, hsets⟩

end Fits

end Document

end CommentToggle
