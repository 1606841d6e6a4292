import CommentToggle.Proofs.Toggle.Structure

/-!
Documents as the tool writes them. Every line inside a block is some text of its own
under one layer for each inactive block around it, and every block with text has a line
outside its children whose own text is no comment. A toggle turns such a document into
the one with the new number of layers, line by line.
-/
namespace CommentToggle

open Text

namespace Document

/-- A line with text of its own that some block holds. -/
def inside (d : Document) (l : Line) : Bool :=
  l.isOwnText && !(d.containing l.index).isEmpty

/-- The lines inside the blocks are the given texts under the layers of the inactive
blocks around them. -/
structure Written (d : Document) (u : Nat → Text) : Prop where
  content : ∀ l ∈ d.lines, d.inside l = true → l.content =
    Layer.addTimes d.style d.spaced (d.depthAt d.states l.index) (u l.index)
  flush : ∀ l ∈ d.lines, d.inside l = true → Flush (u l.index)
  unmarked : ∀ l ∈ d.lines, d.inside l = true → Directive.marked? d.style (u l.index) = none
  unreserved : ∀ l ∈ d.lines, d.inside l = true → ¬ marker <+: u l.index
  bare : ∀ b ∈ d.blocks, (∃ l, l ∈ b.ownText d.lines) → ∃ l ∈ b.ownText d.lines,
    b.nests d.blocks l.index = false ∧ Layer.strip? d.style (u l.index) = none

/-- No text inside the blocks goes on with the marker up to the closer. -/
def Clear (d : Document) (u : Nat → Text) : Prop :=
  ∀ l ∈ d.lines, d.inside l = true → ¬ marker <+: u l.index ++ Layer.behind d.style d.spaced

instance (d : Document) (u : Nat → Text) : Decidable (d.Written u) :=
  decidable_of_iff
    ((∀ l ∈ d.lines, d.inside l = true → l.content = Layer.addTimes d.style d.spaced
        (d.depthAt d.states l.index) (u l.index) ∧ Flush (u l.index) ∧
        Directive.marked? d.style (u l.index) = none ∧ ¬ marker <+: u l.index) ∧
      ∀ b ∈ d.blocks, (b.ownText d.lines).isEmpty = false → ∃ l ∈ b.ownText d.lines,
        b.nests d.blocks l.index = false ∧ Layer.strip? d.style (u l.index) = none)
    ⟨fun h => ⟨fun l hl hin => (h.1 l hl hin).1, fun l hl hin => (h.1 l hl hin).2.1,
        fun l hl hin => (h.1 l hl hin).2.2.1, fun l hl hin => (h.1 l hl hin).2.2.2,
        fun b hb htext => h.2 b hb (List.isEmpty_eq_false_iff_exists_mem.mpr htext)⟩,
      fun h => ⟨fun l hl hin => ⟨h.content l hl hin, h.flush l hl hin, h.unmarked l hl hin,
          h.unreserved l hl hin⟩,
        fun b hb htext => h.bare b hb (List.isEmpty_eq_false_iff_exists_mem.mp htext)⟩⟩

instance (d : Document) (u : Nat → Text) : Decidable (d.Clear u) := List.decidableBAll _ _

def writtenLine (d : Document) (u : Nat → Text) (states : List Bool) (l : Line) : Line :=
  if d.inside l then
    { l with content :=
      Layer.addTimes d.style d.spaced (d.depthAt states l.index) (u l.index) }
  else l

/-- The document with the given texts under the layers that the states ask for. -/
def written (d : Document) (u : Nat → Text) (states : List Bool) : Document :=
  { d with lines := d.lines.map (d.writtenLine u states) }

def writtenText (d : Document) (u : Nat → Text) (states : List Bool) : Text :=
  ofLines ((d.written u states).lines.map Line.raw)

theorem inside_iff {d : Document} {l : Line} :
    d.inside l = true ↔ l.isOwnText = true ∧ d.containing l.index ≠ [] := by
  simp [inside]

theorem inside_of_mem {d : Document} {b : Block} (hb : b ∈ d.blocks) {l : Line}
    (hl : l ∈ b.ownText d.lines) : d.inside l = true := by
  obtain ⟨-, hin, hown⟩ := mem_ownText.mp hl
  exact inside_iff.mpr ⟨hown, List.ne_nil_of_mem (List.mem_filter.mpr ⟨hb, hin⟩)⟩

theorem inside_eq_false_iff {d : Document} {l : Line} : d.inside l = false ↔
    l.isBlank = true ∨ l.directive = true ∨ d.containing l.index = [] := by
  simp only [inside, Line.isOwnText, Bool.and_eq_false_iff, Bool.not_eq_false',
    List.isEmpty_iff, or_assoc]
  tauto

section Lines

variable {d : Document} {u : Nat → Text}

theorem Written.contentAt (hs : d.style.Tidy) (hw : d.Written u) (desired : List Bool)
    {l : Line} (hl : l ∈ d.lines) (hin : d.inside l = true) : d.contentAt desired l =
      Layer.addTimes d.style d.spaced (d.depthAt desired l.index) (u l.index) := by
  obtain ⟨hown, -⟩ := inside_iff.mp hin
  have hflush := hw.flush l hl hin
  have hcontent := hw.content l hl hin
  by_cases hle : d.depthAt d.states l.index ≤ d.depthAt desired l.index
  · rw [contentAt_of_le hown hle, hcontent, ← Layer.addTimes_add, Nat.sub_add_cancel hle]
  · have hsum : d.depthAt d.states l.index =
        (d.depthAt d.states l.index - d.depthAt desired l.index) + d.depthAt desired l.index := by
      omega
    have hstrip : Layer.stripTimes? d.style
        (d.depthAt d.states l.index - d.depthAt desired l.index) l.content =
        some (Layer.addTimes d.style d.spaced (d.depthAt desired l.index) (u l.index)) := by
      rw [hcontent]
      conv_lhs => rw [hsum, Layer.addTimes_add]
      rw [Nat.add_sub_cancel]
      exact Layer.stripTimes?_addTimes hs d.spaced 0 _
        (Layer.flush_addTimes hs d.spaced _ hflush)
    simp [Document.contentAt, hown, hle, hstrip]

theorem Written.rewritten (hs : d.style.Tidy) (h : d.Sound) (hw : d.Written u)
    (desired : List Bool) {l : Line} (hl : l ∈ d.lines) :
    d.rewritten desired l = d.writtenLine u desired l := by
  cases hin : d.inside l with
  | false =>
    have hgain := gain_of_quiet (inside_eq_false_iff.mp hin) desired
    rw [rewritten_of_content h hl (contentAt_of_gain hgain), writtenLine, hin]
    rfl
  | true =>
    have hcontent := hw.contentAt hs desired hl hin
    have hflush := Layer.flush_addTimes hs d.spaced (d.depthAt desired l.index)
      (hw.flush l hl hin)
    have hindent : (l.indent ++ d.contentAt desired l).takeWhile isBlank = l.indent := by
      have hparts := (h.parts hl).1
      have hblank : ∀ c ∈ l.indent, isBlank c = true := by
        intro c hc
        rw [hparts] at hc
        exact List.mem_takeWhile_imp hc
      obtain ⟨c, rest, heq, hc⟩ := hflush
      rw [hcontent, heq, List.takeWhile_append_of_pos hblank]
      simp [hc]
    rw [writtenLine, hin, if_pos rfl]
    refine Line.eq_of_fields rfl hindent ?_ rfl rfl
    rw [content_rewritten h desired hl, hcontent, hflush.trimStart]

theorem Written.settled (hs : d.style.Tidy) (h : d.Sound) (hw : d.Written u)
    (desired : List Bool) : d.settled desired = d.written u desired := by
  unfold Document.settled written
  rw [List.map_congr_left fun l hl => hw.rewritten hs h desired hl]

theorem Written.textAt (hs : d.style.Tidy) (h : d.Sound) (hw : d.Written u)
    (desired : List Bool) : d.textAt desired = d.writtenText u desired := by
  rw [writtenText, ← hw.settled hs h desired]
  rfl

theorem index_writtenLine (d : Document) (u : Nat → Text) (states : List Bool) (l : Line) :
    (d.writtenLine u states l).index = l.index := by
  unfold writtenLine
  split <;> rfl

theorem Written.own_writtenLine (hs : d.style.Tidy) (hw : d.Written u) (states : List Bool)
    {l : Line} (hl : l ∈ d.lines) : (d.writtenLine u states l).isOwnText = l.isOwnText := by
  unfold writtenLine
  split
  · rename_i hin
    obtain ⟨hown, -⟩ := inside_iff.mp hin
    obtain ⟨hdirective, -⟩ := Line.isOwnText_iff.mp hown
    have hflush := Layer.flush_addTimes hs d.spaced (d.depthAt states l.index)
      (hw.flush l hl hin)
    rw [hown, Line.isOwnText_iff]
    refine ⟨hdirective, Line.isBlank_eq_false_iff.mpr ?_⟩
    rw [hflush.trimStart]
    exact hflush.ne_nil
  · rfl

theorem Written.inside_writtenLine (hs : d.style.Tidy) (hw : d.Written u) (states : List Bool)
    {l : Line} (hl : l ∈ d.lines) :
    (d.written u states).inside (d.writtenLine u states l) = d.inside l := by
  unfold inside
  rw [hw.own_writtenLine hs states hl, index_writtenLine]
  rfl

theorem Written.mem_ownText_iff (hs : d.style.Tidy) (hw : d.Written u) (states : List Bool)
    {b : Block} {m : Line} : m ∈ b.ownText (d.written u states).lines ↔
      ∃ l ∈ b.ownText d.lines, m = d.writtenLine u states l := by
  simp only [mem_ownText, written, List.mem_map]
  constructor
  · intro h
    obtain ⟨⟨l, hl, rfl⟩, hin, hown⟩ := h
    rw [index_writtenLine] at hin
    rw [hw.own_writtenLine hs states hl] at hown
    exact ⟨l, ⟨hl, hin, hown⟩, rfl⟩
  · intro h
    obtain ⟨l, ⟨hl, hin, hown⟩, rfl⟩ := h
    rw [index_writtenLine, hw.own_writtenLine hs states hl]
    exact ⟨⟨l, hl, rfl⟩, hin, hown⟩

theorem Written.text_iff (hs : d.style.Tidy) (hw : d.Written u) (states : List Bool) (b : Block) :
    (∃ m, m ∈ b.ownText (d.written u states).lines) ↔ ∃ l, l ∈ b.ownText d.lines := by
  simp only [hw.mem_ownText_iff hs states]
  constructor
  · intro h
    obtain ⟨_, l, hl, -⟩ := h
    exact ⟨l, hl⟩
  · intro h
    obtain ⟨l, hl⟩ := h
    exact ⟨_, l, hl, rfl⟩

theorem Written.written_self (hw : d.Written u) : d.written u d.states = d := by
  have hlines : d.lines.map (d.writtenLine u d.states) = d.lines := by
    conv_rhs => rw [← List.map_id d.lines]
    refine List.map_congr_left fun l hl => ?_
    unfold writtenLine
    split
    · rename_i hin
      rw [← hw.content l hl hin]
      rfl
    · rfl
  unfold written
  rw [hlines]

/-- Only the depths of the lines count. -/
theorem written_congr {states states' : List Bool} (h : ∀ l ∈ d.lines, d.inside l = true →
    d.depthAt states l.index = d.depthAt states' l.index) :
    d.written u states = d.written u states' := by
  unfold written
  rw [List.map_congr_left fun l hl => ?_]
  unfold writtenLine
  split
  · rename_i hin
    rw [h l hl hin]
  · rfl

theorem Written.written_written (hs : d.style.Tidy) (hw : d.Written u)
    (states states' : List Bool) :
    (d.written u states).written u states' = d.written u states' := by
  have hline : ∀ l ∈ d.lines, (d.written u states).writtenLine u states'
      (d.writtenLine u states l) = d.writtenLine u states' l := by
    intro l hl
    have hinside := hw.inside_writtenLine hs states hl
    rw [writtenLine, hinside]
    cases hin : d.inside l with
    | false => simp [writtenLine, hin]
    | true => simp [writtenLine, hin, written, depthAt, containing, spaced]
  have hlines : (d.lines.map (d.writtenLine u states)).map
      ((d.written u states).writtenLine u states') = d.lines.map (d.writtenLine u states') := by
    rw [List.map_map]
    exact List.map_congr_left hline
  exact congrArg (fun ls => ({ d with lines := ls } : Document)) hlines

end Lines

end Document

end CommentToggle
