import CommentToggle.Config.Defaults
import CommentToggle.Proofs.Layer.Cut
import CommentToggle.Proofs.Text.Pairing

/-!
Contents that are one comment from end to end. Taking a layer off pairs no delimiters: it
takes the first leader and the last closer of a line, whatever stands between them. A line
is one comment when the text between is paired in itself and does not run into the closer;
the layers that are written with spaces around such a text are, to any depth.
-/
namespace CommentToggle

open Text

/-- The style comes from an entry of the comment table. -/
def Style.FromTable (comments : Table) (s : Style) : Prop :=
  ∃ name entry, (name, Value.table entry) ∈ comments ∧ Style.readEntry name entry = .ok (some s)

def EndsInLetter (p : Text) : Prop := p.getLast?.any Char.isAlpha = true

instance (p : Text) : Decidable (EndsInLetter p) := inferInstanceAs (Decidable (_ = true))

/-- A leader that ends in a letter is not the beginning of a longer word. -/
def StandsAlone (p content : Text) : Prop :=
  EndsInLetter p → (content.drop p.length).head?.all isBlank = true

instance (p content : Text) : Decidable (StandsAlone p content) :=
  inferInstanceAs (Decidable (_ → _))

/-- One comment from its first to its last character that is no white space: the leader
stands alone, and the closer that ends the content is the one that closes it. -/
def Style.Whole (s : Style) (content : Text) : Prop :=
  ∃ p, s.leader? content = some p ∧ StandsAlone p content ∧
    ∀ q ∈ s.closer, Enclosed p q (trimEnd content)

/-- The closer is not read as the leader, and neither reaches over white space. -/
structure Style.Delimits (s : Style) (q : Text) : Prop where
  opener : Solid s.primary
  closer : Solid q
  apart : ¬ s.primary <+: q

instance (s : Style) (q : Text) : Decidable (s.Delimits q) :=
  decidable_of_iff (Solid s.primary ∧ Solid q ∧ ¬ s.primary <+: q)
    ⟨fun h => ⟨h.1, h.2.1, h.2.2⟩, fun h => ⟨h.opener, h.closer, h.apart⟩⟩

namespace Style

/-- An entry gives no style, or one whose delimiters can be told from each other. -/
def tellsApart : Text × Value → Bool
  | (name, .table entry) =>
    match readEntry name entry with
    | .ok (some s) => decide (∀ q ∈ s.closer, s.Delimits q)
    | _ => true
  | _ => true

theorem tellsApart_defaultComments : Config.defaultComments.all tellsApart = true := by
  decide +kernel

theorem FromTable.delimits {s : Style} {q : Text} (hs : s.FromTable Config.defaultComments)
    (hq : s.closer = some q) : s.Delimits q := by
  obtain ⟨name, entry, hmem, hread⟩ := hs
  have h := List.all_eq_true.mp tellsApart_defaultComments _ hmem
  simp only [tellsApart, hread, decide_eq_true_eq] at h
  exact h q hq

theorem FromTable.trimmed {s : Style} {comments : Table} (hs : s.FromTable comments) :
    s.Trimmed := by
  obtain ⟨_, _, _, hread⟩ := hs
  exact trimmed_of_readEntry hread

end Style

namespace Layer

section Spaced

variable {s : Style} {q u : Text} {ps : List Piece}

theorem reads_add (hq : s.closer = some q) (hd : s.Delimits q) (h : Reads s.primary q u ps) :
    Reads s.primary q (add s true u)
      (.opener :: (.other ' ' :: (ps ++ [.other ' ']) ++ [.closer])) := by
  have hclose : Reads s.primary q (q ++ []) [.closer] := .closer (by simpa using hd.apart) .nil
  have hend := h.append_blank hd.opener hd.closer (c := ' ') (by decide) hclose
  have hstart := Reads.append_blank hd.opener hd.closer (c := ' ') (by decide) .nil hend
  have hwhole := Reads.opener hstart
  simpa [add, hq] using hwhole

theorem trimEnd_add (hs : s.Trimmed) (hq : s.closer = some q) :
    trimEnd (add s true u) = add s true u := by
  have hend := trimEnd_append_of_flush (hs.flush_closer hq).2 (s.primary ++ ' ' :: (u ++ [' ']))
  simpa [add, hq] using hend

/-- A spaced layer around a paired text is one comment, and paired in its turn. -/
theorem enclosed_add (hq : s.closer = some q) (hd : s.Delimits q) (h : Paired s.primary q u) :
    Enclosed s.primary q (add s true u) ∧ Paired s.primary q (add s true u) := by
  obtain ⟨ps, hreads, hbalanced⟩ := h
  have hinside : Balanced (.other ' ' :: (ps ++ [.other ' '])) :=
    .other (hbalanced.append (.other .nil))
  have hadd := reads_add hq hd hreads
  exact ⟨⟨_, hadd, hinside⟩, _, hadd, .pair hinside .nil⟩

end Spaced

variable {s : Style} {content : Text}

theorem whole_add (hs : s.FromTable Config.defaultComments) {u : Text}
    (h : ∀ q ∈ s.closer, Paired s.primary q u) : s.Whole (add s true u) := by
  refine ⟨s.primary, ?_, fun _ => ?_, fun q hq => ?_⟩
  · rw [add_eq, Style.leader?_primary]
  · rw [add_eq, List.drop_left]
    rfl
  · rw [trimEnd_add hs.trimmed hq]
    exact (enclosed_add hq (hs.delimits hq) (h q hq)).1

theorem paired_addTimes (hs : s.FromTable Config.defaultComments) (n : Nat) {u : Text}
    (h : ∀ q ∈ s.closer, Paired s.primary q u) :
    ∀ q ∈ s.closer, Paired s.primary q (addTimes s true n u) := by
  induction n with
  | zero => exact h
  | succ n ih =>
    intro q hq
    rw [addTimes_succ]
    exact (enclosed_add hq (hs.delimits hq) (ih q hq)).2

/-- Behind a leader that stands alone, only the text between the delimiters counts. -/
theorem whole_iff {p : Text} (hs : s.Trimmed) (hlayer : (strip? s content).isSome = true)
    (hp : s.leader? content = some p) (halone : StandsAlone p content) : s.Whole content ↔
      ∀ q ∈ s.closer, ∃ inside ps, trimEnd content = p ++ (inside ++ q) ∧ Reads p q inside ps ∧
        Reads p q (inside ++ q) (ps ++ [.closer]) ∧ Balanced ps := by
  obtain ⟨p', hp', hclosed⟩ := (isSome_strip?_iff hs).mp hlayer
  obtain rfl := Option.some.inj (hp.symm.trans hp')
  constructor
  · rintro ⟨p', hp', -, henclosed⟩ q hq
    obtain rfl := Option.some.inj (hp.symm.trans hp')
    obtain ⟨inside, hend⟩ := hclosed q hq
    have h := henclosed q hq
    rw [hend, enclosed_append_iff] at h
    obtain ⟨ps, hreads⟩ := h
    exact ⟨inside, ps, hend, hreads⟩
  · intro h
    refine ⟨p, hp, halone, fun q hq => ?_⟩
    obtain ⟨inside, ps, hend, hreads⟩ := h q hq
    rw [hend]
    exact enclosed_append_iff.mpr ⟨ps, hreads⟩

/-- What is taken off is the first leader and the last closer, each with at most one space;
it is one comment exactly when the text between them is paired and ends before the closer
begins, and always when it was written with spaces around a paired text. -/
theorem strip?_whole_iff (hs : s.FromTable Config.defaultComments) (content : Text) :
    (∀ rest, strip? s content = some rest → Cut s content rest ∧
      ∀ p, s.leader? content = some p → StandsAlone p content →
        (s.Whole content ↔ ∀ q ∈ s.closer, ∃ inside ps, trimEnd content = p ++ (inside ++ q) ∧
          Reads p q inside ps ∧ Reads p q (inside ++ q) (ps ++ [.closer]) ∧ Balanced ps)) ∧
    ∀ n, (∀ q ∈ s.closer, Paired s.primary q content) →
      s.Whole (addTimes s true (n + 1) content) := by
  refine ⟨fun rest hrest => ⟨(strip?_eq_some_iff hs.trimmed).mp hrest, fun p hp halone => ?_⟩,
    fun n hpaired => ?_⟩
  · exact whole_iff hs.trimmed (Option.isSome_of_eq_some hrest) hp halone
  · rw [addTimes_succ]
    exact whole_add hs (paired_addTimes hs n hpaired)

theorem fromTable_slashStar : Directive.slashStar.FromTable Config.defaultComments :=
  ⟨"css".toList, [("block_delims".toList, .list [.text "/*".toList, .text "*/".toList])],
    List.mem_of_getElem? (i := 9) rfl, rfl⟩

/-- A comment around another one, then what two layers make of a statement. -/
theorem strip?_whole_slashStar : Directive.slashStar.FromTable Config.defaultComments ∧
    (strip? Directive.slashStar "/* a /* b */ c */ ".toList = some "a /* b */ c ".toList ∧
      Directive.slashStar.leader? "/* a /* b */ c */ ".toList = some "/*".toList ∧
      StandsAlone "/*".toList "/* a /* b */ c */ ".toList ∧
      Directive.slashStar.Whole "/* a /* b */ c */ ".toList) ∧
    Paired "/*".toList "*/".toList "p:x".toList ∧
      Directive.slashStar.Whole "/* /* p:x */ */".toList := by
  have hstrip : strip? Directive.slashStar "/* a /* b */ c */ ".toList =
    some "a /* b */ c ".toList := by decide
  have hleader : Directive.slashStar.leader? "/* a /* b */ c */ ".toList = some "/*".toList := by
    decide
  have halone : StandsAlone "/*".toList "/* a /* b */ c */ ".toList := by decide
  have hpaired : Paired "/*".toList "*/".toList "p:x".toList :=
    ⟨_, (reads_iff (by decide) (by decide)).mpr rfl, by decide⟩
  have hwhole := ((strip?_whole_iff fromTable_slashStar _).1 _ hstrip).2 _ hleader halone
  refine ⟨fromTable_slashStar, ⟨hstrip, hleader, halone, hwhole.mpr fun q hq => ?_⟩, hpaired, ?_⟩
  · obtain rfl := Option.some.inj hq
    exact ⟨" a /* b */ c ".toList, _, by decide, (reads_iff (by decide) (by decide)).mpr rfl,
      (reads_iff (by decide) (by decide)).mpr (by decide), by decide⟩
  · refine (strip?_whole_iff fromTable_slashStar "p:x".toList).2 1 fun q hq => ?_
    obtain rfl := Option.some.inj hq
    exact hpaired

/-- Line comments whose first leader is a word. -/
def batch : Style := ⟨"bat".toList, ["REM".toList, "::".toList], none, by decide⟩

theorem fromTable_batch : batch.FromTable Config.defaultComments :=
  ⟨"bat".toList, [("line_prefix".toList, .list [.text "REM ".toList, .text "::".toList])],
    List.mem_of_getElem? (i := 51) rfl, rfl⟩

/-- Two comments around a statement lose the first leader and the last closer, and a command
that begins with the letters of a leader loses these. -/
theorem strip?_not_whole :
    (Directive.slashStar.FromTable Config.defaultComments ∧
      strip? Directive.slashStar "/* a */ b /* c */".toList = some "a */ b /* c".toList ∧
      ¬ Directive.slashStar.Whole "/* a */ b /* c */".toList) ∧
    batch.FromTable Config.defaultComments ∧
      strip? batch "REMOVE x".toList = some "OVE x".toList ∧ ¬ batch.Whole "REMOVE x".toList := by
  refine ⟨⟨fromTable_slashStar, by decide, ?_⟩, fromTable_batch, by decide, ?_⟩
  · rintro ⟨p, hp, -, henclosed⟩
    have hleader : Directive.slashStar.leader? "/* a */ b /* c */".toList = some "/*".toList := by
      decide
    obtain rfl := Option.some.inj (hleader.symm.trans hp)
    have h := henclosed "*/".toList rfl
    have hend : trimEnd "/* a */ b /* c */".toList =
        "/*".toList ++ (" a */ b /* c ".toList ++ "*/".toList) := by decide
    rw [hend, enclosed_append_iff] at h
    obtain ⟨ps, hreads, -, hbalanced⟩ := h
    obtain rfl := (reads_iff (by decide) (by decide)).mp hreads
    exact absurd hbalanced (by decide)
  · rintro ⟨p, hp, hword, -⟩
    have hleader : batch.leader? "REMOVE x".toList = some "REM".toList := by decide
    obtain rfl := Option.some.inj (hleader.symm.trans hp)
    exact absurd (hword (by decide)) (by decide)

end Layer

end CommentToggle
