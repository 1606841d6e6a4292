import CommentToggle.Proofs.Document.Reading

/-!
Texts and lists of lines determine each other. The lists that occur are those in which no
body holds a line end, only the last line goes without a terminator and then has a body, and
no CR stands before an empty line that ends in LF. Reading and putting together are inverse
to each other between texts and these lists, and a document gives back the text it was made
from, whatever its style.
-/
namespace CommentToggle

namespace Text

/-- The lists of lines that texts are divided into. -/
structure Divided (ls : List RawLine) : Prop where
  unbroken : ∀ l ∈ ls, Unbroken l.body
  ended : Ended ls
  last : ∀ l ∈ ls.getLast?, l.terminator = .absent → l.body ≠ []
  unjoined : ls.IsChain fun l m => ¬ (l.terminator = .cr ∧ m.body = [] ∧ m.terminator = .lf)

/-- Lines stand apart when each two neighbours and the last one do. -/
theorem apart_iff {ls : List RawLine} : Apart ls ↔ Ended ls ∧
    (∀ l ∈ ls.getLast?, l.terminator = .absent → l.body ≠ []) ∧
    ls.IsChain fun l m => ¬ (l.terminator = .cr ∧ m.body = [] ∧ m.terminator = .lf) := by
  induction ls with
  | nil => simp [Apart, Ended]
  | cons l ls ih =>
    cases ls with
    | nil => simp [Apart, Ended]
    | cons m rest =>
      have hended : Ended (l :: m :: rest) ↔ l.terminator ≠ .absent ∧ Ended (m :: rest) := by
        simp [Ended]
      rw [Apart, ih, hended, List.getLast?_cons_cons, List.isChain_cons_cons]
      tauto

theorem divided_iff {ls : List RawLine} :
    Divided ls ↔ (∀ l ∈ ls, Unbroken l.body) ∧ Apart ls := by
  rw [apart_iff]
  constructor
  · exact fun h => ⟨h.unbroken, h.ended, h.last, h.unjoined⟩
  · intro h
    obtain ⟨hunbroken, hended, hlast, hunjoined⟩ := h
    exact ⟨hunbroken, hended, hlast, hunjoined⟩

instance (ls : List RawLine) : Decidable (Divided ls) := decidable_of_iff _ divided_iff.symm

theorem divided_lines (t : Text) : Divided (lines t) :=
  divided_iff.mpr ⟨fun _ hl => unbroken_lines hl, apart_lines t⟩

/-- No other lines than those that are read make up the text. -/
theorem lines_eq_iff {t : Text} {ls : List RawLine} :
    lines t = ls ↔ Divided ls ∧ ofLines ls = t := by
  constructor
  · intro h
    subst h
    exact ⟨divided_lines t, ofLines_lines t⟩
  · intro h
    obtain ⟨hdivided, rfl⟩ := h
    obtain ⟨hunbroken, hapart⟩ := divided_iff.mp hdivided
    exact lines_ofLines hunbroken hapart

end Text

open Text

/-- The lines of a text as they stand, before anything is looked for on them. -/
def Document.plain (s : Style) (t : Text) : Document := ⟨s, Line.ofText t, [], [], []⟩

theorem Document.render_plain (s : Style) (t : Text) :
    (plain s t).render ((plain s t).lines.map Line.body) = t := by
  have h := render_map (plain s t) id fun _ _ => rfl
  rw [List.map_id] at h
  exact h.trans (by rw [plain, Line.map_raw_ofText, ofLines_lines])

/-- Reading the lines of a text and putting lines together are inverse to each other, between
all texts and the lists that are divided as a text is; and a document of any style gives back
the text of its lines. -/
theorem Text.lines_bijective :
    (∀ t, ofLines (lines t) = t) ∧
    (∀ ls, Divided ls → lines (ofLines ls) = ls) ∧
    (∀ t, Divided (lines t)) ∧
    ∀ s t, (Document.plain s t).render ((Document.plain s t).lines.map Line.body) = t :=
  ⟨ofLines_lines, fun _ h => lines_eq_iff.mpr ⟨h, rfl⟩, divided_lines, Document.render_plain⟩

/-- All four ends of a line; a CR before an empty line that ends in CR LF. -/
theorem Text.lines_bijective_mixed :
    Divided [⟨"a".toList, .cr⟩, ⟨[], .crlf⟩, ⟨[], .lf⟩, ⟨"b".toList, .absent⟩] ∧
    lines "a\r\r\n\nb".toList =
      [⟨"a".toList, .cr⟩, ⟨[], .crlf⟩, ⟨[], .lf⟩, ⟨"b".toList, .absent⟩] := by
  have hdivided : Divided [⟨"a".toList, .cr⟩, ⟨[], .crlf⟩, ⟨[], .lf⟩, ⟨"b".toList, .absent⟩] := by
    decide
  exact ⟨hdivided, lines_bijective.2.1 _ hdivided⟩

end CommentToggle
