import CommentToggle.Proofs.Config.Overlay
import CommentToggle.Proofs.Detect.Naming
import CommentToggle.Proofs.Style.Typed

/-!
What the answer to a question is like. Where the entries of the comment table are of the kinds
that are meant, no look-up fails; so a question without a leader is answered by the style of an
entry, well formed and under the entry's own key, or else it is said that what was asked for is
unsupported. Nothing else comes of it.
-/
namespace CommentToggle

namespace Detect

open Text

/-- What a question without a leader asks about: a named style, else a file that has a name. -/
def Question.subject (q : Question) : Option Text :=
  (given q.styleName).or ((given q.path).filter (· ≠ ['-']))

/-- The comment table and the table of formats, empty where they are missing; the entries of the
first are of the kinds that are meant. -/
structure WellTyped (config entries formats : Table) : Prop where
  comments : (Table.get? config "comments".toList).getD (.table []) = .table entries
  names : (Table.get? config "supported_formats".toList).getD (.table []) = .table formats
  typed : ∀ n entry, Table.get? entries n = some (.table entry) → Style.Typed entry

theorem succeeds_of_typed {entry : Table} (h : Style.Typed entry) (name : Text) :
    Logged.Succeeds <| Style.ofEntry? name entry := by
  obtain ⟨found, hfound, -⟩ := Style.readEntry_of_typed h name
  unfold Style.ofEntry?
  rw [hfound]
  cases found with
  | none => exact ⟨none, rfl⟩
  | some s => exact ⟨some s, rfl⟩

section Total

variable {entries : Table}
  (htyped : ∀ n entry, Table.get? entries n = some (.table entry) → Style.Typed entry)
  (formats : Table) (lexers : Text → Option Lexer) (file : Text)

include htyped

theorem succeeds_fromTable (name : Text) : (fromTable (.table entries) name).Succeeds := by
  refine Logged.Succeeds.bind ⟨entries, rfl⟩ fun found hfound => ?_
  obtain rfl := Except.ok.inj hfound
  split
  · rename_i entry hentry
    exact succeeds_of_typed (htyped _ entry hentry) (lower name)
  · exact ⟨none, rfl⟩

theorem succeeds_fromFormat (key : Text) :
    (fromFormat (.table entries) (.table formats) key).Succeeds := by
  refine Logged.Succeeds.bind ⟨_, rfl⟩ fun found _ => ?_
  cases found with
  | none => exact ⟨none, rfl⟩
  | some name => exact succeeds_fromTable htyped name

theorem succeeds_fromKeys (lexer : Text) (keys : List Text) :
    (fromKeys (.table entries) lexer file keys).Succeeds := by
  induction keys with
  | nil => exact ⟨none, rfl⟩
  | cons key rest ih =>
    refine Logged.Succeeds.bind (succeeds_fromTable htyped key) fun found _ => ?_
    cases found with
    | none => exact ih
    | some s => exact ⟨some s, rfl⟩

theorem succeeds_fromLexer : (fromLexer (.table entries) lexers file).Succeeds := by
  unfold fromLexer
  split
  · exact ⟨none, rfl⟩
  · exact succeeds_fromKeys htyped file ..

theorem succeeds_byExtension : (byExtension (.table entries) (.table formats) file).Succeeds := by
  unfold byExtension
  split
  · exact ⟨none, rfl⟩
  · exact succeeds_fromFormat htyped ..

/-- A name that leads to no style is unsupported. -/
theorem succeedsOr_byName (name : Text) : (byName (.table entries) (.table formats) name).SucceedsOr
    (.fault (.unsupportedStyle (some name))) := by
  refine .first (succeeds_fromTable htyped name) (fun _ => rfl) ?_
  refine .first (succeeds_fromFormat htyped formats _) (fun _ => rfl) ?_
  exact Or.inr rfl

/-- A path that leads to no style is unsupported. -/
theorem succeedsOr_byPath (path : Text) :
    (byPath (.table entries) (.table formats) lexers path).SucceedsOr
      (.fault (.unsupportedStyle (some path))) := by
  refine .first (succeeds_fromFormat htyped formats (baseName path)) (fun _ => rfl) ?_
  refine .first (succeeds_byExtension htyped formats (baseName path)) (fun _ => rfl) ?_
  refine .first (succeeds_fromLexer htyped lexers (baseName path)) (fun _ => rfl) ?_
  exact Or.inr rfl

end Total

variable {config entries formats : Table} {lexers : Text → Option Lexer} {q : Question} {s : Style}

theorem succeedsOr_detect (h : WellTyped config entries formats) (lexers : Text → Option Lexer)
    (hleader : given q.leader = none) :
    (detect config lexers q).SucceedsOr (.fault (.unsupportedStyle q.subject)) := by
  unfold detect Question.subject
  rw [h.comments, h.names, hleader]
  cases given q.styleName with
  | some name => exact succeedsOr_byName h.typed formats name
  | none =>
    cases given q.path with
    | none => exact Or.inr rfl
    | some path =>
      by_cases hinput : path = ['-']
      · rw [hinput]
        exact Or.inr rfl
      · have hsubject : (none : Option Text).or ((some path).filter (· ≠ ['-'])) = some path := by
          simp [Option.filter, hinput]
        change Logged.SucceedsOr (if path = ['-'] then _ else _) _
        rw [if_neg hinput, hsubject]
        exact succeedsOr_byPath h.typed formats lexers path

/-- A style that is found is the one of an entry. -/
theorem exists_entry_of_detect (h : WellTyped config entries formats)
    (hleader : given q.leader = none) (hstyle : (detect config lexers q).outcome = .ok s) :
    ∃ name, (fromTable (.table entries) name).outcome = .ok (some s) := by
  unfold detect at hstyle
  rw [h.comments, hleader] at hstyle
  cases hname : given q.styleName with
  | some name =>
    rw [hname] at hstyle
    obtain ⟨name, -, hfound⟩ := exists_of_byName (given_eq_some_iff.mp hname).2 hstyle
    exact ⟨name, hfound⟩
  | none =>
    rw [hname] at hstyle
    cases hpath : given q.path with
    | none =>
      rw [hpath] at hstyle
      cases hstyle
    | some path =>
      rw [hpath] at hstyle
      change Logged.outcome (if path = ['-'] then _ else _) = _ at hstyle
      split at hstyle
      · cases hstyle
      · obtain ⟨name, -, hfound⟩ := exists_of_byPath hstyle
        exact ⟨name, hfound⟩

/-- Where the entries are of the kinds that are meant, a question without a leader ends in one of
two ways. What it asks for is unsupported; or it is answered by the style that an entry gives
under its own key, with leaders and a closer that are not empty and have no white space around
them. And an entry gives a style whenever it leaves the parts of one. -/
theorem detect_wellFormed (h : WellTyped config entries formats)
    (lexers : Text → Option Lexer) (q : Question) (hleader : given q.leader = none) :
    ((detect config lexers q).outcome = .error (.fault (.unsupportedStyle q.subject)) ∨
      ∃ s entry, (detect config lexers q).outcome = .ok s ∧
        Table.get? entries s.name = some (.table entry) ∧ Style.Gives s.name entry s ∧
        s.leaders ≠ [] ∧ (∀ p ∈ s.leaders, p ≠ [] ∧ trim p = p) ∧
        ∀ c ∈ s.closer, c ≠ [] ∧ trim c = c) ∧
    ∀ n entry, Table.get? entries n = some (.table entry) → ∃ found,
      Style.readEntry n entry = .ok found ∧ found.map Style.parts = Style.partsOf? entry := by
  constructor
  · rcases succeedsOr_detect h lexers hleader with ⟨s, hstyle⟩ | hunsupported
    · right
      obtain ⟨name, hfound⟩ := exists_entry_of_detect h hleader hstyle
      obtain ⟨entry, hentry, hgives⟩ := fromTable_iff.mp hfound
      have htrimmed : s.Trimmed := Style.trimmed_of_readEntry (Style.gives_iff.mp hgives)
      rw [← name_of_fromTable hfound] at hentry hgives
      exact ⟨s, entry, hstyle, hentry, hgives, s.usable.1,
        fun p hp => ⟨Style.ne_nil_of_mem_leaders hp, htrimmed.leader p hp⟩, htrimmed.closer⟩
    · exact Or.inl hunsupported
  · exact fun n entry hentry => Style.readEntry_of_typed (h.typed n entry hentry) n

/-- Entries that are blank in part, and one that is blank altogether. -/
def blankEntries : Table :=
  [("css".toList, .table [("line_prefix".toList, .list [.text [], .text " ".toList]),
      ("block_delims".toList, .list [.text "/* ".toList, .text " */".toList])]),
    ("ini".toList, .table [("line_prefix".toList, .list [.text "\t".toList, .text "; ".toList])]),
    ("notes".toList, .table [("line_prefix".toList, .text " ".toList),
      ("block_delims".toList, .list [.text "(*".toList, .text []])])]

def blankFormats : Table := [("notes".toList, .list [.text "TXT".toList])]

def blankConfig : Table :=
  [("comments".toList, .table blankEntries), ("supported_formats".toList, .table blankFormats)]

theorem wellTyped_blank : WellTyped blankConfig blankEntries blankFormats where
  comments := rfl
  names := rfl
  typed := by
    intro n entry hentry
    have hmem := Table.mem_of_get? hentry
    rcases List.mem_cons.mp hmem with h | hmem
    · cases h
      constructor
      · intro v hv
        exact Or.inr ⟨[[], " ".toList], (Option.some.inj hv).symm⟩
      · intro v hv
        exact ⟨["/* ".toList, " */".toList], (Option.some.inj hv).symm⟩
    rcases List.mem_cons.mp hmem with h | hmem
    · cases h
      constructor
      · intro v hv
        exact Or.inr ⟨["\t".toList, "; ".toList], (Option.some.inj hv).symm⟩
      · intro v hv
        cases hv
    rcases List.mem_singleton.mp hmem with h
    cases h
    constructor
    · intro v hv
      exact Or.inl ⟨" ".toList, (Option.some.inj hv).symm⟩
    · intro v hv
      exact ⟨["(*".toList, []], (Option.some.inj hv).symm⟩

def iniLexer (file : Text) : Option Lexer :=
  if file = "a.txt".toList then some ⟨"INI".toList, ["cfg".toList]⟩ else none

def listedQuestion : Question := ⟨some "x/a.txt".toList, none, none, none⟩

def unknownQuestion : Question := ⟨some "b.txt".toList, none, none, none⟩

/-- The extension leads to the entry that is blank altogether, so the lexer is asked; where there
is none, the file is unsupported. -/
theorem detect_wellFormed_blank :
    WellTyped blankConfig blankEntries blankFormats ∧
    (∃ s entry, (detect blankConfig iniLexer listedQuestion).outcome = .ok s ∧
      Table.get? blankEntries s.name = some (.table entry) ∧ Style.Gives s.name entry s ∧
      s.leaders ≠ [] ∧ (∀ p ∈ s.leaders, p ≠ [] ∧ trim p = p) ∧
      ∀ c ∈ s.closer, c ≠ [] ∧ trim c = c) ∧
    (detect blankConfig iniLexer unknownQuestion).outcome =
      .error (.fault (.unsupportedStyle (some "b.txt".toList))) := by
  have hlisted : (detect blankConfig iniLexer listedQuestion).outcome.toOption.isSome = true := by
    decide +kernel
  have hunknown : (detect blankConfig iniLexer unknownQuestion).outcome.toOption.isNone = true := by
    decide +kernel
  refine ⟨wellTyped_blank, ?_, ?_⟩
  · refine (detect_wellFormed wellTyped_blank iniLexer listedQuestion rfl).1.resolve_left ?_
    intro herror
    rw [herror] at hlisted
    cases hlisted
  · refine (detect_wellFormed wellTyped_blank iniLexer unknownQuestion rfl).1.resolve_right ?_
    intro hfound
    obtain ⟨s, entry, hstyle, -⟩ := hfound
    rw [hstyle] at hunknown
    cases hunknown

end Detect

end CommentToggle
