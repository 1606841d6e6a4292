import CommentToggle.Detect
import CommentToggle.Proofs.Style.Trimmed
import CommentToggle.Proofs.Text.SmallLetters

/-!
Styles found in the comment table. A name is put in small letters before it is looked up, and
the keys of the table are taken as they are written. So an entry is found under each spelling of
its key that differs in capitals only, if the key has none itself; and an entry whose key has a
capital is found by no name at all.
-/
namespace CommentToggle

open Text

theorem Text.lower_eq_nil_iff {t : Text} : lower t = [] ↔ t = [] := by
  constructor
  · intro h
    cases t with
    | nil => rfl
    | cons c rest =>
      rw [lower, lowerFrom, List.append_eq_nil_iff] at h
      obtain ⟨hsmall, -⟩ := h
      split at hsmall
      · cases hsmall
      · split at hsmall
        · split at hsmall <;> cases hsmall
        · cases hsmall
  · intro h
    rw [h]
    rfl

namespace Detect

/-- A kind of source text that has a name, and no empty name beside it. -/
def Lexer.Named (l : Lexer) : Prop := [] ∉ l.name :: l.aliases

/-- The names under which an entry may be looked up. -/
inductive Asked (lexers : Text → Option Lexer) : Text → Prop
  | given {name : Text} : name ≠ [] → Asked lexers name
  | lexer {file name : Text} {l : Lexer} : lexers file = some l → name ∈ l.name :: l.aliases →
      Asked lexers (lower name)

variable {comments formats : Value} {entries : Table} {lexers : Text → Option Lexer}
  {name key file : Text} {s : Style}

theorem given_eq_some_iff {o : Option Text} {t : Text} : given o = some t ↔ o = some t ∧ t ≠ [] := by
  simp [given, Option.filter_eq_some_iff]

/-- The entry is the one whose key is the name in small letters. -/
theorem fromTable_iff : (fromTable (.table entries) name).outcome = .ok (some s) ↔
    ∃ entry, Table.get? entries (lower name) = some (.table entry) ∧
      Style.Gives (lower name) entry s := by
  unfold fromTable
  rw [Logged.outcome_bind_eq_ok_iff]
  constructor
  · intro h
    obtain ⟨found, hfound, h⟩ := h
    obtain rfl := Except.ok.inj hfound
    split at h
    · rename_i entry hentry
      exact ⟨entry, hentry, Logged.outcome_eq_iff.mp h⟩
    · cases h
  · intro h
    obtain ⟨entry, hentry, hstyle⟩ := h
    refine ⟨entries, rfl, ?_⟩
    rw [hentry]
    exact Logged.outcome_eq_iff.mpr hstyle

theorem name_of_fromTable (h : (fromTable comments name).outcome = .ok (some s)) :
    s.name = lower name := by
  cases comments with
  | table entries =>
    obtain ⟨entry, -, hstyle⟩ := fromTable_iff.mp h
    exact (Style.of_readEntry (Style.gives_iff.mp hstyle)).1
  | _ => cases h

theorem exists_of_fromFormat (h : (fromFormat comments formats key).outcome = .ok (some s)) :
    ∃ name, name ≠ [] ∧ (fromTable comments name).outcome = .ok (some s) := by
  obtain ⟨found, hfound, h⟩ := Logged.outcome_bind_eq_ok_iff.mp h
  cases found with
  | none => cases h
  | some name =>
    refine ⟨name, ?_, h⟩
    change (lookupFormat formats key).mapError _ = _ at hfound
    cases hlookup : lookupFormat formats key with
    | error e =>
      rw [hlookup] at hfound
      cases hfound
    | ok found =>
      rw [hlookup] at hfound
      obtain rfl := Except.ok.inj hfound
      obtain ⟨entries, -, hgiven⟩ := Outcome.bind_eq_ok_iff.mp hlookup
      exact (given_eq_some_iff.mp (Except.ok.inj hgiven)).2

theorem exists_of_fromKeys {lexer : Text} {keys : List Text}
    (h : (fromKeys comments lexer file keys).outcome = .ok (some s)) :
    ∃ key ∈ keys, (fromTable comments key).outcome = .ok (some s) := by
  induction keys with
  | nil => cases h
  | cons key rest ih =>
    obtain ⟨found, hfound, h⟩ := Logged.outcome_bind_eq_ok_iff.mp h
    cases found with
    | some s' =>
      obtain rfl := Option.some.inj (Except.ok.inj h)
      exact ⟨key, List.mem_cons_self, hfound⟩
    | none =>
      obtain ⟨key', hkey', hstyle⟩ := ih h
      exact ⟨key', List.mem_cons_of_mem key hkey', hstyle⟩

theorem exists_of_fromLexer (h : (fromLexer comments lexers file).outcome = .ok (some s)) :
    ∃ l, lexers file = some l ∧
      ∃ name ∈ l.name :: l.aliases, (fromTable comments (lower name)).outcome = .ok (some s) := by
  unfold fromLexer at h
  split at h
  · cases h
  · rename_i l hl
    obtain ⟨key, hkey, hstyle⟩ := exists_of_fromKeys h
    rw [← List.map_cons] at hkey
    obtain ⟨name, hname, rfl⟩ := List.mem_map.mp hkey
    exact ⟨l, hl, name, hname, hstyle⟩

theorem exists_of_byName (hname : name ≠ [])
    (h : (byName comments formats name).outcome = .ok s) :
    ∃ name, name ≠ [] ∧ (fromTable comments name).outcome = .ok (some s) := by
  rcases (Logged.outcome_first_iff (by exact fun _ => rfl)).mp h with hfound | ⟨-, h⟩
  · exact ⟨name, hname, hfound⟩
  · rcases (Logged.outcome_first_iff (by exact fun _ => rfl)).mp h with hfound | ⟨-, h⟩
    · exact exists_of_fromFormat hfound
    · cases h

theorem exists_of_byExtension (h : (byExtension comments formats file).outcome = .ok (some s)) :
    ∃ name, name ≠ [] ∧ (fromTable comments name).outcome = .ok (some s) := by
  unfold byExtension at h
  split at h
  · cases h
  · exact exists_of_fromFormat h

theorem exists_of_byPath {path : Text}
    (h : (byPath comments formats lexers path).outcome = .ok s) :
    ∃ name, Asked lexers name ∧ (fromTable comments name).outcome = .ok (some s) := by
  rcases (Logged.outcome_first_iff (by exact fun _ => rfl)).mp h with hfound | ⟨-, h⟩
  · obtain ⟨name, hname, hstyle⟩ := exists_of_fromFormat hfound
    exact ⟨name, .given hname, hstyle⟩
  · rcases (Logged.outcome_first_iff (by exact fun _ => rfl)).mp h with hfound | ⟨-, h⟩
    · obtain ⟨name, hname, hstyle⟩ := exists_of_byExtension hfound
      exact ⟨name, .given hname, hstyle⟩
    · rcases (Logged.outcome_first_iff (by exact fun _ => rfl)).mp h with hfound | ⟨-, h⟩
      · obtain ⟨l, hl, name, hname, hstyle⟩ := exists_of_fromLexer hfound
        exact ⟨_, .lexer hl hname, hstyle⟩
      · cases h

section Table

variable {config entries entry : Table} {n : Text} {q : Question}

/-- Without a leader of its own, a question is answered from the table. -/
theorem exists_of_detect (hcomments : Table.get? config "comments".toList = some (.table entries))
    (hleader : given q.leader = none) (h : (detect config lexers q).outcome = .ok s) :
    ∃ name, Asked lexers name ∧ (fromTable (.table entries) name).outcome = .ok (some s) := by
  unfold detect at h
  rw [hcomments] at h
  split at h
  · rename_i leader _ hsome
    rw [hleader] at hsome
    cases hsome
  · rename_i name _ _ hname
    obtain ⟨name, hne, hstyle⟩ := exists_of_byName (given_eq_some_iff.mp hname).2 h
    exact ⟨name, .given hne, hstyle⟩
  · split at h
    · cases h
    · exact exists_of_byPath h
  · cases h

/-- A name that is found in the table itself is looked for no further. -/
theorem detect_of_fromTable (hcomments : Table.get? config "comments".toList = some (.table entries))
    (hleader : given q.leader = none) (hname : given q.styleName = some name)
    (h : (fromTable (.table entries) name).outcome = .ok (some s)) :
    (detect config lexers q).outcome = .ok s := by
  unfold detect
  rw [hcomments, hleader, hname]
  exact Logged.outcome_bind_eq_ok_iff.mpr ⟨some s, h, rfl⟩

/-- The style of an entry is found by name, in whatever capitals the name is given, exactly when
the key of the entry has none. If it has one, or if it is empty and so is the name of no lexer,
no question but one with a leader is answered by that style. -/
theorem detect_named_iff (lexers : Text → Option Lexer)
    (hcomments : Table.get? config "comments".toList = some (.table entries))
    (hentry : Table.get? entries n = some (.table entry))
    (hstyle : Style.Gives n entry s) :
    (∀ q m, given q.leader = none → given q.styleName = some m → lower m = lower n →
      ((detect config lexers q).outcome = .ok s ↔ lower n = n)) ∧
    (lower n ≠ n ∨ n = [] ∧ (∀ file l, lexers file = some l → l.Named) →
      ∀ q, given q.leader = none → (detect config lexers q).outcome ≠ .ok s) := by
  have hname : s.name = n := (Style.of_readEntry (Style.gives_iff.mp hstyle)).1
  have hasked (q : Question) (hleader : given q.leader = none)
      (h : (detect config lexers q).outcome = .ok s) : ∃ name, Asked lexers name ∧ lower name = n := by
    obtain ⟨name, hname', hfound⟩ := exists_of_detect hcomments hleader h
    exact ⟨name, hname', (name_of_fromTable hfound).symm.trans hname⟩
  have hsmall (q : Question) (hleader : given q.leader = none)
      (h : (detect config lexers q).outcome = .ok s) : lower n = n := by
    obtain ⟨name, -, rfl⟩ := hasked q hleader h
    exact lower_lower name
  refine ⟨fun q m hleader hm hspelled => ⟨hsmall q hleader, fun hn => ?_⟩, ?_⟩
  · refine detect_of_fromTable hcomments hleader hm (fromTable_iff.mpr ⟨entry, ?_⟩)
    rw [hspelled, hn]
    exact ⟨hentry, hstyle⟩
  · intro hunfit q hleader h
    rcases hunfit with hcapital | ⟨hempty, hlexers⟩
    · exact hcapital (hsmall q hleader h)
    · obtain ⟨name, hname', hlower⟩ := hasked q hleader h
      rw [hempty, lower_eq_nil_iff] at hlower
      cases hname' with
      | given hne => exact hne hlower
      | lexer hl hmem =>
        rw [lower_eq_nil_iff] at hlower
        exact hlexers _ _ hl (hlower ▸ hmem)

end Table

/-- One key in small letters and one with a capital. -/
def spelledEntries : Table :=
  [("asm".toList, .table [("line_prefix".toList, .text ";".toList)]),
   ("Forth".toList, .table [("line_prefix".toList, .text "\\ ".toList)])]

def spelledConfig : Table := [("comments".toList, .table spelledEntries)]

def asm : Style := ⟨"asm".toList, [";".toList], none, by decide⟩

def forth : Style := ⟨"Forth".toList, ["\\".toList], none, by decide⟩

/-- The first is found in capitals too, the second by no spelling and for no path. -/
theorem detect_named_asm :
    (detect spelledConfig (fun _ => none)
      ⟨some "notes.txt".toList, some "ASM".toList, none, none⟩).outcome = .ok asm ∧
    ∀ q, given q.leader = none →
      (detect spelledConfig (fun _ => none) q).outcome ≠ .ok forth := by
  have hcomments : Table.get? spelledConfig "comments".toList = some (.table spelledEntries) := rfl
  have hasm := detect_named_iff (n := "asm".toList) (s := asm) (fun _ => none) hcomments rfl
    (Style.gives_iff.mpr rfl)
  have hforth := detect_named_iff (n := "Forth".toList) (s := forth) (fun _ => none) hcomments rfl
    (Style.gives_iff.mpr rfl)
  constructor
  · refine (hasm.1 _ "ASM".toList rfl rfl ?_).mpr ?_
    · decide +kernel
    · decide +kernel
  · exact hforth.2 (Or.inl (by decide +kernel))

end Detect

end CommentToggle
