import CommentToggle.Proofs.Outcome
import CommentToggle.Proofs.Text.Words
import CommentToggle.Style.Entry

/-!
Styles without white space around their leaders and their closer. Every style that the
comment table gives is one, whatever space its entry has around them.
-/
namespace CommentToggle

open Text

namespace Text

theorem trimEnd_trimEnd (t : Text) : trimEnd (trimEnd t) = trimEnd t := by
  simp only [trimEnd, List.reverse_reverse]
  exact congrArg List.reverse (trimStart_trimStart t.reverse)

/-- A text that begins with no white space and is not empty keeps its beginning. -/
theorem flush_trimEnd {t : Text} (h : Flush t) : Flush (trimEnd t) := by
  obtain ⟨gap, hgap, htext⟩ := exists_gap t
  obtain ⟨c, rest, rfl, hc⟩ := h
  cases hend : trimEnd (c :: rest) with
  | nil =>
    rw [hend, List.nil_append] at htext
    have hblank := hgap c (htext ▸ List.mem_cons_self)
    rw [hc] at hblank
    cases hblank
  | cons d tail =>
    rw [hend, List.cons_append, List.cons.injEq] at htext
    exact flush_cons.mpr (htext.1 ▸ hc)

theorem trim_trim (t : Text) : trim (trim t) = trim t := by
  change trimEnd (trimStart (trimEnd (trimStart t))) = trimEnd (trimStart t)
  rcases flush_trimStart t with hnil | hflush
  · rw [hnil]
    rfl
  · rw [(flush_trimEnd hflush).trimStart, trimEnd_trimEnd]

/-- Behind what ends in no white space, only the rest is trimmed. -/
theorem trimEnd_append_flush {p : Text} (h : Flush p.reverse) (t : Text) :
    trimEnd (p ++ t) = p ++ trimEnd t := by
  obtain ⟨gap, hgap, htext⟩ := exists_gap t
  have hsame : trimEnd (p ++ t) = trimEnd (p ++ trimEnd t) := by
    conv_lhs => rw [htext, ← List.append_assoc]
    exact trimEnd_append_gap hgap _
  rw [hsame]
  by_cases hnil : trimEnd t = []
  · have hend := trimEnd_append_of_flush h []
    rw [List.nil_append] at hend
    rw [hnil, List.append_nil, hend]
  · exact trimEnd_append_of_flush (flush_reverse_of_trimEnd hnil (trimEnd_trimEnd t)) p

end Text

namespace Style

/-- No leader and no closer begins or ends with white space, and the closer is not empty. -/
structure Trimmed (s : Style) : Prop where
  leader : ∀ p ∈ s.leaders, trim p = p
  closer : ∀ q ∈ s.closer, q ≠ [] ∧ trim q = q

instance (s : Style) : Decidable s.Trimmed :=
  decidable_of_iff ((∀ p ∈ s.leaders, trim p = p) ∧ ∀ q ∈ s.closer, q ≠ [] ∧ trim q = q)
    ⟨fun h => ⟨h.1, h.2⟩, fun h => ⟨h.leader, h.closer⟩⟩

section Trimmed

variable {s : Style} {p q : Text}

theorem Trimmed.flush_leader (h : s.Trimmed) (hp : p ∈ s.leaders) : Flush p ∧ Flush p.reverse :=
  flush_of_trim (ne_nil_of_mem_leaders hp) (h.leader p hp)

theorem Trimmed.flush_closer (h : s.Trimmed) (hq : s.closer = some q) :
    Flush q ∧ Flush q.reverse := by
  obtain ⟨hne, htrim⟩ := h.closer q hq
  exact flush_of_trim hne htrim

end Trimmed

theorem ofParts?_eq_some {name : Text} {leaders : List Text} {closer : Option Text} {s : Style}
    (h : ofParts? name leaders closer = some s) :
    s.name = name ∧ s.leaders = leaders ∧ s.closer = closer := by
  unfold ofParts? at h
  split at h
  · cases h
    exact ⟨rfl, rfl, rfl⟩
  · cases h

theorem trim_of_mem_trimmed {ts : List Text} {p : Text} (h : p ∈ trimmed ts) : trim p = p := by
  obtain ⟨hmem, -⟩ := List.mem_filter.mp h
  obtain ⟨t, -, rfl⟩ := List.mem_map.mp hmem
  exact trim_trim t

/-- The leaders are those of a list and stand alone, or there is one pair of delimiters. -/
inductive Shaped (s : Style) : Prop
  | leaders {ts : List Text} : s.leaders = trimmed ts → s.closer = none → Shaped s
  | delimiters {opener closer : Text} : s.leaders = [trim opener] →
      s.closer = some (trim closer) → trim closer ≠ [] → Shaped s

theorem of_ofLeaders? {name : Text} {v : Value} {s : Style}
    (h : ofLeaders? name v = .ok (some s)) : s.name = name ∧ s.Shaped := by
  unfold ofLeaders? at h
  split at h
  · obtain ⟨ts, -, hstyle⟩ := Outcome.bind_eq_ok_iff.mp h
    obtain ⟨hname, hleaders, hcloser⟩ := ofParts?_eq_some (Except.ok.inj hstyle)
    exact ⟨hname, .leaders hleaders hcloser⟩
  · cases h

theorem of_ofDelimiters? {name : Text} {v : Value} {s : Style}
    (h : ofDelimiters? name v = .ok (some s)) : s.name = name ∧ s.Shaped := by
  unfold ofDelimiters? at h
  split at h
  · split at h
    · cases h
    · split at h
      · cases h
      · rename_i hne
        obtain ⟨hname, hleaders, hcloser⟩ := ofParts?_eq_some (Except.ok.inj h)
        exact ⟨hname, .delimiters hleaders hcloser (by simpa using hne)⟩
    · cases h
  · cases h

/-- A style has the name of its entry, and one of the two shapes. -/
theorem of_readEntry {name : Text} {entry : Table} {s : Style}
    (h : readEntry name entry = .ok (some s)) : s.name = name ∧ s.Shaped := by
  unfold readEntry at h
  obtain ⟨found, hfound, h⟩ := Outcome.bind_eq_ok_iff.mp h
  cases found with
  | some s' =>
    obtain rfl := Option.some.inj (Except.ok.inj h)
    exact of_ofLeaders? hfound
  | none => exact of_ofDelimiters? h

theorem Shaped.trimmed {s : Style} (h : s.Shaped) : s.Trimmed := by
  cases h with
  | leaders hleaders hcloser =>
    constructor
    · intro p hp
      exact trim_of_mem_trimmed (hleaders ▸ hp)
    · intro q hq
      rw [hcloser] at hq
      cases hq
  | delimiters hleaders hcloser hne =>
    constructor
    · intro p hp
      rw [hleaders, List.mem_singleton] at hp
      exact hp ▸ trim_trim _
    · intro q hq
      rw [hcloser] at hq
      obtain rfl := Option.some.inj hq
      exact ⟨hne, trim_trim _⟩

/-- Space around the leaders and the delimiters of an entry does not reach the style. -/
theorem trimmed_of_readEntry {name : Text} {entry : Table} {s : Style}
    (h : readEntry name entry = .ok (some s)) : s.Trimmed :=
  (of_readEntry h).2.trimmed

/-- The entry gives the style of that name, whatever is noted beside it. -/
def Gives (name : Text) (entry : Table) (s : Style) : Prop :=
  ∃ records, ofEntry? name entry = ⟨records, .ok (some s)⟩

theorem gives_iff {name : Text} {entry : Table} {s : Style} :
    Gives name entry s ↔ readEntry name entry = .ok (some s) := by
  rw [Gives, ← Logged.outcome_eq_iff, ofEntry?, Logged.outcome_bind]
  change ((readEntry name entry).mapError Error.shape).bind _ = _ ↔ _
  cases readEntry name entry with
  | error e => simp [Except.mapError, Except.bind]
  | ok found =>
    cases found with
    | some s' => simp [Except.mapError, Except.bind]
    | none => exact ⟨fun h => (by cases h), fun h => (by cases h)⟩

end Style

end CommentToggle
