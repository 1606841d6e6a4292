import CommentToggle.Proofs.Text.Separation
import CommentToggle.Directive.Parse
import Mathlib.Data.List.TakeWhile

/-!
Styles that a file can be written in without surprises. No leader begins with white
space and no closer ends with it, and neither has a line end inside, so that a comment
starts where the indentation ends, stops at its closer and stays on its line; and no
leader begins with the letter of the marker, so that a commented line begins
differently from the marker.
-/
namespace CommentToggle

namespace Text

/-- Begins with a character that is no white space. -/
def Flush (t : Text) : Prop := ∃ c rest, t = c :: rest ∧ isBlank c = false

theorem flush_cons {c : Char} {t : Text} : Flush (c :: t) ↔ isBlank c = false := by
  constructor
  · intro h
    obtain ⟨d, rest, h, hd⟩ := h
    rw [List.cons.injEq] at h
    rw [h.1]
    exact hd
  · exact fun h => ⟨c, t, rfl, h⟩

theorem Flush.ne_nil {t : Text} (h : Flush t) : t ≠ [] := by
  obtain ⟨c, rest, rfl, _⟩ := h
  simp

instance (t : Text) : Decidable (Flush t) :=
  match t with
  | [] => .isFalse fun h => h.ne_nil rfl
  | _ :: _ => decidable_of_iff _ flush_cons.symm

theorem Flush.append {a : Text} (h : Flush a) (b : Text) : Flush (a ++ b) := by
  obtain ⟨c, rest, rfl, hc⟩ := h
  exact ⟨c, rest ++ b, rfl, hc⟩

theorem Flush.trimStart {t : Text} (h : Flush t) : trimStart t = t := by
  obtain ⟨c, rest, rfl, hc⟩ := h
  simp [Text.trimStart, hc]

theorem Flush.head_ne_space {t : Text} (h : Flush t) : t.head? ≠ some ' ' := by
  obtain ⟨c, rest, rfl, hc⟩ := h
  intro hspace
  simp only [List.head?_cons, Option.some.injEq] at hspace
  subst hspace
  exact absurd hc (by decide)

theorem flush_trimStart (t : Text) : trimStart t = [] ∨ Flush (trimStart t) := by
  cases h : trimStart t with
  | nil => exact Or.inl rfl
  | cons c rest =>
    right
    have hne : t.dropWhile isBlank ≠ [] := by
      change trimStart t ≠ []
      simp [h]
    have hhead := List.head_dropWhile_not isBlank hne
    have hc : (t.dropWhile isBlank).head hne = c := by
      have h' : t.dropWhile isBlank = c :: rest := h
      simp [h']
    rw [hc] at hhead
    exact flush_cons.mpr hhead

theorem flush_iff {t : Text} : Flush t ↔ t ≠ [] ∧ trimStart t = t := by
  constructor
  · exact fun h => ⟨h.ne_nil, h.trimStart⟩
  · intro hspec
    obtain ⟨hne, htrim⟩ := hspec
    rcases flush_trimStart t with h | h
    · exact absurd (htrim.symm.trans h) hne
    · rwa [htrim] at h

theorem trimStart_eq_nil_iff {t : Text} : trimStart t = [] ↔ t.all isBlank = true := by
  simp [trimStart, List.dropWhile_eq_nil_iff]

theorem trimStart_trimStart (t : Text) : trimStart (trimStart t) = trimStart t := by
  rcases flush_trimStart t with h | h
  · rw [h]; rfl
  · exact h.trimStart

theorem length_trimEnd_le (t : Text) : (trimEnd t).length ≤ t.length := by
  simpa [trimEnd] using (List.dropWhile_suffix (l := t.reverse) isBlank).length_le

theorem trimEnd_prefix (t : Text) : trimEnd t <+: t := by
  have h := List.dropWhile_suffix (l := t.reverse) isBlank
  simpa [trimEnd] using List.reverse_prefix.mpr h

/-- A text that trimming leaves alone is flush on both sides. -/
theorem flush_of_trim {t : Text} (hne : t ≠ []) (h : trim t = t) :
    Flush t ∧ Flush t.reverse := by
  have hstart : trimStart t = t := by
    apply (List.dropWhile_suffix isBlank).eq_of_length_le
    have hle := length_trimEnd_le (trimStart t)
    change (trim t).length ≤ _ at hle
    rwa [h] at hle
  have hend : trimStart t.reverse = t.reverse := by
    have hrev := congrArg List.reverse h
    rw [trim, hstart] at hrev
    simpa [trimEnd, trimStart] using hrev
  exact ⟨flush_iff.mpr ⟨hne, hstart⟩, flush_iff.mpr ⟨by simpa using hne, hend⟩⟩

theorem trimEnd_append_of_flush {q : Text} (h : Flush q.reverse) (t : Text) :
    trimEnd (t ++ q) = t ++ q := by
  have hrev : trimStart (q.reverse ++ t.reverse) = q.reverse ++ t.reverse :=
    (h.append t.reverse).trimStart
  rw [trimEnd, List.reverse_append]
  change (trimStart (q.reverse ++ t.reverse)).reverse = _
  rw [hrev]
  simp

end Text

open Text

/-- Writing a layer breaks no line. -/
structure Style.Inline (s : Style) : Prop where
  leader : Unbroken s.primary
  closer : ∀ q ∈ s.closer, Unbroken q

/-- A comment starts where the indentation ends and stops where its closer does. -/
structure Style.Tidy (s : Style) : Prop extends s.Inline where
  leading : ∀ p ∈ s.leaders, Flush p
  closing : ∀ q ∈ s.closer, Flush q.reverse

structure Style.Regular (s : Style) : Prop extends s.Tidy where
  unmarked : ∀ p ∈ s.leaders, p.head? ≠ some 's'

instance (s : Style) : Decidable s.Tidy :=
  decidable_of_iff
    ((Unbroken s.primary ∧ ∀ q ∈ s.closer, Unbroken q) ∧ (∀ p ∈ s.leaders, Flush p) ∧
      ∀ q ∈ s.closer, Flush q.reverse)
    ⟨fun h => ⟨⟨h.1.1, h.1.2⟩, h.2.1, h.2.2⟩, fun h => ⟨⟨h.leader, h.closer⟩, h.2, h.3⟩⟩

instance (s : Style) : Decidable s.Regular :=
  decidable_of_iff (s.Tidy ∧ ∀ p ∈ s.leaders, p.head? ≠ some 's')
    ⟨fun h => ⟨h.1, h.2⟩, fun h => ⟨h.toTidy, h.unmarked⟩⟩

namespace Style

/-- Line comments with a number sign. -/
def hash : Style := ⟨"hash".toList, [['#']], none, by decide⟩

theorem regular_hash : hash.Regular := by decide

/-- Line comments with two leaders. -/
def twofold : Style := ⟨"twofold".toList, [['#'], "//".toList], none, by decide⟩

theorem regular_twofold : twofold.Regular := by decide

/-- Comments in brackets, whose closer may complete the marker. -/
def bracketed : Style := ⟨"bracketed".toList, ["(:".toList], some ":)".toList, by decide⟩

theorem regular_bracketed : bracketed.Regular := by decide

/-- Line comments with leaders that begin with another one and hold the marker. -/
def swallowing : Style :=
  ⟨"swallowing".toList, ["#smc:begin a".toList, "#smc:end a".toList, ['#']], none, by decide⟩

/-- No white space around leaders and closer is more than enough. -/
theorem tidy_of_trim {s : Style} (hleaders : ∀ p ∈ s.leaders, trim p = p ∧ Unbroken p)
    (hcloser : ∀ q ∈ s.closer, q ≠ [] ∧ trim q = q ∧ Unbroken q) : s.Tidy where
  leader := (hleaders _ s.primary_mem).2
  closer := fun q hq => (hcloser q hq).2.2
  leading := fun p hp => (flush_of_trim (ne_nil_of_mem_leaders hp) (hleaders p hp).1).1
  closing := by
    intro q hq
    obtain ⟨hne, htrim, -⟩ := hcloser q hq
    exact (flush_of_trim hne htrim).2

theorem leader?_primary (s : Style) (t : Text) : s.leader? (s.primary ++ t) = some s.primary := by
  obtain ⟨name, leaders, closer, husable⟩ := s
  cases leaders with
  | nil => exact absurd rfl husable.1
  | cons p ps =>
    have hpre : p.isPrefixOf (p ++ t) = true :=
      List.isPrefixOf_iff_prefix.mpr (List.prefix_append p t)
    simp [leader?, primary, hpre]

theorem uncover?_primary (s : Style) (t : Text) :
    s.uncover? (s.primary ++ t) = some (dropSpace t) := by
  simp [uncover?, leader?_primary]

theorem dropSpace_of_head {t : Text} (h : t.head? ≠ some ' ') : dropSpace t = (false, t) := by
  unfold dropSpace
  split
  · simp at h
  · rfl

/-- What is uncovered ends the content. -/
theorem uncover?_eq_some {s : Style} {content rest : Text} {spaced : Bool}
    (h : s.uncover? content = some (spaced, rest)) :
    ∃ p ∈ s.leaders, ∃ gap : Text, content = p ++ (gap ++ rest) := by
  unfold uncover? at h
  obtain ⟨p, hp, hdrop⟩ := Option.map_eq_some_iff.mp h
  obtain ⟨hmem, tail, rfl⟩ := leader?_eq_some hp
  rw [List.drop_left] at hdrop
  refine ⟨p, hmem, ?_⟩
  unfold dropSpace at hdrop
  split at hdrop
  · rw [Prod.mk.injEq] at hdrop
    exact ⟨[' '], by rw [← hdrop.2]; rfl⟩
  · rw [Prod.mk.injEq] at hdrop
    exact ⟨[], by rw [← hdrop.2]; rfl⟩

end Style

end CommentToggle
