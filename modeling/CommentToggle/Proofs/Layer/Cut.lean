import CommentToggle.Proofs.Directive.Grammar
import CommentToggle.Proofs.Style.Trimmed

/-!
What taking a layer off takes away, stated without the reader: the first leader that begins
the content and one space behind it, and for a style with a closer the closer behind which
only white space comes, with one space before it when there was one behind the leader. A
layer is there whenever a leader begins and the closer ends the content, the two apart.
-/
namespace CommentToggle.Layer

open Text Directive

/-- `rest` follows the leader, behind one space where there is any. -/
structure Opened (s : Style) (content p : Text) (spaced : Bool) (rest : Text) : Prop where
  leader : FirstLeader s content p
  text : content = p ++ (gap spaced ++ rest)
  tight : spaced = false → rest.head? ≠ some ' '

/-- `rest` is `t` without the closer. A space before it goes with it when `spaced`, the white
space behind it stays. -/
def Shut : Option Text → Bool → Text → Text → Prop
  | none, _, t, rest => t = rest
  | some q, spaced, t, rest => ∃ inner before tail, t = inner ++ (gap before ++ (q ++ tail)) ∧
      Blank tail ∧ rest = inner ++ tail ∧ (before = true → spaced = true) ∧
      (spaced = true → before = false → inner.getLast? ≠ some ' ')

/-- One layer taken off `content` leaves `rest`. -/
inductive Cut (s : Style) (content : Text) : Text → Prop
  | intro {p t rest : Text} {spaced : Bool} : Opened s content p spaced t →
      Shut s.closer spaced t rest → Cut s content rest

theorem uncover?_eq_some_iff {s : Style} {content t : Text} {spaced : Bool} :
    s.uncover? content = some (spaced, t) ↔ ∃ p, Opened s content p spaced t := by
  unfold Style.uncover?
  constructor
  · intro h
    obtain ⟨p, hp, hdrop⟩ := Option.map_eq_some_iff.mp h
    have hfirst := leader?_eq_some_iff.mp hp
    obtain ⟨tail, rfl⟩ := hfirst.1
    rw [List.drop_left] at hdrop
    unfold Style.dropSpace at hdrop
    split at hdrop
    · cases hdrop
      exact ⟨p, hfirst, rfl, fun hspaced => by cases hspaced⟩
    · rename_i hnot
      cases hdrop
      refine ⟨p, hfirst, rfl, fun _ hhead => ?_⟩
      obtain ⟨rest, hrest⟩ := List.head?_eq_some_iff.mp hhead
      exact hnot rest hrest
  · rintro ⟨p, hfirst, htext, htight⟩
    rw [leader?_eq_some_iff.mpr hfirst, Option.map_some, htext, List.drop_left]
    cases spaced with
    | true => rfl
    | false =>
      change some (Style.dropSpace t) = _
      rw [Style.dropSpace_of_head (htight rfl)]

theorem exists_dropLastSpace (t : Text) : ∃ before, t = dropLastSpace t ++ gap before ∧
    (before = false → (dropLastSpace t).getLast? ≠ some ' ') := by
  unfold dropLastSpace
  split
  · rename_i hlast
    exact ⟨true, (List.dropLast_append_getLast? ' ' hlast).symm, fun h => by cases h⟩
  · rename_i hlast
    exact ⟨false, by simp [gap], fun _ => hlast⟩

theorem dropLastSpace_append {t : Text} {before : Bool}
    (h : before = false → t.getLast? ≠ some ' ') : dropLastSpace (t ++ gap before) = t := by
  cases before with
  | true => simp [dropLastSpace, gap]
  | false => simp [dropLastSpace, gap, h rfl]

theorem uncloser?_eq_some_iff {q t rest : Text} {spaced : Bool} (hq : Flush q.reverse) :
    uncloser? q spaced t = some rest ↔ Shut (some q) spaced t rest := by
  have hne : q ≠ [] := by simpa using hq.ne_nil
  unfold uncloser? Shut
  simp only [Option.map_eq_some_iff]
  constructor
  · rintro ⟨inner, hcut, rfl⟩
    rw [cutCloser?_eq_some_iff hne] at hcut
    obtain ⟨tail, htail, htext⟩ := exists_gap t
    have hdrop : t.drop (trimEnd t).length = tail :=
      (congrArg (List.drop (trimEnd t).length) htext).trans List.drop_left
    rw [hdrop]
    rw [hcut] at htext
    cases spaced with
    | true =>
      obtain ⟨before, hinner, hlast⟩ := exists_dropLastSpace inner
      refine ⟨dropLastSpace inner, before, tail, ?_, htail, rfl, fun _ => rfl, fun _ => hlast⟩
      rw [htext]
      conv_lhs => rw [hinner]
      simp
    | false =>
      refine ⟨inner, false, tail, ?_, htail, rfl, fun h => h, fun h => by cases h⟩
      simp [htext, gap]
  · rintro ⟨inner, before, tail, rfl, htail, rfl, hbefore, hlast⟩
    have hend : trimEnd (inner ++ (gap before ++ (q ++ tail))) = (inner ++ gap before) ++ q := by
      rw [← List.append_assoc, ← List.append_assoc, trimEnd_append_gap htail,
        trimEnd_append_of_flush hq]
    refine ⟨inner ++ gap before, ?_, ?_⟩
    · rw [hend, cutCloser?_eq_some_iff hne]
    · have hdrop : (inner ++ (gap before ++ (q ++ tail))).drop
          ((inner ++ gap before) ++ q).length = tail := by
        have hassoc : inner ++ (gap before ++ (q ++ tail)) = ((inner ++ gap before) ++ q) ++ tail := by
          simp
        rw [hassoc, List.drop_left]
      rw [hend, hdrop]
      cases spaced with
      | true => rw [if_pos rfl, dropLastSpace_append (hlast rfl)]
      | false =>
        obtain rfl : before = false := by simpa using hbefore
        simp [gap]

/-- A layer comes off exactly as described, and from no other content. -/
theorem strip?_eq_some_iff {s : Style} (hs : s.Trimmed) {content rest : Text} :
    strip? s content = some rest ↔ Cut s content rest := by
  have hshut {q t : Text} {spaced : Bool} (hq : s.closer = some q) :
      uncloser? q spaced t = some rest ↔ Shut s.closer spaced t rest := by
    rw [hq]
    exact uncloser?_eq_some_iff (hs.flush_closer hq).2
  unfold strip?
  constructor
  · intro h
    split at h
    · cases h
    · rename_i spaced t hu hq
      obtain ⟨p, hp⟩ := uncover?_eq_some_iff.mp hu
      exact .intro hp (by rw [hq]; exact Option.some.inj h)
    · rename_i spaced t q hu hq
      obtain ⟨p, hp⟩ := uncover?_eq_some_iff.mp hu
      exact .intro hp ((hshut hq).mp h)
  · rintro ⟨hp, ht⟩
    rw [uncover?_eq_some_iff.mpr ⟨_, hp⟩]
    cases hq : s.closer with
    | none =>
      rw [hq] at ht
      exact congrArg some ht
    | some q => exact (hshut hq).mpr ht

theorem exists_opened {s : Style} {p t : Text} (h : FirstLeader s (p ++ t) p) :
    ∃ spaced rest, Opened s (p ++ t) p spaced rest ∧ t = gap spaced ++ rest := by
  by_cases hhead : t.head? = some ' '
  · obtain ⟨rest, rfl⟩ := List.head?_eq_some_iff.mp hhead
    exact ⟨true, rest, ⟨h, rfl, fun hspaced => by cases hspaced⟩, rfl⟩
  · exact ⟨false, t, ⟨h, rfl, fun _ => hhead⟩, rfl⟩

theorem exists_shut (q : Text) (spaced : Bool) (inner : Text) {tail : Text} (h : Blank tail) :
    ∃ rest, Shut (some q) spaced (inner ++ (q ++ tail)) rest := by
  cases spaced with
  | true =>
    obtain ⟨before, hinner, hlast⟩ := exists_dropLastSpace inner
    refine ⟨_, dropLastSpace inner, before, tail, ?_, h, rfl, fun _ => rfl, fun _ => hlast⟩
    rw [← List.append_assoc (dropLastSpace inner), ← hinner]
  | false =>
    exact ⟨_, inner, false, tail, by simp [gap], h, rfl, fun h => h, fun h => by cases h⟩

/-- The closer begins behind the space that follows the leader. -/
theorem exists_of_gap_append {q rest inside tail : Text} {spaced : Bool} (hq : Flush q)
    (h : gap spaced ++ rest = inside ++ (q ++ tail)) : ∃ inner, rest = inner ++ (q ++ tail) := by
  cases spaced with
  | false => exact ⟨inside, h⟩
  | true =>
    cases inside with
    | nil =>
      have hhead := congrArg List.head? h
      exact absurd hhead.symm (hq.append tail).head_ne_space
    | cons c inner => exact ⟨inner, (List.cons.inj h).2⟩

/-- A layer is there when a leader begins and the closer ends the content, the two apart. -/
theorem isSome_strip?_iff {s : Style} (hs : s.Trimmed) {content : Text} :
    (strip? s content).isSome = true ↔ ∃ p, s.leader? content = some p ∧
      ∀ q ∈ s.closer, ∃ inside, trimEnd content = p ++ (inside ++ q) := by
  rw [Option.isSome_iff_exists]
  simp only [strip?_eq_some_iff hs, leader?_eq_some_iff]
  constructor
  · rintro ⟨rest, hp, ht⟩
    rename_i p t spaced
    refine ⟨p, hp.leader, fun q hq => ?_⟩
    rw [show s.closer = some q from hq] at ht
    obtain ⟨inner, before, tail, rfl, htail, -⟩ := ht
    refine ⟨gap spaced ++ (inner ++ gap before), ?_⟩
    have htext : content = (p ++ (gap spaced ++ (inner ++ gap before)) ++ q) ++ tail := by
      simp [hp.text]
    rw [htext, trimEnd_append_gap htail, trimEnd_append_of_flush (hs.flush_closer hq).2,
      List.append_assoc]
  · rintro ⟨p, hp, hclosed⟩
    obtain ⟨t, rfl⟩ := hp.1
    obtain ⟨spaced, rest, hopened, ht⟩ := exists_opened hp
    cases hq : s.closer with
    | none => exact ⟨rest, .intro hopened (by rw [hq]; rfl)⟩
    | some q =>
      obtain ⟨inside, hend⟩ := hclosed q hq
      obtain ⟨tail, htail, htext⟩ := exists_gap (p ++ t)
      rw [hend, List.append_assoc, List.append_assoc, List.append_right_inj, ht] at htext
      obtain ⟨inner, rfl⟩ := exists_of_gap_append (hs.flush_closer hq).1 htext
      obtain ⟨rest, hshut⟩ := exists_shut q spaced inner htail
      exact ⟨rest, .intro hopened (by rw [hq]; exact hshut)⟩

end CommentToggle.Layer
