import CommentToggle.Layer
import CommentToggle.Proofs.Style.Regular

/-!
Layers of a regular style. What was added comes off again, layer by layer; a
commented content is flush and does not begin with the marker; and content that
is commented shows the marker to a reader only when it was bare before and goes
on with the marker up to the closer.
-/
namespace CommentToggle.Layer

open Text

def gap (spaced : Bool) : Text := if spaced then [' '] else []

/-- What a layer writes behind the content. -/
def behind (s : Style) (spaced : Bool) : Text :=
  match s.closer with
  | none => []
  | some q => gap spaced ++ q

theorem add_eq (s : Style) (spaced : Bool) (content : Text) :
    add s spaced content = s.primary ++ (gap spaced ++ (content ++ behind s spaced)) := by
  unfold add behind gap
  cases s.closer <;> simp

theorem addTimes_succ (s : Style) (spaced : Bool) (n : Nat) (content : Text) :
    addTimes s spaced (n + 1) content = add s spaced (addTimes s spaced n content) := by
  induction n generalizing content with
  | zero => rfl
  | succ n ih => rw [addTimes, ih, ← addTimes]

theorem addTimes_add (s : Style) (spaced : Bool) (m n : Nat) (content : Text) :
    addTimes s spaced (m + n) content = addTimes s spaced m (addTimes s spaced n content) := by
  induction m with
  | zero => rw [Nat.zero_add]; rfl
  | succ m ih => rw [Nat.succ_add, addTimes_succ, addTimes_succ, ih]

theorem stripTimes?_one (s : Style) (content : Text) :
    stripTimes? s 1 content = strip? s content := by
  cases h : strip? s content <;> simp [stripTimes?, h]

theorem stripTimes?_add (s : Style) (m n : Nat) (content : Text) :
    stripTimes? s (m + n) content = (stripTimes? s m content).bind (stripTimes? s n) := by
  induction m generalizing content with
  | zero => rw [Nat.zero_add]; rfl
  | succ m ih =>
    rw [Nat.succ_add, stripTimes?, stripTimes?, Option.bind_assoc]
    exact Option.bind_congr fun _ _ => ih _

/-- As many layers as can be taken off, fewer can be. -/
theorem stripTimes?_of_le {s : Style} {m n : Nat} {content rest : Text} (hle : m ≤ n)
    (h : stripTimes? s n content = some rest) :
    ∃ between, stripTimes? s m content = some between ∧
      stripTimes? s (n - m) between = some rest := by
  have hn : n = m + (n - m) := by omega
  rw [hn, stripTimes?_add] at h
  exact Option.bind_eq_some_iff.mp h

theorem flush_add {s : Style} (hs : s.Tidy) (spaced : Bool) (content : Text) :
    Flush (add s spaced content) := by
  rw [add_eq]
  exact (hs.leading _ s.primary_mem).append _

theorem flush_addTimes {s : Style} (hs : s.Tidy) (spaced : Bool) (n : Nat) {content : Text}
    (h : Flush content) : Flush (addTimes s spaced n content) := by
  induction n generalizing content with
  | zero => exact h
  | succ n ih => exact ih (flush_add hs spaced content)

theorem unbroken_behind {s : Style} (hs : s.Inline) (spaced : Bool) :
    Unbroken (gap spaced) ∧ Unbroken (behind s spaced) := by
  have hgap : Unbroken (gap spaced) := by cases spaced <;> decide
  refine ⟨hgap, ?_⟩
  unfold behind
  cases hq : s.closer with
  | none => exact unbroken_nil
  | some q => exact hgap.append (hs.closer q hq)

theorem unbroken_add {s : Style} (hs : s.Inline) (spaced : Bool) {content : Text}
    (h : Unbroken content) : Unbroken (add s spaced content) := by
  obtain ⟨hgap, hbehind⟩ := unbroken_behind hs spaced
  rw [add_eq]
  exact hs.leader.append (hgap.append (h.append hbehind))

theorem unbroken_addTimes {s : Style} (hs : s.Inline) (spaced : Bool) (n : Nat)
    {content : Text} (h : Unbroken content) : Unbroken (addTimes s spaced n content) := by
  induction n generalizing content with
  | zero => exact h
  | succ n ih => exact ih (unbroken_add hs spaced h)

/-- With a space or without, what is uncovered is the content and what stands behind it. -/
theorem uncover?_add_of_head (s : Style) (spaced : Bool) {content : Text}
    (h : spaced = false → (content ++ behind s spaced).head? ≠ some ' ') :
    s.uncover? (add s spaced content) = some (spaced, content ++ behind s spaced) := by
  rw [add_eq, Style.uncover?_primary]
  cases spaced with
  | true => rfl
  | false =>
    change some (Style.dropSpace (content ++ behind s false)) = _
    rw [Style.dropSpace_of_head (h rfl)]

theorem uncover?_add (s : Style) (spaced : Bool) {content : Text} (h : Flush content) :
    s.uncover? (add s spaced content) = some (spaced, content ++ behind s spaced) :=
  uncover?_add_of_head s spaced fun _ => (h.append _).head_ne_space

theorem cutCloser?_append {q : Text} (hne : q ≠ []) (t : Text) :
    Style.cutCloser? q (t ++ q) = some t := by
  have hsuffix : q.isSuffixOf (t ++ q) = true :=
    List.isSuffixOf_iff_suffix.mpr (List.suffix_append t q)
  have hempty : q.isEmpty = false := by simpa using hne
  rw [Style.cutCloser?, if_pos hsuffix, hempty, List.length_append, Nat.add_sub_cancel,
    List.take_left]
  rfl

theorem uncloser?_behind {q : Text} (hq : Flush q.reverse) (spaced : Bool) (content : Text) :
    uncloser? q spaced (content ++ (gap spaced ++ q)) = some content := by
  have hne : q ≠ [] := by simpa using hq.ne_nil
  have hend : trimEnd (content ++ (gap spaced ++ q)) = content ++ (gap spaced ++ q) := by
    rw [← List.append_assoc]
    exact trimEnd_append_of_flush hq _
  have hcut : Style.cutCloser? q (content ++ (gap spaced ++ q)) = some (content ++ gap spaced) := by
    rw [← List.append_assoc]
    exact cutCloser?_append hne _
  simp only [uncloser?, hend, hcut, Option.map_some, List.drop_length, List.append_nil]
  cases spaced <;> simp [gap, dropLastSpace]

theorem strip?_add_of_head {s : Style} (hclosing : ∀ q ∈ s.closer, Flush q.reverse)
    (spaced : Bool) {content : Text}
    (h : spaced = false → (content ++ behind s spaced).head? ≠ some ' ') :
    strip? s (add s spaced content) = some content := by
  unfold strip?
  rw [uncover?_add_of_head s spaced h]
  cases hq : s.closer with
  | none => simp [behind, hq]
  | some q =>
    simp only [behind, hq]
    exact uncloser?_behind (hclosing q hq) spaced content

theorem strip?_add {s : Style} (hs : s.Tidy) (spaced : Bool) {content : Text}
    (h : Flush content) : strip? s (add s spaced content) = some content :=
  strip?_add_of_head hs.closing spaced fun _ => (h.append _).head_ne_space

/-- The layers added come off first. -/
theorem stripTimes?_addTimes {s : Style} (hs : s.Tidy) (spaced : Bool) (m n : Nat)
    {content : Text} (h : Flush content) :
    stripTimes? s (n + m) (addTimes s spaced n content) = stripTimes? s m content := by
  induction n with
  | zero => rw [Nat.zero_add]; rfl
  | succ n ih =>
    rw [Nat.succ_add, stripTimes?, addTimes_succ, strip?_add hs spaced (flush_addTimes hs spaced n h)]
    exact ih

/-- A commented content begins with a leader. -/
theorem leader_of_strip? {s : Style} {content rest : Text} (h : strip? s content = some rest) :
    ∃ p ∈ s.leaders, p <+: content := by
  unfold strip? at h
  cases hu : s.uncover? content with
  | none => simp [hu] at h
  | some v =>
    obtain ⟨p, hp, between, heq⟩ := Style.uncover?_eq_some hu
    exact ⟨p, hp, heq ▸ List.prefix_append p _⟩

theorem flush_of_strip? {s : Style} (hs : s.Tidy) {content rest : Text}
    (h : strip? s content = some rest) : Flush content := by
  obtain ⟨p, hp, tail, rfl⟩ := leader_of_strip? h
  exact (hs.leading p hp).append tail

theorem flush_of_stripTimes? {s : Style} (hs : s.Tidy) {n : Nat} {content rest : Text}
    (hn : 0 < n) (h : stripTimes? s n content = some rest) : Flush content := by
  obtain ⟨n, rfl⟩ : ∃ k, n = k + 1 := ⟨n - 1, by omega⟩
  rw [stripTimes?] at h
  obtain ⟨between, hstrip, _⟩ := Option.bind_eq_some_iff.mp h
  exact flush_of_strip? hs hstrip

/-- No leader begins as the marker does, so nothing that begins with a leader does. -/
theorem not_marker_of_leader {s : Style} (hs : s.Regular) {p : Text} (hp : p ∈ s.leaders)
    (t : Text) : ¬ marker <+: p ++ t := by
  intro h
  obtain ⟨tail, htail⟩ := h
  obtain ⟨c, rest, rfl, _⟩ := hs.leading p hp
  have hc : c = 's' := by
    have hhead := congrArg List.head? htail
    simpa [marker] using hhead.symm
  exact hs.unmarked _ hp (by rw [hc]; rfl)

/-- A reader sees the marker on a new comment only when the content goes on with it. -/
theorem marked?_add_iff (s : Style) (spaced : Bool) {content : Text} (h : Flush content) :
    Directive.marked? s (add s spaced content) = none ↔
      ¬ marker <+: content ++ behind s spaced := by
  unfold Directive.marked?
  rw [uncover?_add s spaced h]
  simp only [Option.bind_some, Option.map_eq_none_iff]
  rw [Option.eq_none_iff_forall_ne_some]
  constructor
  · rintro hnone ⟨tail, htail⟩
    exact hnone tail (List.isPrefixOf?_eq_some_iff_append_eq.mpr htail)
  · intro hnot tail htail
    exact hnot ⟨tail, List.isPrefixOf?_eq_some_iff_append_eq.mp htail⟩

theorem marked?_add_of_strip? {s : Style} (hs : s.Regular) (spaced : Bool)
    {content rest : Text} (h : strip? s content = some rest) :
    Directive.marked? s (add s spaced content) = none := by
  rw [marked?_add_iff s spaced (flush_of_strip? hs.toTidy h)]
  obtain ⟨p, hp, tail, rfl⟩ := leader_of_strip? h
  rw [List.append_assoc]
  exact not_marker_of_leader hs hp _

/-- A line shows the marker only under its first layer, and only when its text goes on with
the marker up to the closer. -/
theorem marked?_addTimes_iff {s : Style} (hs : s.Regular) (spaced : Bool) {content : Text}
    (hflush : Flush content) (hunmarked : Directive.marked? s content = none) (n : Nat) :
    Directive.marked? s (addTimes s spaced n content) = none ↔
      (n = 1 → ¬ marker <+: content ++ behind s spaced) := by
  match n with
  | 0 => simpa [addTimes] using hunmarked
  | 1 => simpa [addTimes] using marked?_add_iff s spaced hflush
  | n + 2 =>
    have hstrip : strip? s (addTimes s spaced (n + 1) content) =
        some (addTimes s spaced n content) := by
      rw [addTimes_succ]
      exact strip?_add hs.toTidy spaced (flush_addTimes hs.toTidy spaced n hflush)
    rw [addTimes_succ]
    simpa using marked?_add_of_strip? hs spaced hstrip

theorem prefix_of_cutCloser? {q t inner : Text} (h : Style.cutCloser? q t = some inner) :
    inner <+: t := by
  unfold Style.cutCloser? at h
  split at h
  · rw [Option.some.injEq] at h
    subst h
    split
    · exact List.nil_prefix
    · exact List.take_prefix _ t
  · simp at h

theorem prefix_dropLastSpace (t : Text) : dropLastSpace t <+: t := by
  unfold dropLastSpace
  split
  · exact List.dropLast_prefix t
  · exact List.prefix_refl t

/-- Uncovering only leaves characters out. -/
theorem uncloser?_sublist {q t rest : Text} {spaced : Bool}
    (h : uncloser? q spaced t = some rest) : rest.Sublist t := by
  simp only [uncloser?] at h
  obtain ⟨inner, hcut, hrest⟩ := Option.map_eq_some_iff.mp h
  have hinner : (if spaced then dropLastSpace inner else inner) <+: trimEnd t := by
    split
    · exact (prefix_dropLastSpace inner).trans (prefix_of_cutCloser? hcut)
    · exact prefix_of_cutCloser? hcut
  obtain ⟨tail, htail⟩ := trimEnd_prefix t
  generalize trimEnd t = trimmed at *
  subst htail
  rw [List.drop_left] at hrest
  subst hrest
  exact hinner.sublist.append (List.Sublist.refl tail)

theorem strip?_sublist {s : Style} {content rest : Text} (h : strip? s content = some rest) :
    ∃ p ∈ s.leaders, (p ++ rest).Sublist content := by
  unfold strip? at h
  cases hu : s.uncover? content with
  | none => simp [hu] at h
  | some v =>
    obtain ⟨spaced, tail⟩ := v
    obtain ⟨p, hp, between, rfl⟩ := Style.uncover?_eq_some hu
    have htail : rest.Sublist tail := by
      rw [hu] at h
      cases hq : s.closer with
      | none =>
        simp only [hq, Option.some.injEq] at h
        exact h ▸ List.Sublist.refl _
      | some q =>
        simp only [hq] at h
        exact uncloser?_sublist h
    have hbehind : tail.Sublist (between ++ tail) := List.sublist_append_right between tail
    exact ⟨p, hp, (List.Sublist.refl p).append (htail.trans hbehind)⟩

theorem length_strip?_lt {s : Style} {content rest : Text} (h : strip? s content = some rest) :
    rest.length < content.length := by
  obtain ⟨p, hp, hsub⟩ := strip?_sublist h
  have hlen := hsub.length_le
  have hpos : 0 < p.length := List.length_pos_iff.mpr (Style.ne_nil_of_mem_leaders hp)
  rw [List.length_append] at hlen
  omega

theorem length_stripTimes?_lt {s : Style} {n : Nat} {content rest : Text} (hn : 0 < n)
    (h : stripTimes? s n content = some rest) : rest.length < content.length := by
  induction n generalizing content with
  | zero => omega
  | succ n ih =>
    rw [stripTimes?] at h
    obtain ⟨between, hstrip, hrest⟩ := Option.bind_eq_some_iff.mp h
    have hfirst := length_strip?_lt hstrip
    by_cases hzero : n = 0
    · subst hzero
      simp only [stripTimes?, Option.some.injEq] at hrest
      exact hrest ▸ hfirst
    · exact (ih (by omega) hrest).trans hfirst

theorem length_lt_add (s : Style) (spaced : Bool) (content : Text) :
    content.length < (add s spaced content).length := by
  have hpos : 0 < s.primary.length :=
    List.length_pos_iff.mpr (Style.ne_nil_of_mem_leaders s.primary_mem)
  rw [add_eq]
  simp only [List.length_append]
  omega

theorem length_lt_addTimes {s : Style} (spaced : Bool) {n : Nat} (hn : 0 < n) (content : Text) :
    content.length < (addTimes s spaced n content).length := by
  induction n with
  | zero => omega
  | succ n ih =>
    rw [addTimes_succ]
    have hlast := length_lt_add s spaced (addTimes s spaced n content)
    by_cases hzero : n = 0
    · subst hzero
      exact hlast
    · exact (ih (by omega)).trans hlast

theorem unbroken_stripTimes? {s : Style} {n : Nat} {content rest : Text}
    (hcontent : Unbroken content) (h : stripTimes? s n content = some rest) : Unbroken rest := by
  induction n generalizing content with
  | zero =>
    simp only [stripTimes?, Option.some.injEq] at h
    exact h ▸ hcontent
  | succ n ih =>
    rw [stripTimes?] at h
    obtain ⟨between, hstrip, hrest⟩ := Option.bind_eq_some_iff.mp h
    obtain ⟨p, _, hsub⟩ := strip?_sublist hstrip
    have hpart : between.Sublist content := (List.sublist_append_right p between).trans hsub
    exact ih (hcontent.of_sublist hpart) hrest

end CommentToggle.Layer
