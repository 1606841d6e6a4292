import CommentToggle.Proofs.Layer.Cut

/-!
Being a comment and carrying a layer. What carries a layer is a comment; a comment carries
none exactly when its leader runs into its closer, so that the two share characters. Where
no end of a leader begins the closer the two tests never differ.
-/
namespace CommentToggle

open Text

/-- The leader that begins the content and the closer that ends it share characters. -/
def Style.Overlaps (s : Style) (content : Text) : Prop :=
  ∃ before shared after, shared ≠ [] ∧ s.leader? content = some (before ++ shared) ∧
    s.closer = some (shared ++ after) ∧ trimEnd content = before ++ (shared ++ after)

namespace Layer

variable {s : Style} {content : Text}

theorem isComment_iff : s.isComment content = true ↔
    ∃ p, s.leader? content = some p ∧ ∀ q ∈ s.closer, q <:+ trimEnd content := by
  unfold Style.isComment
  rw [Bool.and_eq_true, Option.isSome_iff_exists]
  cases s.closer with
  | none => simp
  | some q => simp [List.isSuffixOf_iff_suffix]

/-- What ends in the closer ends in it behind the leader, or the leader runs into it. -/
theorem behind_or_overlaps (hs : s.Trimmed) {p q : Text} (hp : s.leader? content = some p)
    (hq : s.closer = some q) (hend : q <:+ trimEnd content) :
    (∃ inside, trimEnd content = p ++ (inside ++ q)) ∨ s.Overlaps content := by
  obtain ⟨hmem, rest, rfl⟩ := Style.leader?_eq_some hp
  rw [Style.Overlaps]
  rw [trimEnd_append_flush (hs.flush_leader hmem).2] at hend ⊢
  rcases List.suffix_or_suffix_of_suffix hend (List.suffix_append p _) with hshort | hlong
  · obtain ⟨inside, hinside⟩ := hshort
    exact .inl ⟨inside, by rw [hinside]⟩
  · obtain ⟨shared, rfl⟩ := hlong
    by_cases hnil : shared = []
    · exact .inl ⟨[], by simp [hnil]⟩
    · obtain ⟨before, hbefore⟩ := hend
      rw [← List.append_assoc, List.append_left_inj] at hbefore
      subst hbefore
      exact .inr ⟨before, shared, _, hnil, hp, hq, List.append_assoc _ _ _⟩

/-- A leader and a closer that share characters leave no room for a layer. -/
theorem strip?_of_overlaps (hs : s.Trimmed) (h : s.Overlaps content) :
    strip? s content = none := by
  obtain ⟨before, shared, after, hne, hp, hq, hend⟩ := h
  rw [Option.eq_none_iff_forall_ne_some]
  intro rest hrest
  obtain ⟨p, hp', hclosed⟩ := (isSome_strip?_iff hs).mp (Option.isSome_of_eq_some hrest)
  obtain rfl := Option.some.inj (hp.symm.trans hp')
  obtain ⟨inside, hinside⟩ := hclosed _ hq
  have hlength := congrArg List.length (hend.symm.trans hinside)
  have hpos := List.length_pos_iff.mpr hne
  simp only [List.length_append] at hlength
  omega

theorem isComment_of_overlaps (h : s.Overlaps content) : s.isComment content = true := by
  obtain ⟨before, shared, after, -, hp, hq, hend⟩ := h
  refine isComment_iff.mpr ⟨_, hp, fun q hq' => ?_⟩
  obtain rfl := Option.some.inj (hq.symm.trans hq')
  exact hend ▸ List.suffix_append before _

theorem isComment_of_isSome (hs : s.Trimmed) (h : (strip? s content).isSome = true) :
    s.isComment content = true := by
  obtain ⟨p, hp, hclosed⟩ := (isSome_strip?_iff hs).mp h
  refine isComment_iff.mpr ⟨p, hp, fun q hq => ?_⟩
  obtain ⟨inside, hend⟩ := hclosed q hq
  rw [hend, ← List.append_assoc]
  exact List.suffix_append _ q

theorem isComment_iff_or_overlaps (hs : s.Trimmed) : s.isComment content = true ↔
    (strip? s content).isSome = true ∨ s.Overlaps content := by
  constructor
  · intro h
    obtain ⟨p, hp, hclosed⟩ := isComment_iff.mp h
    cases hq : s.closer with
    | none => exact .inl ((isSome_strip?_iff hs).mpr ⟨p, hp, fun q hq' => by simp [hq] at hq'⟩)
    | some q =>
      refine (behind_or_overlaps hs hp hq (hclosed q hq)).imp_left fun hbehind => ?_
      refine (isSome_strip?_iff hs).mpr ⟨p, hp, fun q' hq' => ?_⟩
      obtain rfl := Option.some.inj (hq.symm.trans hq')
      exact hbehind
  · rintro (h | h)
    · exact isComment_of_isSome hs h
    · exact isComment_of_overlaps h

/-- The two tests agree on all contents but those in which the leader runs into the closer,
which are comments without a layer; so they always agree where no end of a leader begins the
closer. -/
theorem isComment_eq_isSome_iff (hs : s.Trimmed) (content : Text) :
    (s.isComment content = (strip? s content).isSome ↔ ¬ s.Overlaps content) ∧
    (s.Overlaps content → s.isComment content = true ∧ strip? s content = none) ∧
    ((∀ p ∈ s.leaders, ∀ q ∈ s.closer, ∀ shared, shared <:+ p → shared <+: q → shared = []) →
      s.isComment content = (strip? s content).isSome) := by
  have hiff : s.isComment content = (strip? s content).isSome ↔ ¬ s.Overlaps content := by
    rw [Bool.eq_iff_iff, isComment_iff_or_overlaps hs]
    constructor
    · intro hsame hoverlaps
      have hlayer := hsame.mp (.inr hoverlaps)
      rw [strip?_of_overlaps hs hoverlaps] at hlayer
      cases hlayer
    · exact fun hnot => ⟨fun h => h.resolve_right hnot, .inl⟩
  refine ⟨hiff, fun h => ⟨isComment_of_overlaps h, strip?_of_overlaps hs h⟩, fun hapart => ?_⟩
  rw [hiff]
  rintro ⟨before, shared, after, hne, hp, hq, -⟩
  exact hne (hapart _ (Style.leader?_eq_some hp).1 _ hq shared (List.suffix_append before shared)
    (List.prefix_append shared after))

/-- A slash between two that share the star is a comment without a layer; one more star makes
it a layer around nothing. -/
theorem isComment_eq_isSome_slashStar : Directive.slashStar.Trimmed ∧
    (Directive.slashStar.Overlaps "/*/".toList ∧
      Directive.slashStar.isComment "/*/".toList = true ∧
      strip? Directive.slashStar "/*/".toList = none) ∧
    ¬ Directive.slashStar.Overlaps "/**/".toList := by
  have hs : Directive.slashStar.Trimmed := by decide
  have hoverlaps : Directive.slashStar.Overlaps "/*/".toList :=
    ⟨['/'], ['*'], ['/'], by decide, by decide, rfl, by decide⟩
  have hagree := (isComment_eq_isSome_iff hs "/**/".toList).1.mp (by decide)
  exact ⟨hs, ⟨hoverlaps, (isComment_eq_isSome_iff hs _).2.1 hoverlaps⟩, hagree⟩

end Layer

end CommentToggle
