import CommentToggle.Proofs.Directive.Naming

/-!
Writing the name behind an end that has none. The group that a bare end closes was opened
by a line on which its name or condition stands, so it can be written behind the end too,
with a space before it and the rest of the line as it was. The line is then read as the
end of that group, provided that no leader of the style holds the marker: a leader that
does may be longer than the one that begins the line and take the name in.
-/
namespace CommentToggle

open Text

namespace Directive

/-- A group that can be written behind an end. -/
def Repeatable (group : Text) : Prop :=
  group ≠ [] ∧ ∃ args terms, (∀ w ∈ args, Solid w) ∧ Arguments .endGroup args group terms

section Repeatable

variable {s : Style} {l : Line} {d e : Directive} {opened still : List Text}

theorem repeatable_of_ofLine? (h : ofLine? s l = .ok (some d)) (hkind : d.kind ≠ .closing) :
    Repeatable d.group := by
  obtain ⟨k, hderives⟩ := (derives_of_ofLine? h).2
  obtain ⟨-, -, -, htokens, hargs⟩ := hderives
  rename_i args terms
  have hsolid : ∀ w ∈ args, Solid w := fun w hw => htokens.solid w (List.mem_cons_of_mem _ hw)
  cases hargs with
  | name hname =>
    refine ⟨?_, _, [], hsolid, .name hname⟩
    rintro rfl
    exact hname
  | bare => exact absurd rfl hkind
  | condition _ hts hcompound =>
    refine ⟨?_, _, _, hsolid, .condition (Or.inr rfl) hts hcompound⟩
    rw [hts.joined_eq]
    exact hts.joined_ne_nil

theorem mem_of_mem_dropClosed {group g : Text} (h : g ∈ dropClosed group opened) : g ∈ opened := by
  unfold dropClosed at h
  split at h
  · exact (List.dropWhile_sublist _).mem (List.mem_of_mem_drop h)
  · exact h

theorem repeatable_of_settle? (hopened : ∀ g ∈ opened, Repeatable g)
    (h : ofLine? s l = .ok (some d)) (hsettle : settle? opened d = some (e, still)) :
    ∀ g ∈ still, Repeatable g := by
  rcases settle?_cases hsettle with ⟨hkind, rfl, rfl⟩ | ⟨-, rfl, rfl⟩ | ⟨-, -, rfl, rfl⟩ |
    ⟨-, group, rfl, rfl⟩
  · intro g hg
    rcases List.mem_cons.mp hg with rfl | hg
    · exact repeatable_of_ofLine? h (by simp [hkind])
    · exact hopened g hg
  · exact hopened
  · exact fun g hg => hopened g (mem_of_mem_dropClosed hg)
  · exact fun g hg => hopened g (List.mem_cons_of_mem _ hg)

theorem Repeatable.unbroken {group : Text} (h : Repeatable group) : Unbroken group := by
  obtain ⟨-, args, terms, hsolid, hargs⟩ := h
  cases hargs with
  | name _ => exact unbroken_of_solid (hsolid _ (by simp))
  | bare => exact unbroken_nil
  | condition _ hts _ =>
    rw [hts.joined_eq]
    exact unbroken_joinWith hsolid

theorem Repeatable.flush {group : Text} (h : Repeatable group) : Flush group := by
  obtain ⟨hne, args, terms, hsolid, hargs⟩ := h
  have hjoined : group = joinWith [' '] args := by
    cases hargs with
    | name _ => rfl
    | bare => exact absurd rfl hne
    | condition _ hts _ => exact hts.joined_eq
  cases args with
  | nil => exact absurd hjoined hne
  | cons w ws =>
    obtain ⟨hw, hfirst⟩ := hsolid w List.mem_cons_self
    have hword : Flush w := by
      cases w with
      | nil => exact absurd rfl hw
      | cons c rest => exact flush_cons.mpr (hfirst c List.mem_cons_self)
    rw [hjoined]
    cases ws with
    | nil => exact hword
    | cons v vs =>
      rw [joinWith, List.append_assoc]
      exact hword.append _

end Repeatable

theorem Closed.exchange {closer : Option Text} {rest inner : Text} (h : Closed closer rest inner) :
    ∃ tail, rest = inner ++ tail ∧ ∀ inner', Closed closer (inner' ++ tail) inner' := by
  cases closer with
  | none => exact ⟨[], by simpa [Closed] using h, fun inner' => by simp [Closed]⟩
  | some q =>
    obtain ⟨gap, hgap, rfl⟩ := h
    exact ⟨q ++ gap, rfl, fun inner' => ⟨gap, hgap, rfl⟩⟩

/-- The line with the group written behind the end that stands on it. -/
def ending (s : Style) (group : Text) (l : Line) : Line :=
  match marked? s l.content with
  | none => l
  | some (_, rest) =>
    let cut := l.body.length - rest.length + Keyword.endGroup.text.length
    .ofBody l.index (l.body.take cut ++ ' ' :: group ++ l.body.drop cut) l.terminator

section Ending

variable {s : Style} {i : Nat} {body group : Text} {e : Terminator} {d : Directive}

theorem ofLine?_ending (hleaders : ∀ p ∈ s.leaders, ¬ marker <:+: p)
    (h : ofLine? s (.ofBody i body e) = .ok (some d)) (hbare : d.Bare)
    (hgroup : Repeatable group) : ∃ ts, ofLine? s (ending s group (.ofBody i body e)) =
      .ok (some { d with group, condition := ts }) := by
  obtain ⟨hcloser, k, hderives⟩ := derives_of_ofLine? h
  obtain ⟨hmarked, hclosed, hflush, htokens, hargs⟩ := hderives
  rename_i spaced rest inner group' args terms
  obtain ⟨hkind, hnone⟩ := hbare
  obtain rfl : k = .endGroup := by cases k <;> simp [Keyword.kind] at hkind ⊢
  obtain rfl : group' = [] := hnone
  -- Nothing but white space stands between the end and the closer.
  obtain rfl : args = [] := by
    generalize hnil : ([] : Text) = group' at hargs
    cases hargs with
    | name hname => subst hnil; exact hname.elim
    | bare => rfl
    | condition _ hts _ => exact absurd (hts.joined_eq ▸ hnil).symm hts.joined_ne_nil
  obtain ⟨gap, hgap, rfl⟩ := htokens.single hflush
  obtain ⟨tail, rfl, hbefore⟩ := hclosed.exchange
  obtain ⟨hne, args, ts, hsolid, hargs⟩ := hgroup
  have hjoined : Keyword.endGroup.text ++ ' ' :: group =
      joinWith [' '] (Keyword.endGroup.text :: args) := by
    rw [← hargs.joined_eq, if_neg hne]
    simp [joinWith]
  have htokens' : Tokens (Keyword.endGroup.text ++ ' ' :: group ++ gap)
      (Keyword.endGroup.text :: args) := by
    rw [hjoined]
    refine (words_eq_iff.mp (words_joined fun w hw => ?_)).append_gap hgap
    rcases List.mem_cons.mp hw with rfl | hw
    · exact htokens.solid _ (by simp)
    · exact hsolid w hw
  have hflush' : Flush (Keyword.endGroup.text ++ ' ' :: group ++ gap) := by
    rw [List.append_assoc]
    exact Flush.append (by decide) _
  have hfound := marked?_eq_some_iff.mpr hmarked
  obtain ⟨front, hfront, hexchange⟩ := hmarked.exchange_body hleaders
  have hbody : ending s group (.ofBody i body e) = .ofBody i (front ++ (marker ++
      ((Keyword.endGroup.text ++ ' ' :: group ++ gap) ++ tail))) e := by
    have hsplit : body = (front ++ marker ++ Keyword.endGroup.text) ++ (gap ++ tail) := by
      rw [hfront]
      simp only [List.append_assoc]
    have hcut : body.length - (Keyword.endGroup.text ++ gap ++ tail).length +
        Keyword.endGroup.text.length = (front ++ marker ++ Keyword.endGroup.text).length := by
      rw [hsplit]
      simp only [List.length_append]
      omega
    unfold ending
    simp only [hfound, Line.body_ofBody, hcut]
    conv_lhs => rw [hsplit, List.take_left, List.drop_left]
    simp only [List.append_assoc, List.cons_append]
    rfl
  refine ⟨ts, ?_⟩
  rw [hbody]
  exact (ofLine?_eq_some_iff hcloser).mpr
    ⟨.endGroup, .intro (hexchange _) (hbefore _) hflush' htokens' hargs⟩

/-- Writing the group makes no line break and leaves no line empty. -/
theorem ending_eq (s : Style) (hgroup : Repeatable group) (hbody : Unbroken body) :
    ∃ body', ending s group (.ofBody i body e) = .ofBody i body' e ∧ Unbroken body' ∧
      (body' = [] → body = []) := by
  unfold ending
  split
  · exact ⟨body, rfl, hbody, id⟩
  · have hspace : Unbroken [' '] := by decide
    refine ⟨_, rfl, ?_, by simp⟩
    rw [Line.body_ofBody]
    exact (hbody.of_sublist (List.take_sublist _ _)).append (hspace.append hgroup.unbroken)
      |>.append (hbody.of_sublist (List.drop_sublist _ _))

end Ending

/-- The lines with the innermost open group written on the chosen ends that name none. -/
def nameEnds (s : Style) (p : Nat → Bool) (opened : List Text) : List Line → List Line
  | [] => []
  | l :: ls =>
    match ofLine? s l with
    | .ok (some d) =>
      match settle? opened d with
      | some (e, still) =>
        (if d.Bare ∧ p l.index = true then ending s e.group l else l) :: nameEnds s p still ls
      | none => l :: ls
    | _ => l :: nameEnds s p opened ls

/-- Two unbroken lines at the same place of a text. -/
def Aligned (l m : Line) : Prop :=
  ∃ i body body' e, l = .ofBody i body e ∧ m = .ofBody i body' e ∧ Unbroken body' ∧
    (body' = [] → body = [])

theorem spelled_nameEnds {s : Style} (hleaders : ∀ q ∈ s.leaders, ¬ marker <:+: q)
    (p : Nat → Bool) {opened : List Text} {ls : List Line} {ds : List Directive}
    (hscan : scanFrom s opened ls = (ds, none)) (hopened : ∀ g ∈ opened, Repeatable g)
    (hls : ∀ l ∈ ls, Aligned l l) : Spelled s opened ls (nameEnds s p opened ls) ∧
      List.Forall₂ Aligned ls (nameEnds s p opened ls) := by
  induction ls generalizing opened ds with
  | nil => exact ⟨.nil, .nil⟩
  | cons l ls ih =>
    have hself : Aligned l l := hls l (by simp)
    have hrest : ∀ m ∈ ls, Aligned m m := fun m hm => hls m (List.mem_cons_of_mem l hm)
    rcases scanFrom_cons hscan with ⟨hnone, htail⟩ | ⟨d, e, still, tail, hsome, hsettle, htail, rfl⟩
    · obtain ⟨hspelled, haligned⟩ := ih htail hopened hrest
      rw [nameEnds, hnone]
      exact ⟨.text hnone hspelled, .cons hself haligned⟩
    · obtain ⟨hspelled, haligned⟩ := ih htail (repeatable_of_settle? hopened hsome hsettle) hrest
      rw [nameEnds, hsome]
      simp only [hsettle]
      split
      · rename_i hchosen
        obtain ⟨group, rfl, rfl⟩ := settle?_of_bare hchosen.1 hsettle
        have hgroup : Repeatable group := hopened group (by simp)
        obtain ⟨i, -, body, e, -, rfl, hbody, -⟩ := hself
        obtain ⟨ts, hnamed⟩ := ofLine?_ending hleaders hsome hchosen.1 hgroup
        obtain ⟨body', hending, hbody', hempty⟩ := ending_eq (i := i) (e := e) s hgroup hbody
        exact ⟨.named hsome hchosen.1 hnamed hspelled,
          .cons ⟨i, body, body', e, rfl, hending, hbody', hempty⟩ haligned⟩
      · exact ⟨.kept hsome hsettle hspelled, .cons hself haligned⟩

end Directive

end CommentToggle
