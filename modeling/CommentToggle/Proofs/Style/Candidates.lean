import CommentToggle.Proofs.Layer.Cut

/-!
Which leaders of a style are recognised. A content is tried against the leaders in the order
in which the table entry lists them, and the first that begins it is taken for its leader. So
a leader is hidden by one listed before it that is its beginning, or that goes on from it with
a space and a beginning of the content. All leaders are recognised, in whatever order they are
listed, exactly when none of them is the beginning of another.
-/
namespace CommentToggle

open Text

/-- Behind the last `a` two equal texts are the same. -/
theorem Text.eq_of_append_cons {a : Char} {x y u v : Text} (h : x ++ a :: u = y ++ a :: v)
    (hu : a ∉ u) (hv : a ∉ v) : x = y := by
  rcases List.append_eq_append_iff.mp h with ⟨between, hy, hbetween⟩ | ⟨between, hx, hbetween⟩
  · cases between with
    | nil => simpa using hy.symm
    | cons c between =>
      rw [List.cons_append, List.cons.injEq] at hbetween
      exact absurd (hbetween.2 ▸ by simp) hu
  · cases between with
    | nil => simpa using hx
    | cons c between =>
      rw [List.cons_append, List.cons.injEq] at hbetween
      exact absurd (hbetween.2 ▸ by simp) hv

namespace Style

open Directive

variable {s : Style} {p q content : Text}

/-- The content as a comment of that leader, with a space beside each delimiter. -/
def under (s : Style) (p content : Text) : Text :=
  p ++ ' ' :: (content ++ Layer.behind s true)

/-- The leaders that are tried before `p`. -/
def earlier (s : Style) (p : Text) : List Text := s.leaders.takeWhile (· ≠ p)

/-- A comment of `p` with that content begins with `q` too. -/
inductive Hides (q p content : Text) : Prop
  | beginning : q <+: p → Hides q p content
  | reaching {more : Text} : q = p ++ ' ' :: more → more ≠ [] → more <+: content →
      Hides q p content

/-- The directive that opens a group, without its comment. -/
def opening (group : Text) : Text := marker ++ ("begin ".toList ++ group)

/-- Comments of `p` are read as what they are: each content comes back, each group is opened. -/
structure Recognises (s : Style) (p : Text) : Prop where
  content : ∀ c, trimStart c = c → Layer.strip? s (s.under p c) = some c
  group : ∀ group i e, Name group → ofLine? s (.ofBody i (s.under p (opening group)) e) =
    .ok (some ⟨.opening, group, i, true, true, []⟩)

theorem prefix_under (s : Style) (p content : Text) : p <+: s.under p content :=
  List.prefix_append p _

theorem of_mem_earlier (h : q ∈ s.earlier p) : q ∈ s.leaders ∧ q ≠ p :=
  ⟨(List.takeWhile_sublist _).subset h, by simpa using List.mem_takeWhile_imp h⟩

theorem earlier_of_split {before after : List Text} (hsplit : s.leaders = before ++ p :: after)
    (hnot : p ∉ before) : s.earlier p = before := by
  have hne : ∀ q ∈ before, decide (q ≠ p) = true := by
    intro q hq
    exact decide_eq_true fun heq => hnot (heq ▸ hq)
  rw [earlier, hsplit, List.takeWhile_append_of_pos hne]
  simp

/-- The leader is `p` when none is found before it. -/
theorem firstLeader_iff (hp : p ∈ s.leaders) (hcontent : p <+: content) :
    FirstLeader s content p ↔ ∀ q ∈ s.earlier p, ¬ q <+: content := by
  constructor
  · intro h
    obtain ⟨-, before, after, hsplit, hbefore⟩ := h
    rw [earlier_of_split hsplit fun hmem => hbefore p hmem hcontent]
    exact hbefore
  · intro h
    obtain ⟨before, after, hsplit, hnot⟩ := List.eq_append_cons_of_mem hp
    rw [earlier_of_split hsplit hnot] at h
    exact ⟨hcontent, before, after, hsplit, h⟩

/-- A leader that is reached over a space may lie in the content only, for want of a closer. -/
theorem hides_iff (hs : s.Trimmed) (hq : q ∈ s.leaders) (hnone : s.closer = none) :
    Hides q p content ↔ q <+: s.under p content := by
  have hunder : s.under p content = p ++ ' ' :: content := by simp [under, Layer.behind, hnone]
  rw [hunder]
  constructor
  · intro h
    cases h with
    | beginning hp => exact hp.trans (List.prefix_append p _)
    | reaching heq _ hmore =>
      rw [heq, List.prefix_append_right_inj, List.prefix_cons_inj]
      exact hmore
  · intro h
    rcases List.prefix_or_prefix_of_prefix h (List.prefix_append p _) with hshort | hlong
    · exact .beginning hshort
    · obtain ⟨tail, rfl⟩ := hlong
      rw [List.prefix_append_right_inj, List.prefix_cons_iff] at h
      rcases h with rfl | ⟨more, rfl, hmore⟩
      · exact .beginning (by simp)
      · refine .reaching rfl (fun hnil => ?_) hmore
        subst hnil
        -- A trimmed leader does not end in the space.
        have hend := (hs.flush_leader hq).2
        rw [List.reverse_append] at hend
        exact absurd (flush_cons.mp hend) (by decide)

/-- A style with a closer has a single leader. -/
theorem Shaped.leaders_of_closer (h : s.Shaped) (hq : s.closer = some q) : ∃ p, s.leaders = [p] := by
  cases h with
  | leaders _ hcloser =>
    rw [hcloser] at hq
    cases hq
  | delimiters hleaders _ _ => exact ⟨_, hleaders⟩

section Entry

variable {name : Text} {entry : Table}

theorem earlier_of_closer (h : readEntry name entry = .ok (some s)) (hq : s.closer = some q)
    (hp : p ∈ s.leaders) : s.earlier p = [] := by
  obtain ⟨p', hleaders⟩ := (of_readEntry h).2.leaders_of_closer hq
  rw [hleaders, List.mem_singleton] at hp
  simp [earlier, hleaders, hp]

/-- In front of a closer, the only leader is the one that is found. -/
theorem firstLeader_of_closer (h : readEntry name entry = .ok (some s)) (hq : s.closer = some q)
    (hp : p ∈ s.leaders) : FirstLeader s (s.under p content) p := by
  rw [firstLeader_iff hp (prefix_under s p content), earlier_of_closer h hq hp]
  simp

/-- A comment of `p` has `p` for its leader unless an earlier one hides it. -/
theorem firstLeader_under_iff (h : readEntry name entry = .ok (some s)) (hp : p ∈ s.leaders) :
    FirstLeader s (s.under p content) p ↔ ∀ q ∈ s.earlier p, ¬ Hides q p content := by
  rw [firstLeader_iff hp (prefix_under s p content)]
  cases hcloser : s.closer with
  | some q => simp [earlier_of_closer h hcloser hp]
  | none =>
    refine forall₂_congr fun q hq => not_congr ?_
    exact (hides_iff (trimmed_of_readEntry h) (of_mem_earlier hq).1 hcloser).symm

/-- With no closer to take away, the content comes back behind its own leader only. -/
theorem firstLeader_of_cut (hs : s.Trimmed) (hnone : s.closer = none)
    (hcut : Layer.Cut s (s.under p content) content) : FirstLeader s (s.under p content) p := by
  obtain ⟨hopened, hshut⟩ := hcut
  rename_i p' t spaced
  rw [hnone] at hshut
  obtain rfl : t = content := hshut
  have htext := hopened.text
  have hunder : s.under p t = (p ++ [' ']) ++ t := by
    simp [under, Layer.behind, hnone]
  rw [hunder, ← List.append_assoc, List.append_left_inj] at htext
  cases spaced with
  | true =>
    obtain rfl : p = p' := by simpa [Layer.gap] using htext
    exact hopened.leader
  | false =>
    -- The leader found would be the one written with its space, which no leader ends in.
    have hend := (hs.flush_leader (leader?_eq_some (leader?_eq_some_iff.mpr hopened.leader)).1).2
    have heq : p' = p ++ [' '] := by simpa [Layer.gap] using htext.symm
    rw [heq, List.reverse_append] at hend
    exact absurd (flush_cons.mp hend) (by decide)

theorem cut_under (hs : s.Trimmed) (hfirst : FirstLeader s (s.under p content) p) :
    Layer.Cut s (s.under p content) content := by
  have hopened : Layer.Opened s (s.under p content) p true (content ++ Layer.behind s true) :=
    ⟨hfirst, rfl, fun hspaced => by cases hspaced⟩
  refine .intro hopened ?_
  cases hcloser : s.closer with
  | none => simp [Layer.behind, hcloser, Layer.Shut]
  | some q =>
    have hback := Layer.uncloser?_behind (hs.flush_closer hcloser).2 true content
    rw [← Layer.uncloser?_eq_some_iff (hs.flush_closer hcloser).2]
    simpa [Layer.behind, hcloser] using hback

/-- The content comes back when the leader that was written is the one that is found. -/
theorem strip?_under_iff (h : readEntry name entry = .ok (some s)) (hp : p ∈ s.leaders) :
    Layer.strip? s (s.under p content) = some content ↔ FirstLeader s (s.under p content) p := by
  have hs := trimmed_of_readEntry h
  rw [Layer.strip?_eq_some_iff hs]
  constructor
  · intro hcut
    cases hcloser : s.closer with
    | some q => exact firstLeader_of_closer h hcloser hp
    | none => exact firstLeader_of_cut hs hcloser hcut
  · exact cut_under hs

theorem trimStart_opening (group : Text) : trimStart (opening group) = opening group := rfl

theorem behind_eq (s : Style) :
    Layer.behind s true = Layer.gap s.closer.isSome ++ s.closer.getD [] := by
  unfold Layer.behind
  cases s.closer <;> rfl

/-- An opening directive behind the leader that is found. -/
theorem derives_opening {group : Text} (i : Nat) (hgroup : Name group)
    (hfirst : FirstLeader s (s.under p (opening group)) p) :
    Derives s i (s.under p (opening group)) .beginGroup ⟨.opening, group, i, true, true, []⟩ := by
  have hspace : Blank [' '] := blank_nil.cons (by decide)
  have hgap : Blank (Layer.gap s.closer.isSome) := by
    cases s.closer with
    | none => exact blank_nil
    | some q => exact hspace
  have hstop : (Layer.gap s.closer.isSome).head?.all isBlank = true := by
    cases s.closer <;> rfl
  have htokens : Tokens ("begin".toList ++ ([' '] ++ (group ++ Layer.gap s.closer.isSome)))
      [Keyword.beginGroup.text, group] :=
    .first (by decide) rfl (.word hspace hgroup.solid hstop (.none hgap))
  have hclosed : Closed s.closer ("begin ".toList ++ group ++ Layer.behind s true)
      ("begin".toList ++ ([' '] ++ (group ++ Layer.gap s.closer.isSome))) := by
    rw [behind_eq]
    cases s.closer with
    | none => simp [Closed]
    | some q => exact ⟨[], blank_nil, by simp⟩
  have hmarked : Marked s (s.under p (opening group)) true
      ("begin ".toList ++ group ++ Layer.behind s true) :=
    .spaced hfirst (by simp [under, opening])
  exact .intro hmarked hclosed ⟨'b', _, rfl, by decide⟩ htokens (.name hgroup)

/-- A line that opens the group begins with the leader that was written: a colon stands
in the marker, and none in what follows it. -/
theorem firstLeader_of_derives {group : Text} {i : Nat} {k : Keyword} (hgroup : Name group)
    (hnone : s.closer = none)
    (h : Derives s i (s.under p (opening group)) k ⟨.opening, group, i, true, true, []⟩) :
    FirstLeader s (s.under p (opening group)) p := by
  generalize hd : (⟨.opening, group, i, true, true, []⟩ : Directive) = d at h
  obtain ⟨hmarked, hinner, -, htokens, hargs⟩ := h
  rename_i spaced rest inner group' args terms
  rw [Directive.mk.injEq] at hd
  obtain ⟨hkind, rfl, -, hexclusive, rfl, rfl⟩ := hd
  rw [hnone] at hinner
  obtain rfl : rest = inner := hinner
  have hcolon : ':' ∉ group := hgroup.not_mem (by rw [← isNameRest_iff]; decide)
  have hrest : ':' ∉ rest := by
    intro hmem
    have hword := (htokens.mem hmem).resolve_left (by decide)
    cases hargs with
    | name =>
      simp only [List.mem_cons, List.not_mem_nil, or_false, exists_eq_or_imp,
        exists_eq_left] at hword
      refine hword.elim (fun hk => ?_) hcolon
      revert hk
      cases k <;> decide
    | bare => cases hkind
    | condition hk =>
      rcases hk with rfl | rfl
      · cases hexclusive
      · cases hkind
  cases hmarked with
  | spaced hfirst hcontent =>
    rename_i p'
    have hsplit : (p ++ " smc".toList) ++ ':' :: ("begin ".toList ++ group) =
        (p' ++ " smc".toList) ++ ':' :: rest := by
      simpa [under, opening, Layer.behind, hnone, marker] using hcontent
    have hbody : ':' ∉ "begin ".toList ++ group := by simpa using hcolon
    obtain rfl : p = p' := List.append_cancel_right (eq_of_append_cons hsplit hbody hrest)
    exact hfirst

/-- The group is opened when the leader that was written is the one that is found. -/
theorem ofLine?_under_iff (h : readEntry name entry = .ok (some s)) (hp : p ∈ s.leaders)
    {group : Text} (hgroup : Name group) (i : Nat) (e : Terminator) :
    ofLine? s (.ofBody i (s.under p (opening group)) e) =
      .ok (some ⟨.opening, group, i, true, true, []⟩) ↔
      FirstLeader s (s.under p (opening group)) p := by
  have hs := trimmed_of_readEntry h
  have hcontent : trimStart (s.under p (opening group)) = s.under p (opening group) :=
    ((hs.flush_leader hp).1.append _).trimStart
  have hcloser : ∀ q ∈ s.closer, q ≠ [] ∧ trimEnd q = q := by
    intro q hq
    have hend := trimEnd_append_of_flush (hs.flush_closer hq).2 []
    exact ⟨(hs.closer q hq).1, hend⟩
  rw [ofLine?_eq_some_iff hcloser]
  change (∃ k, Derives s i (trimStart _) k _) ↔ _
  rw [hcontent]
  constructor
  · intro hderives
    obtain ⟨k, hk⟩ := hderives
    cases hq : s.closer with
    | none => exact firstLeader_of_derives hgroup hq hk
    | some q => exact firstLeader_of_closer h hq hp
  · exact fun hfirst => ⟨.beginGroup, derives_opening i hgroup hfirst⟩

/-- In the order of the entry, a leader is recognised when none before it is its beginning or
goes on from it with a space and some text. -/
theorem recognises_iff (h : readEntry name entry = .ok (some s)) (hp : p ∈ s.leaders) :
    s.Recognises p ↔ ∀ q ∈ s.earlier p, ¬ q <+: p ∧ ∀ more, q = p ++ ' ' :: more → ¬ Flush more := by
  constructor
  · intro hrecognises q hq
    have hfree (c : Text) (hc : trimStart c = c) : ¬ Hides q p c :=
      (firstLeader_under_iff h hp).mp ((strip?_under_iff h hp).mp (hrecognises.content c hc)) q hq
    refine ⟨fun hbeginning => hfree [] rfl (.beginning hbeginning), fun more heq hflush => ?_⟩
    exact hfree more hflush.trimStart (.reaching heq hflush.ne_nil (List.prefix_refl more))
  · intro hfree
    have hnot (c : Text) (hc : trimStart c = c) : ∀ q ∈ s.earlier p, ¬ Hides q p c := by
      intro q hq hhides
      obtain ⟨hbeginning, hreaching⟩ := hfree q hq
      cases hhides with
      | beginning hprefix => exact hbeginning hprefix
      | reaching heq hne hmore =>
        obtain ⟨rest, rfl⟩ := hmore
        refine hreaching _ heq ?_
        obtain ⟨d, more, rfl⟩ := List.exists_cons_of_ne_nil hne
        have hflush := flush_iff.mpr ⟨by simp, hc⟩
        exact flush_cons.mpr (flush_cons.mp hflush)
    constructor
    · intro c hc
      exact (strip?_under_iff h hp).mpr ((firstLeader_under_iff h hp).mpr (hnot c hc))
    · intro group i e hgroup
      rw [ofLine?_under_iff h hp hgroup, firstLeader_under_iff h hp]
      exact hnot _ (trimStart_opening group)

/-- Trimmed leaders in any order are those of some entry. -/
theorem readEntry_listed (name : Text) {ts : List Text} (husable : Usable ts) (htrim : ∀ p ∈ ts, trim p = p) :
    readEntry name [("line_prefix".toList, .list (ts.map .text))] =
      .ok (some ⟨name, ts, none, husable⟩) := by
  have hdisplay : (ts.map Value.text).map Value.display = ts := by
    rw [List.map_map]
    exact List.map_id ts
  have htrimmed : trimmed ts = ts := by
    rw [trimmed, List.map_congr_left htrim, List.map_id', List.filter_eq_self]
    intro p hp
    have hne : p ≠ [] := fun hnil => husable.2 (hnil ▸ hp)
    simpa using hne
  have hset : (Value.list (ts.map Value.text)).isSet = true := by
    simpa [Value.isSet] using husable.1
  have hleaders : ofLeaders? name (.list (ts.map .text)) = .ok (some ⟨name, ts, none, husable⟩) := by
    rw [ofLeaders?, if_pos hset]
    change Except.ok (ofParts? name (trimmed ((ts.map Value.text).map Value.display)) none) = _
    rw [hdisplay, htrimmed, ofParts?, dif_pos husable]
  exact Outcome.bind_eq_ok_iff.mpr ⟨_, hleaders, rfl⟩

/-- Leaders are recognised in every order in which an entry may list them when none is the
beginning of another. -/
theorem recognises_in_any_order_iff (h : readEntry name entry = .ok (some s)) :
    (∀ entry' t, readEntry name entry' = .ok (some t) → t.leaders.Perm s.leaders →
      t.closer = s.closer → ∀ p ∈ t.leaders, t.Recognises p) ↔
    ∀ p ∈ s.leaders, ∀ q ∈ s.leaders, q <+: p → q = p := by
  constructor
  · intro hall p hp q hq hprefix
    by_contra hne
    have hnone : s.closer = none := by
      by_contra hsome
      obtain ⟨q', hcloser⟩ := Option.ne_none_iff_exists'.mp hsome
      obtain ⟨p', hleaders⟩ := (of_readEntry h).2.leaders_of_closer hcloser
      rw [hleaders, List.mem_singleton] at hp hq
      exact hne (hq.trans hp.symm)
    -- The order that fails lists the beginning first.
    have hperm := (List.perm_cons_erase hq).symm
    have husable : Usable (q :: s.leaders.erase q) :=
      ⟨by simp, fun hmem => s.usable.2 (hperm.subset hmem)⟩
    have hread := readEntry_listed name husable fun p hp =>
      (trimmed_of_readEntry h).leader p (hperm.subset hp)
    have hp' := hperm.symm.subset hp
    have hfree := (recognises_iff hread hp').mp (hall _ _ hread hperm hnone.symm p hp') q
      (by simp [earlier, hne])
    exact hfree.1 hprefix
  · intro hfree entry' t hread hperm _ p hp
    refine (recognises_iff hread hp).mpr fun q hq => ?_
    obtain ⟨hmem, hne⟩ := of_mem_earlier hq
    have hp' := hperm.subset hp
    have hq' := hperm.subset hmem
    refine ⟨fun hprefix => hne (hfree p hp' q hq' hprefix), fun more heq _ => ?_⟩
    exact hne (hfree q hq' p hp' ⟨_, heq.symm⟩).symm

/-- A comment is read back, and a group opened, exactly when no leader listed before the one
that was written hides it; a leader is recognised with every content and group when none before
it is its beginning or goes on from it with a space; and leaders are recognised in whatever order
they are listed when none is the beginning of another. -/
theorem recognises_listed_iff (h : Gives name entry s) :
    (∀ p ∈ s.leaders,
      (∀ c, trimStart c = c →
        (Layer.strip? s (s.under p c) = some c ↔ ∀ q ∈ s.earlier p, ¬ Hides q p c)) ∧
      (∀ group i e, Name group →
        (ofLine? s (.ofBody i (s.under p (opening group)) e) =
            .ok (some ⟨.opening, group, i, true, true, []⟩) ↔
          ∀ q ∈ s.earlier p, ¬ Hides q p (opening group))) ∧
      (s.Recognises p ↔
        ∀ q ∈ s.earlier p, ¬ q <+: p ∧ ∀ more, q = p ++ ' ' :: more → ¬ Flush more)) ∧
    ((∀ entry' t, Gives name entry' t → t.leaders.Perm s.leaders →
        t.closer = s.closer → ∀ p ∈ t.leaders, t.Recognises p) ↔
      ∀ p ∈ s.leaders, ∀ q ∈ s.leaders, q <+: p → q = p) := by
  rw [gives_iff] at h
  simp only [gives_iff]
  refine ⟨fun p hp => ⟨fun c _ => ?_, fun group i e hgroup => ?_, recognises_iff h hp⟩,
    recognises_in_any_order_iff h⟩
  · exact (strip?_under_iff h hp).trans (firstLeader_under_iff h hp)
  · exact (ofLine?_under_iff h hp hgroup i e).trans (firstLeader_under_iff h hp)

end Entry

/-- A line comment that another leader, spelled with a word, may be taken for. -/
def semicolons : Style :=
  ⟨"asm".toList, [";;".toList, "; note".toList, ";".toList], none, by decide⟩

def semicolonsEntry : Table :=
  [("line_prefix".toList, .list [.text ";; ".toList, .text "; note".toList, .text ";".toList])]

/-- The shortest leader is listed last: it is found, but not before the word that makes it
another one, and in another order it would hide the first. -/
theorem recognises_listed_semicolons :
    Gives "asm".toList semicolonsEntry semicolons ∧
    Layer.strip? semicolons "; x = 1".toList = some "x = 1".toList ∧
    Layer.strip? semicolons "; note: x".toList ≠ some "note: x".toList ∧
    ofLine? semicolons (.ofBody 4 "; smc:begin dark".toList .lf) =
      .ok (some ⟨.opening, "dark".toList, 4, true, true, []⟩) ∧
    ¬ ∀ entry' t, Gives "asm".toList entry' t →
      t.leaders.Perm semicolons.leaders → t.closer = semicolons.closer →
        ∀ p ∈ t.leaders, t.Recognises p := by
  have hentry : Gives "asm".toList semicolonsEntry semicolons :=
    gives_iff.mpr rfl
  have hhides (c : Text) : ∀ q ∈ semicolons.earlier ";".toList,
      Hides q ";".toList c ↔ q <+: semicolons.under ";".toList c :=
    fun q hq => hides_iff (by decide) (of_mem_earlier hq).1 rfl
  have hlisted := recognises_listed_iff hentry
  obtain ⟨hcontent, hgroup, -⟩ := hlisted.1 ";".toList (by decide)
  have hname : Name "dark".toList := isName_iff.mp (by decide)
  refine ⟨hentry, (hcontent "x = 1".toList (by decide)).mpr ?_, fun hback => ?_,
    (hgroup "dark".toList 4 .lf hname).mpr ?_, fun hall => ?_⟩
  · exact fun q hq => mt (hhides _ q hq).mp (by revert q; decide)
  · have hfree := (hcontent "note: x".toList (by decide)).mp hback "; note".toList (by decide)
    exact hfree ((hhides _ _ (by decide)).mpr (by decide))
  · exact fun q hq => mt (hhides _ q hq).mp (by revert q; decide)
  · exact absurd (hlisted.2.mp hall ";;".toList (by decide) ";".toList (by decide) (by decide))
      (by decide)

end Style

end CommentToggle
