import CommentToggle.Proofs.Directive.Scan
import CommentToggle.Proofs.Layer.Inverse
import CommentToggle.Proofs.Text.Words

/-!
The grammar of directives, stated without the reader. The content of a line carries
the marker after the first leader that begins it and at most one space; what follows
stands before the closer, begins with a character that is no white space, and its
words are a keyword and the arguments the keyword takes. The reader accepts exactly
these lines, and reports every other line that carries the marker.
-/
namespace CommentToggle.Directive

open Text

/-- The characters a name begins with. -/
def NameStart (c : Char) : Prop :=
  ('A' ≤ c ∧ c ≤ 'Z') ∨ ('a' ≤ c ∧ c ≤ 'z') ∨ ('0' ≤ c ∧ c ≤ '9') ∨ c = '_'

def NameRest (c : Char) : Prop := NameStart c ∨ c = '.' ∨ c = '+' ∨ c = '-'

def Name : Text → Prop
  | [] => False
  | c :: rest => NameStart c ∧ ∀ d ∈ rest, NameRest d

/-- A term is a name, after an exclamation mark when it is negated. -/
inductive TermText : Text → Term → Prop
  | plain {name : Text} : Name name → TermText name ⟨name, false⟩
  | negated {name : Text} : Name name → TermText ('!' :: name) ⟨name, true⟩

inductive Condition : List Text → List Term → Prop
  | last {w : Text} {t : Term} : TermText w t → Condition [w] [t]
  | more {w : Text} {t : Term} {ws : List Text} {ts : List Term} : TermText w t →
      Condition ws ts → Condition (w :: "&&".toList :: ws) (t :: ts)

/-- Two terms at least, or a negated one: a single plain term is a name. -/
def Compound (ts : List Term) : Prop := 2 ≤ ts.length ∨ ∃ t ∈ ts, t.negated = true

/-- What may follow a keyword, with the group and the terms it stands for. -/
inductive Arguments : Keyword → List Text → Text → List Term → Prop
  | name {k : Keyword} {name : Text} : Name name → Arguments k [name] name []
  | bare : Arguments .endGroup [] [] []
  | condition {k : Keyword} {ws : List Text} {ts : List Term} :
      k = .beginFlag ∨ k = .endGroup → Condition ws ts → Compound ts →
      Arguments k ws (Term.joined ts) ts

/-- The first leader that begins the content. -/
def FirstLeader (s : Style) (content p : Text) : Prop :=
  p <+: content ∧ ∃ before after, s.leaders = before ++ p :: after ∧
    ∀ q ∈ before, ¬ q <+: content

/-- `rest` follows the marker, which follows the leader, after a space when `spaced`. -/
inductive Marked (s : Style) (content : Text) : Bool → Text → Prop
  | tight {p rest : Text} : FirstLeader s content p → content = p ++ (marker ++ rest) →
      Marked s content false rest
  | spaced {p rest : Text} : FirstLeader s content p →
      content = p ++ ' ' :: (marker ++ rest) → Marked s content true rest

/-- `inner` stands before the closer, which only white space may follow. -/
def Closed : Option Text → Text → Text → Prop
  | none, rest, inner => rest = inner
  | some q, rest, inner => ∃ gap, Blank gap ∧ rest = inner ++ (q ++ gap)

/-- The content of a line with the given index is a directive. -/
inductive Derives (s : Style) (index : Nat) (content : Text) : Keyword → Directive → Prop
  | intro {spaced : Bool} {rest inner group : Text} {k : Keyword} {args : List Text}
      {terms : List Term} : Marked s content spaced rest → Closed s.closer rest inner →
      Flush inner → Tokens inner (k.text :: args) → Arguments k args group terms →
      Derives s index content k ⟨k.kind, group, index, k.isExclusive, spaced, terms⟩

/-- A directive as it is written after the marker, its arguments in normal form. -/
def written (k : Keyword) (group : Text) (closer : Option Text) : Text :=
  joinWith [' '] (k.text :: if group = [] then [] else [group]) ++ closer.getD []

theorem isNameStart_iff {c : Char} : isNameStart c = true ↔ NameStart c := by
  unfold isNameStart NameStart
  delta Char.isAlphanum Char.isAlpha Char.isUpper Char.isLower Char.isDigit
  simp only [Bool.or_eq_true, Bool.and_eq_true, decide_eq_true_eq, Char.le_def, ge_iff_le]
  tauto

theorem isNameRest_iff {c : Char} : isNameRest c = true ↔ NameRest c := by
  simp only [isNameRest, NameRest, Bool.or_eq_true, isNameStart_iff, decide_eq_true_eq]
  tauto

theorem isName_iff {t : Text} : isName t = true ↔ Name t := by
  cases t with
  | nil => simp [isName, Name]
  | cons c rest =>
    simp [isName, Name, isNameStart_iff, isNameRest_iff]

theorem Name.ne_bang {name : Text} (h : Name name) : name.head? ≠ some '!' := by
  cases name with
  | nil => simp
  | cons c rest =>
    intro hc
    simp only [List.head?_cons, Option.some.injEq] at hc
    subst hc
    have hstart := isNameStart_iff.mpr h.1
    exact absurd hstart (by decide)

theorem Name.not_mem {group : Text} (h : Name group) {c : Char} (hc : ¬ NameRest c) :
    c ∉ group := by
  cases group with
  | nil => simp
  | cons d rest =>
    intro hmem
    rcases List.mem_cons.mp hmem with heq | hmem
    · exact hc (.inl (heq ▸ h.1))
    · exact hc (h.2 c hmem)

theorem Name.solid {group : Text} (h : Name group) : Solid group := by
  refine ⟨fun hnil => by subst hnil; exact h, fun c hc => ?_⟩
  rw [← Bool.not_eq_true]
  intro hblank
  refine h.not_mem (c := c) ?_ hc
  rw [← isNameRest_iff]
  have hall : blanks.all (!isNameRest ·) = true := by decide
  have hnot := List.all_eq_true.mp hall c (List.contains_iff_mem.mp hblank)
  simpa using hnot

theorem readTerm_of_plain {w : Text} (h : w.head? ≠ some '!') :
    readTerm w = if isName w then .ok ⟨w, false⟩ else .error (.invalidTerm w) := by
  unfold readTerm
  split
  · simp at h
  · rfl

theorem readTerm_eq_ok_iff {w : Text} {t : Term} : readTerm w = .ok t ↔ TermText w t := by
  constructor
  · intro h
    by_cases hbang : w.head? = some '!'
    · obtain ⟨name, rfl⟩ : ∃ name, w = '!' :: name := by
        cases w <;> simp_all
      change (if isName name then Except.ok (⟨name, true⟩ : Term) else _) = _ at h
      split at h
      · rename_i hname
        cases h
        exact .negated (isName_iff.mp hname)
      · cases h
    · rw [readTerm_of_plain hbang] at h
      split at h
      · rename_i hname
        cases h
        exact .plain (isName_iff.mp hname)
      · cases h
  · intro h
    cases h with
    | plain hname => rw [readTerm_of_plain hname.ne_bang, if_pos (isName_iff.mpr hname)]
    | negated hname => exact if_pos (isName_iff.mpr hname)

theorem readTerms_eq_ok_iff {ws : List Text} {ts : List Term} :
    readTerms ws = .ok ts ↔ Condition ws ts := by
  constructor
  · intro h
    fun_induction readTerms ws generalizing ts with
    | case1 => cases h
    | case2 word =>
      obtain ⟨t, ht, h⟩ := Outcome.bind_eq_ok_iff.mp h
      cases h
      exact .last (readTerm_eq_ok_iff.mp ht)
    | case3 word joint rest ih =>
      obtain ⟨t, ht, hrest⟩ := Outcome.bind_eq_ok_iff.mp h
      split at hrest
      · rename_i hjoint
        obtain ⟨us, hus, hlast⟩ := Outcome.bind_eq_ok_iff.mp hrest
        cases hlast
        rw [hjoint]
        exact .more (readTerm_eq_ok_iff.mp ht) (ih hus)
      · cases hrest
  · intro h
    induction h with
    | last ht => exact Outcome.bind_eq_ok_iff.mpr ⟨_, readTerm_eq_ok_iff.mpr ht, rfl⟩
    | more ht _ ih =>
      refine Outcome.bind_eq_ok_iff.mpr ⟨_, readTerm_eq_ok_iff.mpr ht, ?_⟩
      rw [if_pos rfl]
      exact Outcome.bind_eq_ok_iff.mpr ⟨_, ih, rfl⟩

theorem TermText.text_eq {w : Text} {t : Term} (h : TermText w t) : t.text = w := by
  cases h <;> rfl

theorem Condition.joined_eq {ws : List Text} {ts : List Term} (h : Condition ws ts) :
    Term.joined ts = joinWith [' '] ws := by
  induction h with
  | last ht => simp [Term.joined, joinWith, ht.text_eq]
  | @more w t ws ts ht hrest ih =>
    obtain ⟨u, us, rfl⟩ : ∃ u us, ts = u :: us := by cases hrest <;> exact ⟨_, _, rfl⟩
    obtain ⟨v, vs, rfl⟩ : ∃ v vs, ws = v :: vs := by cases hrest <;> exact ⟨_, _, rfl⟩
    have hjoined : Term.joined (t :: u :: us) = t.text ++ " && ".toList ++ Term.joined (u :: us) :=
      rfl
    rw [hjoined, ih, ht.text_eq, joinWith, joinWith]
    simp

theorem Condition.ne_nil {ws : List Text} {ts : List Term} (h : Condition ws ts) :
    ws ≠ [] ∧ ts ≠ [] := by
  cases h <;> simp

theorem takesCondition_iff {k : Keyword} :
    k.takesCondition = true ↔ k = .beginFlag ∨ k = .endGroup := by
  simp [Keyword.takesCondition]

/-- Conditions are looked for exactly where they are compound. -/
theorem Condition.isCondition_iff {k : Keyword} {ws : List Text} {ts : List Term}
    (h : Condition ws ts) :
    isCondition k ws = true ↔ (k = .beginFlag ∨ k = .endGroup) ∧ Compound ts := by
  cases h with
  | last ht =>
    cases ht with
    | plain hname =>
      have hbang := hname.ne_bang
      simp [isCondition, Compound, hbang]
    | negated hname => simp [isCondition, Compound, takesCondition_iff]
  | more ht hrest =>
    rename_i t ws ts
    have hlen : 1 ≤ ts.length := List.length_pos_iff.mpr hrest.ne_nil.2
    have hcompound : Compound (t :: ts) := Or.inl (by simpa using hlen)
    simp only [isCondition, takesCondition_iff, hcompound, and_true]

theorem isCondition_name {k : Keyword} {name : Text} (h : Name name) :
    isCondition k [name] = false := by
  simp [isCondition, h.ne_bang]

theorem readName_eq_ok_iff {k : Keyword} {ws : List Text} {group : Text} :
    readName k ws = .ok group ↔
      (ws = [group] ∧ Name group) ∨ (k = .endGroup ∧ ws = [] ∧ group = []) := by
  match ws with
  | [] => by_cases hk : k = .endGroup <;> simp [readName, hk, eq_comm]
  | [word] =>
    by_cases hname : isName word = true
    · simp [readName, hname, ← isName_iff]
      rintro rfl
      exact hname
    · simp [readName, hname, ← isName_iff]
      rintro rfl
      simpa using hname
  | _ :: word :: _ => simp [readName]

theorem readArguments_eq_ok_iff {k : Keyword} {ws : List Text} {group : Text}
    {terms : List Term} :
    readArguments k ws = .ok (group, terms) ↔ Arguments k ws group terms := by
  unfold readArguments
  constructor
  · intro h
    split at h
    · rename_i hcondition
      obtain ⟨ts, hts, h⟩ := Outcome.bind_eq_ok_iff.mp h
      cases h
      have hts := readTerms_eq_ok_iff.mp hts
      obtain ⟨hk, hcompound⟩ := hts.isCondition_iff.mp hcondition
      exact .condition hk hts hcompound
    · obtain ⟨name, hname, h⟩ := Outcome.bind_eq_ok_iff.mp h
      cases h
      rcases readName_eq_ok_iff.mp hname with ⟨rfl, hgroup⟩ | ⟨rfl, rfl, rfl⟩
      · exact .name hgroup
      · exact .bare
  · intro h
    cases h with
    | name hname =>
      rw [isCondition_name hname]
      exact Outcome.bind_eq_ok_iff.mpr ⟨_, readName_eq_ok_iff.mpr (.inl ⟨rfl, hname⟩), rfl⟩
    | bare => rfl
    | condition hk hts hcompound =>
      rw [if_pos (hts.isCondition_iff.mpr ⟨hk, hcompound⟩)]
      exact Outcome.bind_eq_ok_iff.mpr ⟨_, readTerms_eq_ok_iff.mpr hts, rfl⟩

theorem head_isBlank_iff {t : Text} : t.head?.all isBlank = false ↔ Flush t := by
  cases t with
  | nil => simp [Flush]
  | cons c t => rw [flush_cons]; simp

theorem readKeyword_eq_ok_iff {inner : Text} {k : Keyword} {args : List Text} :
    readKeyword inner = .ok (k, args) ↔ Flush inner ∧ Tokens inner (k.text :: args) := by
  rw [← words_eq_iff]
  unfold readKeyword
  constructor
  · intro h
    split at h
    · cases h
    · rename_i hblank
      split at h
      · cases h
      · rename_i word rest hwords
        split at h
        · rename_i k' hk
          cases h
          refine ⟨head_isBlank_iff.mp (by simpa using hblank), ?_⟩
          rw [hwords, Keyword.text_of_ofText? hk]
        · cases h
  · intro hspec
    obtain ⟨hflush, hwords⟩ := hspec
    rw [head_isBlank_iff.mpr hflush, hwords, if_neg (by simp)]
    simp only [Keyword.ofText?_text]

theorem cutCloser?_eq_some_iff {q t inner : Text} (hne : q ≠ []) :
    Style.cutCloser? q t = some inner ↔ t = inner ++ q := by
  constructor
  · intro h
    have hsuffix : q <:+ t := by
      rw [← List.isSuffixOf_iff_suffix]
      unfold Style.cutCloser? at h
      split at h
      · assumption
      · cases h
    obtain ⟨front, rfl⟩ := hsuffix
    rw [Layer.cutCloser?_append hne, Option.some.injEq] at h
    rw [h]
  · rintro rfl
    exact Layer.cutCloser?_append hne inner

/-- A closer that is there and does not end with white space is found where it stands. -/
theorem withoutCloser_eq_ok_iff {closer : Option Text} {rest inner : Text}
    (hcloser : ∀ q ∈ closer, q ≠ [] ∧ trimEnd q = q) :
    withoutCloser closer rest = .ok inner ↔ Closed closer rest inner := by
  cases closer with
  | none => simp [withoutCloser, Closed]
  | some q =>
    obtain ⟨hne, htrim⟩ := hcloser q rfl
    unfold withoutCloser Closed
    constructor
    · intro h
      simp only at h
      split at h
      · rename_i inner' hcut
        cases h
        obtain ⟨gap, hgap, hrest⟩ := exists_gap rest
        rw [(cutCloser?_eq_some_iff hne).mp hcut, List.append_assoc] at hrest
        exact ⟨gap, hgap, hrest⟩
      · cases h
    · intro h
      obtain ⟨gap, hgap, rfl⟩ := h
      have hend : trimEnd (inner ++ (q ++ gap)) = inner ++ q := by
        rw [← List.append_assoc, trimEnd_append_gap hgap,
          trimEnd_append_of_flush (flush_reverse_of_trimEnd hne htrim)]
      simp only [hend, (cutCloser?_eq_some_iff hne).mpr rfl]

/-- A closer behind which something can be read is there and does not end with white space. -/
theorem closer_of_withoutCloser {q rest inner : Text}
    (h : withoutCloser (some q) rest = .ok inner) (hinner : inner ≠ []) :
    q ≠ [] ∧ trimEnd q = q := by
  simp only [withoutCloser] at h
  split at h
  · rename_i hcut
    cases h
    have hne : q ≠ [] := by
      rintro rfl
      exact hinner (by simpa [Style.cutCloser?, eq_comm] using hcut)
    have hend : trimEnd rest = inner ++ q := (cutCloser?_eq_some_iff hne).mp hcut
    have hflush : Flush (trimEnd rest).reverse := by
      rw [trimEnd, List.reverse_reverse]
      refine (flush_trimStart rest.reverse).resolve_left fun hnil => hne ?_
      rw [trimEnd, show rest.reverse.dropWhile isBlank = [] from hnil] at hend
      exact (List.append_eq_nil_iff.mp hend.symm).2
    refine ⟨hne, ?_⟩
    obtain ⟨c, front, hfront⟩ := List.exists_cons_of_ne_nil (List.reverse_ne_nil_iff.mpr hne)
    rw [hend, List.reverse_append, hfront, List.cons_append, flush_cons] at hflush
    have hq : Flush q.reverse := hfront ▸ flush_cons.mpr hflush
    exact trimEnd_append_of_flush hq []
  · cases h

theorem leader?_eq_some_iff {s : Style} {content p : Text} :
    s.leader? content = some p ↔ FirstLeader s content p := by
  unfold Style.leader? FirstLeader
  rw [List.find?_eq_some_iff_append, List.isPrefixOf_iff_prefix]
  refine and_congr_right fun _ => ⟨?_, ?_⟩
  · rintro ⟨before, after, hleaders, hbefore⟩
    refine ⟨before, after, hleaders, fun q hq hprefix => ?_⟩
    have hnot := hbefore q hq
    simp [List.isPrefixOf_iff_prefix.mpr hprefix] at hnot
  · rintro ⟨before, after, hleaders, hbefore⟩
    refine ⟨before, after, hleaders, fun q hq => ?_⟩
    have hnot := hbefore q hq
    rw [← List.isPrefixOf_iff_prefix] at hnot
    simp [hnot]

theorem marked?_eq_some_iff {s : Style} {content rest : Text} {spaced : Bool} :
    marked? s content = some (spaced, rest) ↔ Marked s content spaced rest := by
  unfold marked? Style.uncover?
  constructor
  · intro h
    obtain ⟨⟨spaced', after⟩, huncover, hmarker⟩ := Option.bind_eq_some_iff.mp h
    obtain ⟨rest', hrest, heq⟩ := Option.map_eq_some_iff.mp hmarker
    cases heq
    rw [List.isPrefixOf?_eq_some_iff_append_eq] at hrest
    subst hrest
    obtain ⟨p, hp, hdrop⟩ := Option.map_eq_some_iff.mp huncover
    have hfirst := leader?_eq_some_iff.mp hp
    obtain ⟨tail, rfl⟩ := hfirst.1
    rw [List.drop_left] at hdrop
    unfold Style.dropSpace at hdrop
    split at hdrop
    · cases hdrop
      exact .spaced hfirst rfl
    · cases hdrop
      exact .tight hfirst rfl
  · intro h
    have hmarker : marker.isPrefixOf? (marker ++ rest) = some rest :=
      List.isPrefixOf?_eq_some_iff_append_eq.mpr rfl
    cases h with
    | tight hfirst hcontent =>
      rename_i p
      have hdrop : Style.dropSpace (content.drop p.length) = (false, marker ++ rest) := by
        rw [hcontent, List.drop_left]
        rfl
      rw [leader?_eq_some_iff.mpr hfirst, Option.map_some, hdrop, Option.bind_some]
      exact congrArg (Option.map _) hmarker
    | spaced hfirst hcontent =>
      rename_i p
      have hdrop : Style.dropSpace (content.drop p.length) = (true, marker ++ rest) := by
        rw [hcontent, List.drop_left]
        rfl
      rw [leader?_eq_some_iff.mpr hfirst, Option.map_some, hdrop, Option.bind_some]
      exact congrArg (Option.map _) hmarker

theorem marked?_eq_none_iff {s : Style} {content : Text} :
    marked? s content = none ↔ ¬ ∃ spaced rest, Marked s content spaced rest := by
  constructor
  · rintro hnone ⟨spaced, rest, h⟩
    rw [marked?_eq_some_iff.mpr h] at hnone
    cases hnone
  · intro h
    cases hmarked : marked? s content with
    | none => rfl
    | some found => exact absurd ⟨_, _, marked?_eq_some_iff.mp hmarked⟩ h

theorem readBody_eq_ok_iff {s : Style} {index : Nat} {spaced : Bool} {rest : Text}
    {d : Directive} (hcloser : ∀ q ∈ s.closer, q ≠ [] ∧ trimEnd q = q) :
    readBody s index spaced rest = .ok d ↔
      ∃ inner k args group terms, Closed s.closer rest inner ∧ Flush inner ∧
        Tokens inner (k.text :: args) ∧ Arguments k args group terms ∧
        d = ⟨k.kind, group, index, k.isExclusive, spaced, terms⟩ := by
  unfold readBody
  constructor
  · intro h
    obtain ⟨inner, hinner, h⟩ := Outcome.bind_eq_ok_iff.mp h
    obtain ⟨⟨k, args⟩, hk, h⟩ := Outcome.bind_eq_ok_iff.mp h
    obtain ⟨⟨group, terms⟩, hargs, h⟩ := Outcome.bind_eq_ok_iff.mp h
    cases h
    obtain ⟨hflush, htokens⟩ := readKeyword_eq_ok_iff.mp hk
    exact ⟨inner, k, args, group, terms, (withoutCloser_eq_ok_iff hcloser).mp hinner, hflush,
      htokens, readArguments_eq_ok_iff.mp hargs, rfl⟩
  · rintro ⟨inner, k, args, group, terms, hinner, hflush, htokens, hargs, rfl⟩
    refine Outcome.bind_eq_ok_iff.mpr ⟨inner, (withoutCloser_eq_ok_iff hcloser).mpr hinner, ?_⟩
    refine Outcome.bind_eq_ok_iff.mpr ⟨(k, args), readKeyword_eq_ok_iff.mpr ⟨hflush, htokens⟩, ?_⟩
    exact Outcome.bind_eq_ok_iff.mpr ⟨(group, terms), readArguments_eq_ok_iff.mpr hargs, rfl⟩

/-- A line is read as the directive it derives, and as no other. -/
theorem ofLine?_eq_some_iff {s : Style} {l : Line} {d : Directive}
    (hcloser : ∀ q ∈ s.closer, q ≠ [] ∧ trimEnd q = q) :
    ofLine? s l = .ok (some d) ↔ ∃ k, Derives s l.index l.content k d := by
  constructor
  · intro h
    unfold ofLine? at h
    split at h
    · cases h
    · rename_i spaced rest hmarked
      split at h
      · rename_i hbody
        cases h
        obtain ⟨inner, k, args, group, terms, hinner, hflush, htokens, hargs, rfl⟩ :=
          (readBody_eq_ok_iff hcloser).mp hbody
        exact ⟨k, .intro (marked?_eq_some_iff.mp hmarked) hinner hflush htokens hargs⟩
      · cases h
  · rintro ⟨k, hmarked, hinner, hflush, htokens, hargs⟩
    rename_i spaced rest inner group args terms
    have hbody : readBody s l.index spaced rest =
        .ok ⟨k.kind, group, l.index, k.isExclusive, spaced, terms⟩ :=
      (readBody_eq_ok_iff hcloser).mpr
        ⟨inner, k, args, group, terms, hinner, hflush, htokens, hargs, rfl⟩
    unfold ofLine?
    simp only [marked?_eq_some_iff.mpr hmarked, hbody]

/-- Where a directive was read, the closer is one that directives can be read before. -/
theorem derives_of_ofLine? {s : Style} {l : Line} {d : Directive}
    (h : ofLine? s l = .ok (some d)) :
    (∀ q ∈ s.closer, q ≠ [] ∧ trimEnd q = q) ∧ ∃ k, Derives s l.index l.content k d := by
  have hcloser : ∀ q ∈ s.closer, q ≠ [] ∧ trimEnd q = q := by
    intro q hq
    unfold ofLine? at h
    split at h
    · cases h
    · split at h
      · rename_i hbody
        obtain ⟨inner, hinner, hbody⟩ := Outcome.bind_eq_ok_iff.mp hbody
        obtain ⟨⟨k, args⟩, hk, -⟩ := Outcome.bind_eq_ok_iff.mp hbody
        rw [show s.closer = some q from hq] at hinner
        exact closer_of_withoutCloser hinner (readKeyword_eq_ok_iff.mp hk).1.ne_nil
      · cases h
  exact ⟨hcloser, (ofLine?_eq_some_iff hcloser).mp h⟩

/-- A line that carries the marker is read or reported. -/
theorem malformed_of_marked {s : Style} {l : Line} {spaced : Bool} {rest : Text}
    (hmarked : Marked s l.content spaced rest) (h : ¬ ∃ d, ofLine? s l = .ok (some d)) :
    ∃ reason, ofLine? s l = .error (.malformed l.index reason) := by
  unfold ofLine? at *
  simp only [marked?_eq_some_iff.mpr hmarked] at *
  cases hbody : readBody s l.index spaced rest with
  | ok d => simp [hbody] at h
  | error reason => exact ⟨reason, rfl⟩

theorem Condition.joined_ne_nil {ws : List Text} {ts : List Term} (h : Condition ws ts) :
    joinWith [' '] ws ≠ [] := by
  have hfirst {w : Text} {t : Term} (ht : TermText w t) : w ≠ [] := by
    cases ht with
    | plain hname => rintro rfl; exact hname
    | negated _ => simp
  cases h with
  | last ht => exact hfirst ht
  | more ht _ => simp [joinWith, hfirst ht]

/-- In normal form the arguments are the same, with single spaces between them. -/
theorem Arguments.joined_eq {k : Keyword} {args : List Text} {group : Text} {terms : List Term}
    (h : Arguments k args group terms) :
    joinWith [' '] (k.text :: if group = [] then [] else [group]) =
      joinWith [' '] (k.text :: args) := by
  cases h with
  | name hname =>
    have hne : group ≠ [] := by
      rintro rfl
      exact hname
    rw [if_neg hne]
  | bare => rfl
  | condition _ hts _ =>
    rw [hts.joined_eq, if_neg hts.joined_ne_nil]
    cases hts <;> rfl

/-- Wherever the marker is followed by the normal form, the directive is the same. -/
theorem Derives.written {s : Style} {i : Nat} {content : Text} {k : Keyword} {d : Directive}
    (h : Derives s i content k d) {j : Nat} {content' : Text}
    (hmarked : Marked s content' d.spaced (written k d.group s.closer)) :
    Derives s j content' k { d with line := j } := by
  obtain ⟨-, -, -, htokens, hargs⟩ := h
  rename_i spaced rest inner group args terms
  have hsolid := htokens.solid
  have hclosed : Closed s.closer (Directive.written k group s.closer)
      (joinWith [' '] (k.text :: args)) := by
    rw [Directive.written, hargs.joined_eq]
    cases s.closer with
    | none => simp [Closed]
    | some q => exact ⟨[], blank_nil, by simp⟩
  have hflush : Flush (joinWith [' '] (k.text :: args)) := by
    have hk : Flush k.text := by cases k <;> decide
    cases args with
    | nil => exact hk
    | cons w ws =>
      rw [joinWith, List.append_assoc]
      exact hk.append _
  exact .intro hmarked hclosed hflush (words_eq_iff.mp (words_joined hsolid)) hargs

/-- A leader that does not hold the marker does not reach past it. -/
theorem FirstLeader.exchange {s : Style} (hleaders : ∀ p ∈ s.leaders, ¬ marker <:+: p)
    {p front rest : Text} (h : FirstLeader s (front ++ (marker ++ rest)) p) (hp : p <+: front)
    (rest' : Text) : FirstLeader s (front ++ (marker ++ rest')) p := by
  obtain ⟨-, before, after, hsplit, hbefore⟩ := h
  refine ⟨hp.trans (List.prefix_append front _), before, after, hsplit, fun q hq hprefix => ?_⟩
  have hmarker : front ++ marker <+: front ++ (marker ++ rest') := by
    rw [← List.append_assoc]
    exact List.prefix_append _ _
  rcases List.prefix_or_prefix_of_prefix hprefix hmarker with hshort | hlong
  · apply hbefore q hq
    rw [← List.append_assoc]
    exact hshort.trans (List.prefix_append _ _)
  · apply hleaders q (by simp [hsplit, hq])
    exact (List.suffix_append front marker).isInfix.trans hlong.isInfix

/-- What follows the marker may be exchanged for anything. -/
theorem Marked.exchange {s : Style} (hleaders : ∀ p ∈ s.leaders, ¬ marker <:+: p)
    {content rest : Text} {spaced : Bool} (h : Marked s content spaced rest) :
    ∃ front, content = front ++ (marker ++ rest) ∧
      ∀ rest', Marked s (front ++ (marker ++ rest')) spaced rest' := by
  cases h with
  | tight hp hcontent =>
    rename_i p
    subst hcontent
    exact ⟨p, rfl, fun rest' => .tight (hp.exchange hleaders (List.prefix_refl p) rest') rfl⟩
  | spaced hp hcontent =>
    rename_i p
    have heq (tail : Text) : p ++ ' ' :: tail = p ++ [' '] ++ tail := by simp
    rw [heq] at hcontent
    subst hcontent
    refine ⟨p ++ [' '], rfl, fun rest' => .spaced ?_ (heq _).symm⟩
    exact hp.exchange hleaders (List.prefix_append p _) rest'

theorem Derives.marked {s : Style} {i : Nat} {content : Text} {k : Keyword} {d : Directive}
    (h : Derives s i content k d) : d.line = i ∧ ∃ rest, Marked s content d.spaced rest := by
  obtain ⟨hmarked, -⟩ := h
  exact ⟨rfl, _, hmarked⟩

/-- The same on a whole line, whose indentation stays. -/
theorem Marked.exchange_body {s : Style} (hleaders : ∀ p ∈ s.leaders, ¬ marker <:+: p)
    {body rest : Text} {spaced : Bool} (h : Marked s (trimStart body) spaced rest) :
    ∃ front, body = front ++ (marker ++ rest) ∧
      ∀ rest', Marked s (trimStart (front ++ (marker ++ rest'))) spaced rest' := by
  obtain ⟨front, hfront, hexchange⟩ := h.exchange hleaders
  have hflush (rest' : Text) : Flush (front ++ (marker ++ rest')) := by
    have hcontent : Flush (front ++ (marker ++ rest)) := by
      rw [← hfront]
      refine (flush_trimStart body).resolve_left fun hnil => ?_
      simp [hnil, marker] at hfront
    cases front with
    | nil => exact ⟨'s', _, rfl, rfl⟩
    | cons c front => exact flush_cons.mpr (flush_cons.mp hcontent)
  refine ⟨body.takeWhile isBlank ++ front, ?_, fun rest' => ?_⟩
  · rw [List.append_assoc, ← hfront, trimStart_append_takeWhile]
  · have hindent : ∀ c ∈ body.takeWhile isBlank, isBlank c = true :=
      fun c hc => List.mem_takeWhile_imp hc
    rw [List.append_assoc, trimStart, List.dropWhile_append_of_pos hindent]
    change Marked s (trimStart _) spaced rest'
    rw [(hflush rest').trimStart]
    exact hexchange rest'

/-- The lines that are directives are those the grammar derives. A line without the marker
is no directive, one that carries it and is not derived is reported under its own index,
and a directive whose arguments are written in normal form is the same directive. -/
theorem ofLine?_grammar (s : Style) (hcloser : ∀ q ∈ s.closer, q ≠ [] ∧ trimEnd q = q)
    (i : Nat) (body : Text) (e : Terminator) :
    (ofLine? s (.ofBody i body e) = .ok none ↔
      ¬ ∃ spaced rest, Marked s (trimStart body) spaced rest) ∧
    (∀ d, ofLine? s (.ofBody i body e) = .ok (some d) ↔
      ∃ k, Derives s i (trimStart body) k d) ∧
    ((∃ spaced rest, Marked s (trimStart body) spaced rest) →
      (¬ ∃ k d, Derives s i (trimStart body) k d) →
      ∃ reason, ofLine? s (.ofBody i body e) = .error (.malformed i reason)) ∧
    ∀ k d, Derives s i (trimStart body) k d →
      (∀ j body' e', Marked s (trimStart body') d.spaced (written k d.group s.closer) →
        ofLine? s (.ofBody j body' e') = .ok (some { d with line := j })) ∧
      ((∀ p ∈ s.leaders, ¬ marker <:+: p) → ∃ front rest, body = front ++ (marker ++ rest) ∧
        ofLine? s (.ofBody i (front ++ (marker ++ written k d.group s.closer)) e) =
          .ok (some d)) := by
  have hread (j : Nat) (body : Text) (e : Terminator) (d : Directive) :
      ofLine? s (.ofBody j body e) = .ok (some d) ↔ ∃ k, Derives s j (trimStart body) k d :=
    ofLine?_eq_some_iff hcloser
  refine ⟨?_, hread i body e, ?_, ?_⟩
  · rw [ofLine?_eq_none_iff]
    exact marked?_eq_none_iff
  · rintro ⟨spaced, rest, hmarked⟩ hnot
    apply malformed_of_marked (l := .ofBody i body e) hmarked
    rintro ⟨d, hd⟩
    obtain ⟨k, hk⟩ := (hread i body e d).mp hd
    exact hnot ⟨k, d, hk⟩
  · intro k d h
    have hwritten (j : Nat) (body' : Text) (e' : Terminator)
        (hmarked : Marked s (trimStart body') d.spaced (written k d.group s.closer)) :
        ofLine? s (.ofBody j body' e') = .ok (some { d with line := j }) :=
      (hread j body' e' _).mpr ⟨k, h.written hmarked⟩
    refine ⟨hwritten, fun hleaders => ?_⟩
    obtain ⟨hline, rest, hmarked⟩ := h.marked
    obtain ⟨front, hfront, hexchange⟩ := hmarked.exchange_body hleaders
    refine ⟨front, rest, hfront, ?_⟩
    rw [hwritten i _ e (hexchange _), ← hline]

/-- A leader that holds the marker may take in a directive once it is written out. -/
example : (ofLine? .swallowing (.ofBody 0 "#smc:begin  a".toList .lf)).toOption.join =
      some ⟨.opening, ['a'], 0, true, false, []⟩ ∧
    ofLine? .swallowing (.ofBody 0 ("#".toList ++ (marker ++ "begin a".toList)) .lf) = .ok none := by
  decide

def slashStar : Style := ⟨"css".toList, ["/*".toList], some "*/".toList, by decide⟩

theorem ofLine?_grammar_slashStar :
    (∀ q ∈ slashStar.closer, q ≠ [] ∧ trimEnd q = q) ∧
      ∃ k, Derives slashStar 3 (trimStart "  /* smc:flag !a &&  b */ ".toList) k
        ⟨.opening, "!a && b".toList, 3, false, true, [⟨['a'], true⟩, ⟨['b'], false⟩]⟩ := by
  have hcloser : ∀ q ∈ slashStar.closer, q ≠ [] ∧ trimEnd q = q := by
    intro q hq
    obtain rfl : q = "*/".toList := by simpa [slashStar, eq_comm] using hq
    decide
  refine ⟨hcloser, ?_⟩
  exact ((ofLine?_grammar slashStar hcloser 3 "  /* smc:flag !a &&  b */ ".toList .lf).2.1 _).mp rfl

end CommentToggle.Directive
