import CommentToggle.Text.Lines
import Mathlib.Data.List.Basic
import Mathlib.Data.List.Forall2

/-!
Which lists of lines are the lines of a text. A body holds no line end, only the
last line may go without a terminator, and it then has a body; a CR is not
followed by an empty line that ends in LF, since the two would be read as one
line end. Such lists are read back as they were put together, reading gives no
others, and any other list comes back with fewer lines.
-/
namespace CommentToggle.Text

/-- No line end inside. -/
def Unbroken (t : Text) : Prop := '\r' ∉ t ∧ '\n' ∉ t

instance (t : Text) : Decidable (Unbroken t) := inferInstanceAs (Decidable (_ ∧ _))

/-- Every line can be told from its neighbours, and the last one is there at all. -/
def Apart : List RawLine → Prop
  | [] => True
  | [l] => l.terminator = .absent → l.body ≠ []
  | l :: m :: rest =>
    l.terminator ≠ .absent ∧
      ¬ (l.terminator = .cr ∧ m.body = [] ∧ m.terminator = .lf) ∧ Apart (m :: rest)

instance : (ls : List RawLine) → Decidable (Apart ls)
  | [] => .isTrue trivial
  | [l] => inferInstanceAs (Decidable (l.terminator = .absent → l.body ≠ []))
  | l :: m :: rest =>
    have := instDecidableApart (m :: rest)
    inferInstanceAs (Decidable (l.terminator ≠ .absent ∧
      ¬ (l.terminator = .cr ∧ m.body = [] ∧ m.terminator = .lf) ∧ Apart (m :: rest)))

theorem Unbroken.append {a b : Text} (ha : Unbroken a) (hb : Unbroken b) : Unbroken (a ++ b) := by
  simp only [Unbroken, List.mem_append, not_or]
  exact ⟨⟨ha.1, hb.1⟩, ha.2, hb.2⟩

theorem Unbroken.left {a b : Text} (h : Unbroken (a ++ b)) : Unbroken a := by
  simp only [Unbroken, List.mem_append, not_or] at h
  exact ⟨h.1.1, h.2.1⟩

theorem Unbroken.right {a b : Text} (h : Unbroken (a ++ b)) : Unbroken b := by
  simp only [Unbroken, List.mem_append, not_or] at h
  exact ⟨h.1.2, h.2.2⟩

theorem Unbroken.of_sublist {a b : Text} (h : Unbroken b) (hab : a.Sublist b) : Unbroken a :=
  ⟨fun hmem => h.1 (hab.subset hmem), fun hmem => h.2 (hab.subset hmem)⟩

theorem unbroken_nil : Unbroken [] := by simp [Unbroken]

theorem ofLines_cons (l : RawLine) (ls : List RawLine) :
    ofLines (l :: ls) = l.body ++ (l.terminator.text ++ ofLines ls) := by
  simp [ofLines, RawLine.text]

theorem linesOnto_append (done before : List RawLine) (body t : Text) :
    linesOnto (done ++ before) body t = before.reverse ++ linesOnto done body t := by
  fun_induction linesOnto done body t with
  | case1 done body => cases body <;> simp [linesOnto]
  | case2 done body rest ih => rw [linesOnto, ← ih, List.cons_append]
  | case3 done body rest h ih => rw [linesOnto, ← ih, List.cons_append]; exact h
  | case4 done body rest ih => rw [linesOnto, ← ih, List.cons_append]
  | case5 done body c rest h1 h2 h3 ih => rw [linesOnto, ← ih] <;> assumption

theorem linesOnto_done (done : List RawLine) (body t : Text) :
    linesOnto done body t = done.reverse ++ linesOnto [] body t :=
  linesOnto_append [] done body t

theorem linesOnto_unbroken {b : Text} (hb : Unbroken b) (done : List RawLine) (body t : Text) :
    linesOnto done body (b ++ t) = linesOnto done (b.reverse ++ body) t := by
  induction b generalizing body with
  | nil => rfl
  | cons c b ih =>
    have hc : c ≠ '\r' ∧ c ≠ '\n' := by
      simp only [Unbroken, List.mem_cons, not_or] at hb
      exact ⟨Ne.symm hb.1.1, Ne.symm hb.2.1⟩
    have hrest : Unbroken b := Unbroken.right (a := [c]) hb
    rw [List.cons_append, linesOnto, ih hrest]
    · simp
    all_goals simp_all

theorem linesOnto_break (body : Text) {e : Terminator} {rest : Text} (he : e ≠ .absent)
    (hcr : e = .cr → rest.head? ≠ some '\n') :
    linesOnto [] body (e.text ++ rest) = ⟨body.reverse, e⟩ :: lines rest := by
  have hread : linesOnto [] body (e.text ++ rest) = linesOnto [⟨body.reverse, e⟩] [] rest := by
    cases e with
    | absent => exact absurd rfl he
    | lf => rfl
    | crlf => rfl
    | cr =>
      show linesOnto [] body ('\r' :: rest) = _
      rw [linesOnto]
      intro tail htail
      exact hcr rfl (by rw [htail]; rfl)
  rw [hread, linesOnto_done]
  rfl

/-- The first line of a text and the lines of what follows it. -/
theorem lines_cons {b : Text} (hb : Unbroken b) {e : Terminator} {rest : Text}
    (he : e ≠ .absent) (hcr : e = .cr → rest.head? ≠ some '\n') :
    lines (b ++ (e.text ++ rest)) = ⟨b, e⟩ :: lines rest := by
  rw [lines, linesOnto_unbroken hb, linesOnto_break _ he hcr]
  simp

theorem lines_unbroken {b : Text} (hb : Unbroken b) :
    lines b = if b = [] then [] else [⟨b, .absent⟩] := by
  have h := linesOnto_unbroken hb [] [] []
  rw [List.append_nil] at h
  rw [lines, h]
  cases b <;> simp [linesOnto]

/-- Only an empty line that ends in LF puts a LF in front. -/
theorem head_ofLines {ls : List RawLine} (hls : ∀ l ∈ ls, Unbroken l.body)
    (hapart : Apart ls) (h : (ofLines ls).head? = some '\n') :
    ∃ m rest, ls = m :: rest ∧ m.body = [] ∧ m.terminator = .lf := by
  cases ls with
  | nil => simp [ofLines] at h
  | cons m rest =>
    refine ⟨m, rest, rfl, ?_⟩
    rw [ofLines_cons] at h
    have hm : Unbroken m.body := hls m (by simp)
    cases hbody : m.body with
    | cons c b =>
      rw [hbody] at h hm
      simp only [List.cons_append, List.head?_cons, Option.some.injEq] at h
      subst h
      simp [Unbroken] at hm
    | nil =>
      refine ⟨rfl, ?_⟩
      rw [hbody] at h
      cases he : m.terminator with
      | lf => rfl
      | crlf => simp [he, Terminator.text] at h
      | cr => simp [he, Terminator.text] at h
      | absent =>
        cases rest with
        | nil => exact absurd hbody (hapart he)
        | cons m' rest => exact absurd he hapart.1

theorem Apart.tail {l : RawLine} {ls : List RawLine} (h : Apart (l :: ls)) : Apart ls := by
  cases ls with
  | nil => trivial
  | cons m rest => exact h.2.2

/-- Lines that lose no body stay apart. -/
theorem Apart.of_forall₂ {ls ms : List RawLine} (h : Apart ls)
    (hms : List.Forall₂ (fun r q => q.terminator = r.terminator ∧ (q.body = [] → r.body = []))
      ls ms) : Apart ms := by
  induction hms with
  | nil => trivial
  | cons hfirst hrest ih =>
    have htail := ih h.tail
    obtain ⟨hend, hbody⟩ := hfirst
    cases hrest with
    | nil => exact fun habsent hnil => h (hend ▸ habsent) (hbody hnil)
    | cons hsecond _ =>
      obtain ⟨hend', hbody'⟩ := hsecond
      refine ⟨hend ▸ h.1, fun ⟨hcr, hnil, hlf⟩ => h.2.1 ⟨hend ▸ hcr, hbody' hnil, hend' ▸ hlf⟩,
        htail⟩

theorem Apart.map_of_bodies {α : Type} {f g : α → RawLine} {xs : List α} (h : Apart (xs.map f))
    (hg : ∀ x ∈ xs, (g x).terminator = (f x).terminator ∧ ((g x).body = [] → (f x).body = [])) :
    Apart (xs.map g) := by
  refine h.of_forall₂ ?_
  rw [List.forall₂_map_left_iff, List.forall₂_map_right_iff, List.forall₂_same]
  exact hg

theorem apart_cons {l : RawLine} {ls : List RawLine} (hl : l.terminator ≠ .absent)
    (hcr : l.terminator = .cr → (ofLines ls).head? ≠ some '\n') (h : Apart ls) :
    Apart (l :: ls) := by
  cases ls with
  | nil => exact fun habsent => absurd habsent hl
  | cons m rest =>
    refine ⟨hl, ?_, h⟩
    intro hspec
    obtain ⟨he, hbody, hlf⟩ := hspec
    exact hcr he (by rw [ofLines_cons, hbody, hlf]; rfl)

/-- Lines that stand apart are read back as they were put together. -/
theorem lines_ofLines {ls : List RawLine} (hls : ∀ l ∈ ls, Unbroken l.body) (hapart : Apart ls) :
    lines (ofLines ls) = ls := by
  induction ls with
  | nil => rfl
  | cons l ls ih =>
    have hl : Unbroken l.body := hls l (by simp)
    have htail : ∀ m ∈ ls, Unbroken m.body := fun m hm => hls m (List.mem_cons_of_mem l hm)
    rw [ofLines_cons]
    by_cases he : l.terminator = .absent
    · cases ls with
      | nil =>
        have hbody : l.body ≠ [] := hapart he
        have heq : l = ⟨l.body, .absent⟩ := by rw [← he]
        simp only [he, Terminator.text, ofLines, List.flatMap_nil, List.append_nil]
        rw [lines_unbroken hl, if_neg hbody, ← heq]
      | cons m rest => exact absurd he hapart.1
    · rw [lines_cons hl he, ih htail hapart.tail]
      intro hcr hhead
      obtain ⟨m, rest, rfl, hbody, hlf⟩ := head_ofLines htail hapart.tail hhead
      exact hapart.2.1 ⟨hcr, hbody, hlf⟩

theorem unbroken_linesOnto (done : List RawLine) (body t : Text)
    (hdone : ∀ l ∈ done, Unbroken l.body) (hbody : Unbroken body) :
    ∀ l ∈ linesOnto done body t, Unbroken l.body := by
  have hreverse {b : Text} (hb : Unbroken b) : Unbroken b.reverse := by
    simpa [Unbroken] using hb
  have hcons {ds : List RawLine} (hds : ∀ l ∈ ds, Unbroken l.body) {b : Text} (hb : Unbroken b)
      (e : Terminator) : ∀ l ∈ (⟨b.reverse, e⟩ : RawLine) :: ds, Unbroken l.body := by
    intro l hl
    rcases List.mem_cons.mp hl with rfl | hl
    · exact hreverse hb
    · exact hds l hl
  fun_induction linesOnto done body t with
  | case1 done body =>
    intro l hl
    rw [List.mem_reverse] at hl
    split at hl
    · exact hdone l hl
    · exact hcons hdone hbody .absent l hl
  | case2 done body rest ih => exact ih (hcons hdone hbody .crlf) unbroken_nil
  | case3 done body rest h ih => exact ih (hcons hdone hbody .cr) unbroken_nil
  | case4 done body rest ih => exact ih (hcons hdone hbody .lf) unbroken_nil
  | case5 done body c rest h1 h2 h3 ih =>
    apply ih hdone
    have hc : Unbroken [c] := by
      simp only [Unbroken, List.mem_singleton]
      exact ⟨fun h => h2 h.symm, fun h => h3 h.symm⟩
    exact hc.append hbody

theorem unbroken_lines {t : Text} {l : RawLine} (hl : l ∈ lines t) : Unbroken l.body :=
  unbroken_linesOnto [] [] t (by simp) unbroken_nil l hl

theorem apart_linesOnto (done : List RawLine) (body t : Text) : Apart (linesOnto [] body t) := by
  fun_induction linesOnto done body t with
  | case1 done body => cases body <;> simp [linesOnto, Apart]
  | case2 done body rest ih =>
    rw [linesOnto, linesOnto_done]
    exact apart_cons (by simp) (by simp) ih
  | case3 done body rest h ih =>
    rw [linesOnto, linesOnto_done]
    · refine apart_cons (by simp) (fun _ hhead => ?_) ih
      change (ofLines (lines rest)).head? = _ at hhead
      rw [ofLines_lines] at hhead
      cases rest with
      | nil => simp at hhead
      | cons c rest =>
        simp only [List.head?_cons, Option.some.injEq] at hhead
        exact h rest (by rw [hhead])
    · exact h
  | case4 done body rest ih =>
    rw [linesOnto, linesOnto_done]
    exact apart_cons (by simp) (by simp) ih
  | case5 done body c rest h1 h2 h3 ih =>
    rw [linesOnto] <;> assumption

theorem apart_lines (t : Text) : Apart (lines t) := apart_linesOnto [] [] t

/-- What was read of the first line counts only when nothing follows. -/
theorem length_linesOnto (done : List RawLine) (body body' t : Text)
    (h : t = [] → (body = [] ↔ body' = [])) :
    (linesOnto [] body t).length = (linesOnto [] body' t).length := by
  fun_induction linesOnto done body t generalizing body' with
  | case1 done body =>
    have hnil := h rfl
    cases body <;> cases body' <;> simp_all [linesOnto]
  | case2 done body rest ih =>
    rw [linesOnto, linesOnto_done, linesOnto, linesOnto_done [_]]
    simp
  | case3 done body rest hlf ih =>
    rw [linesOnto, linesOnto_done, linesOnto, linesOnto_done [_]]
    · simp
    all_goals exact hlf
  | case4 done body rest ih =>
    rw [linesOnto, linesOnto_done, linesOnto, linesOnto_done [_]]
    simp
  | case5 done body c rest h1 h2 h3 ih =>
    rw [linesOnto, linesOnto]
    · exact ih (c :: body') (fun _ => by simp)
    all_goals assumption

theorem length_lines_append {b t : Text} (hb : Unbroken b) (ht : t ≠ []) :
    (lines (b ++ t)).length = (lines t).length := by
  rw [lines, linesOnto_unbroken hb, lines]
  exact length_linesOnto [] _ _ t (fun h => absurd h ht)

theorem length_lines_absent {b : Text} (hb : Unbroken b) (ls : List RawLine) :
    (ofLines ls = [] ∧ (lines (b ++ ofLines ls)).length = if b = [] then 0 else 1) ∨
      (lines (b ++ ofLines ls)).length = (lines (ofLines ls)).length := by
  by_cases ht : ofLines ls = []
  · left
    rw [ht, List.append_nil, lines_unbroken hb]
    refine ⟨rfl, ?_⟩
    split <;> rfl
  · exact Or.inr (length_lines_append hb ht)

/-- A CR joins a LF at the front of the next line. -/
theorem length_lines_joined {b t : Text} (hb : Unbroken b) (ht : t.head? = some '\n') :
    (lines (b ++ (Terminator.cr.text ++ t))).length = (lines t).length := by
  cases t with
  | nil => simp at ht
  | cons c t =>
    simp only [List.head?_cons, Option.some.injEq] at ht
    subst ht
    have hjoined : lines (b ++ ('\r' :: '\n' :: t)) = ⟨b, .crlf⟩ :: lines t :=
      lines_cons hb (e := .crlf) (by simp) (by simp)
    have halone : lines ('\n' :: t) = ⟨[], .lf⟩ :: lines t :=
      lines_cons unbroken_nil (e := .lf) (by simp) (by simp)
    change (lines (b ++ ('\r' :: '\n' :: t))).length = _
    rw [hjoined, halone]
    rfl

/-- Putting lines together never makes more of them, and keeps their number only when
they stand apart. -/
theorem length_lines_ofLines {ls : List RawLine} (hls : ∀ l ∈ ls, Unbroken l.body) :
    (lines (ofLines ls)).length ≤ ls.length ∧
      ((lines (ofLines ls)).length = ls.length → Apart ls) := by
  induction ls with
  | nil => exact ⟨Nat.le_refl _, fun _ => trivial⟩
  | cons l ls ih =>
    have hl : Unbroken l.body := hls l (by simp)
    obtain ⟨hle, hapart⟩ := ih fun m hm => hls m (List.mem_cons_of_mem l hm)
    rw [ofLines_cons, List.length_cons]
    by_cases he : l.terminator = .absent
    · rw [he]
      change (lines (l.body ++ ofLines ls)).length ≤ _ ∧
        ((lines (l.body ++ ofLines ls)).length = _ → _)
      rcases length_lines_absent hl ls with ⟨hnil, hlen⟩ | hlen
      · rw [hlen]
        refine ⟨by split <;> omega, fun hcount => ?_⟩
        split at hcount
        · omega
        · rename_i hbody
          have hls0 : ls = [] := List.length_eq_zero_iff.mp (by omega)
          subst hls0
          exact fun _ => hbody
      · rw [hlen]
        exact ⟨by omega, fun hcount => by omega⟩
    · by_cases hjoin : l.terminator = .cr ∧ (ofLines ls).head? = some '\n'
      · rw [hjoin.1, length_lines_joined hl hjoin.2]
        exact ⟨by omega, fun hcount => by omega⟩
      · have hcr : l.terminator = .cr → (ofLines ls).head? ≠ some '\n' :=
          fun hcr hhead => hjoin ⟨hcr, hhead⟩
        rw [lines_cons hl he hcr, List.length_cons]
        exact ⟨by omega, fun hcount => apart_cons he hcr (hapart (by omega))⟩

theorem takeWhile_body {b : Text} (hb : Unbroken b) {e : Terminator} (he : e ≠ .absent)
    (t : Text) : (b ++ (e.text ++ t)).takeWhile (fun c => c != '\r' && c != '\n') = b := by
  have hin : ∀ c ∈ b, (c != '\r' && c != '\n') = true := by
    intro c hc
    have hcr : c ≠ '\r' := fun h => hb.1 (h ▸ hc)
    have hlf : c ≠ '\n' := fun h => hb.2 (h ▸ hc)
    simp [hcr, hlf]
  rw [List.takeWhile_append_of_pos hin]
  cases e with
  | absent => exact absurd rfl he
  | lf => simp [Terminator.text]
  | crlf => simp [Terminator.text]
  | cr => simp [Terminator.text]

/-- Only the last line may go without a terminator. -/
def Ended (ls : List RawLine) : Prop := ∀ l ∈ ls.dropLast, l.terminator ≠ .absent

theorem Apart.ended {ls : List RawLine} (h : Apart ls) : Ended ls := by
  induction ls with
  | nil => simp [Ended]
  | cons l ls ih =>
    cases ls with
    | nil => simp [Ended]
    | cons m rest =>
      intro n hn
      rw [List.dropLast_cons_cons] at hn
      rcases List.mem_cons.mp hn with rfl | hn
      · exact h.1
      · exact ih h.tail n hn

theorem Ended.of_terminators {ls ms : List RawLine} (h : Ended ls)
    (hends : ms.map (·.terminator) = ls.map (·.terminator)) : Ended ms := by
  intro m hm habsent
  have hmem : Terminator.absent ∈ (ms.map (·.terminator)).dropLast := by
    rw [← List.map_dropLast, ← habsent]
    exact List.mem_map_of_mem hm
  rw [hends, ← List.map_dropLast] at hmem
  obtain ⟨l, hl, habsent'⟩ := List.mem_map.mp hmem
  exact h l hl habsent'

/-- Lines with the same terminators that make up the same text are the same. -/
theorem ofLines_inj {ls ms : List RawLine} (hls : ∀ l ∈ ls, Unbroken l.body)
    (hms : ∀ m ∈ ms, Unbroken m.body) (hended : Ended ls)
    (hends : ms.map (·.terminator) = ls.map (·.terminator)) (h : ofLines ms = ofLines ls) :
    ms = ls := by
  induction ls generalizing ms with
  | nil => simpa using hends
  | cons l ls ih =>
    obtain ⟨m, ms, rfl⟩ : ∃ m rest, ms = m :: rest := by
      cases ms with
      | nil => simp at hends
      | cons m rest => exact ⟨m, rest, rfl⟩
    rw [List.map_cons, List.map_cons, List.cons.injEq] at hends
    obtain ⟨hend, hends⟩ := hends
    obtain ⟨mbody, mend⟩ := m
    obtain ⟨lbody, lend⟩ := l
    simp only at hend
    subst hend
    rw [ofLines_cons, ofLines_cons] at h
    have hl : Unbroken lbody := hls ⟨lbody, mend⟩ (by simp)
    have hm : Unbroken mbody := hms ⟨mbody, mend⟩ (by simp)
    cases ls with
    | nil =>
      have hnil : ms = [] := by simpa using hends
      subst hnil
      have hbody : mbody = lbody := by simpa [ofLines] using h
      rw [hbody]
    | cons n rest =>
      have he : mend ≠ .absent := hended ⟨lbody, mend⟩ (by simp)
      have hbody : mbody = lbody := by
        rw [← takeWhile_body hm he (ofLines ms), ← takeWhile_body hl he (ofLines (n :: rest)), h]
      subst hbody
      have hrest := List.append_cancel_left (List.append_cancel_left h)
      have htail : Ended (n :: rest) := fun k hk => hended k (by simp [hk])
      rw [ih (fun k hk => hls k (List.mem_cons_of_mem _ hk))
        (fun k hk => hms k (List.mem_cons_of_mem _ hk)) htail hends hrest]

end CommentToggle.Text
