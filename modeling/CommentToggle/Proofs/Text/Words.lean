import CommentToggle.Proofs.Style.Regular

/-!
The words of a text. A reading of a text as words leaves white space before each
of them, none inside, and some after each but the last; every text has exactly
one, which is the one computed.
-/
namespace CommentToggle.Text

def Blank (t : Text) : Prop := ∀ c ∈ t, isBlank c = true

/-- At least one character, and none of them white space. -/
def Solid (w : Text) : Prop := w ≠ [] ∧ ∀ c ∈ w, isBlank c = false

instance (w : Text) : Decidable (Solid w) :=
  decidable_of_iff (w ≠ [] ∧ w.all (!isBlank ·) = true) (by simp [Solid])

/-- A word stops at white space or at the end of the text. -/
inductive Tokens : Text → List Text → Prop
  | none {gap : Text} : Blank gap → Tokens gap []
  | word {gap w rest : Text} {ws : List Text} : Blank gap → Solid w →
      rest.head?.all isBlank = true → Tokens rest ws → Tokens (gap ++ (w ++ rest)) (w :: ws)

theorem blank_nil : Blank [] := by simp [Blank]

theorem Blank.cons {c : Char} {t : Text} (hc : isBlank c = true) (h : Blank t) :
    Blank (c :: t) := by
  intro d hd
  rcases List.mem_cons.mp hd with rfl | hd
  · exact hc
  · exact h d hd

theorem solid_singleton {c : Char} (hc : isBlank c = false) : Solid [c] := by
  simp [Solid, hc]

theorem Solid.cons {c : Char} {w : Text} (hc : isBlank c = false) (h : Solid w) :
    Solid (c :: w) := by
  refine ⟨by simp, fun d hd => ?_⟩
  rcases List.mem_cons.mp hd with rfl | hd
  · exact hc
  · exact h.2 d hd

/-- A text may begin with its first word. -/
theorem Tokens.first {w rest : Text} {ws : List Text} (hw : Solid w)
    (hstop : rest.head?.all isBlank = true) (hrest : Tokens rest ws) :
    Tokens (w ++ rest) (w :: ws) := .word blank_nil hw hstop hrest

theorem Tokens.skip {c : Char} {t : Text} {ws : List Text} (hc : isBlank c = true)
    (h : Tokens t ws) : Tokens (c :: t) ws := by
  cases h with
  | none hgap => exact .none (hgap.cons hc)
  | word hgap hw hstop hrest => exact .word (hgap.cons hc) hw hstop hrest

/-- A text that does not begin with white space begins with its first word. -/
theorem Tokens.of_solid {c : Char} {t : Text} {ws : List Text} (hc : isBlank c = false)
    (h : Tokens (c :: t) ws) :
    ∃ w rest us, ws = w :: us ∧ c :: t = w ++ rest ∧ Solid w ∧
      rest.head?.all isBlank = true ∧ Tokens rest us := by
  generalize hwhole : c :: t = whole at h
  cases h with
  | none hgap =>
    subst hwhole
    exact absurd (hgap c (by simp)) (by simp [hc])
  | word hgap hw hstop hrest =>
    rename_i gap w rest us
    cases gap with
    | nil => exact ⟨w, rest, us, rfl, rfl, hw, hstop, hrest⟩
    | cons d gap =>
      rw [List.cons_append, List.cons.injEq] at hwhole
      exact absurd (hgap d (by simp)) (by simp [← hwhole.1, hc])

/-- A character before a text that goes on in the same word. -/
theorem Tokens.extend {c d : Char} {t w : Text} {ws : List Text} (hc : isBlank c = false)
    (hd : isBlank d = false) (h : Tokens (d :: t) (w :: ws)) :
    Tokens (c :: d :: t) ((c :: w) :: ws) := by
  obtain ⟨w', rest, us, heq, htext, hw, hstop, hrest⟩ := h.of_solid hd
  rw [List.cons.injEq] at heq
  obtain ⟨rfl, rfl⟩ := heq
  rw [htext]
  exact .first (hw.cons hc) hstop hrest

theorem tokens_words (t : Text) : Tokens t (words t) := by
  fun_induction words t with
  | case1 => exact .none blank_nil
  | case2 c hc => exact .none (blank_nil.cons hc)
  | case3 c hc =>
    have hc : isBlank c = false := by simpa using hc
    have hword : Tokens ([c] ++ []) [[c]] := .first (solid_singleton hc) rfl (.none blank_nil)
    exact hword
  | case4 c d rest hc ih => exact ih.skip hc
  | case5 c d rest hc hd ih =>
    have hc : isBlank c = false := by simpa using hc
    exact .first (solid_singleton hc) (by simpa using hd) ih
  | case6 c d rest hc hd hwords ih =>
    have hd : isBlank d = false := by simpa using hd
    obtain ⟨w, _, us, heq, -⟩ := ih.of_solid hd
    simp [hwords] at heq
  | case7 c d rest hc hd w ws hwords ih =>
    rw [hwords] at ih
    exact ih.extend (by simpa using hc) (by simpa using hd)

theorem words_blank {gap : Text} (h : Blank gap) (t : Text) : words (gap ++ t) = words t := by
  induction gap with
  | nil => rfl
  | cons c gap ih =>
    have hc : isBlank c = true := h c (by simp)
    rw [List.cons_append, ← ih fun d hd => h d (List.mem_cons_of_mem c hd)]
    cases gap ++ t with
    | nil => simp [words, hc]
    | cons d rest => rw [words, if_pos hc]

theorem words_solid {w rest : Text} (hw : Solid w) (hstop : rest.head?.all isBlank = true) :
    words (w ++ rest) = w :: words rest := by
  induction w with
  | nil => exact absurd rfl hw.1
  | cons c w ih =>
    have hc : ¬ isBlank c = true := by simp [hw.2 c (by simp)]
    cases w with
    | nil =>
      cases rest with
      | nil => simp [words, hc]
      | cons d rest =>
        have hd : isBlank d = true := by simpa using hstop
        rw [List.singleton_append, words, if_neg hc, if_pos hd]
    | cons d w =>
      have hd : ¬ isBlank d = true := by simp [hw.2 d (by simp)]
      have hrest := ih ⟨by simp, fun e he => hw.2 e (List.mem_cons_of_mem c he)⟩
      rw [List.cons_append] at hrest
      rw [List.cons_append, List.cons_append, words, if_neg hc, if_neg hd, hrest]

/-- The words of a text are its only reading. -/
theorem words_eq_iff {t : Text} {ws : List Text} : words t = ws ↔ Tokens t ws := by
  constructor
  · rintro rfl
    exact tokens_words t
  · intro h
    induction h with
    | none hgap => simpa [words] using words_blank hgap []
    | word hgap hw hstop _ ih => rw [words_blank hgap, words_solid hw hstop, ih]

theorem Tokens.solid {t : Text} {ws : List Text} (h : Tokens t ws) : ∀ w ∈ ws, Solid w := by
  induction h with
  | none => simp
  | word _ hw _ _ ih =>
    intro w hmem
    rcases List.mem_cons.mp hmem with rfl | hmem
    · exact hw
    · exact ih w hmem

/-- Every character of a text is white space or stands in one of its words. -/
theorem Tokens.mem {t : Text} {ws : List Text} (h : Tokens t ws) {c : Char} (hc : c ∈ t) :
    isBlank c = true ∨ ∃ w ∈ ws, c ∈ w := by
  induction h with
  | none hgap => exact .inl (hgap c hc)
  | @word gap w rest ws hgap _ _ _ ih =>
    rcases List.mem_append.mp hc with hc | hc
    · exact .inl (hgap c hc)
    · rcases List.mem_append.mp hc with hc | hc
      · exact .inr ⟨w, by simp, hc⟩
      · refine (ih hc).imp_right fun hmem => ?_
        obtain ⟨v, hv, hcv⟩ := hmem
        exact ⟨v, List.mem_cons_of_mem w hv, hcv⟩

/-- Words written with single spaces between them are read back. -/
theorem words_joined {ws : List Text} (h : ∀ w ∈ ws, Solid w) : words (joinWith [' '] ws) = ws := by
  induction ws with
  | nil => rfl
  | cons w ws ih =>
    have hw : Solid w := h w (by simp)
    have hrest := ih fun v hv => h v (List.mem_cons_of_mem w hv)
    cases ws with
    | nil =>
      have hstop : ([] : Text).head?.all isBlank = true := rfl
      simpa [joinWith, words] using words_solid hw hstop
    | cons v vs =>
      have hgap : Blank [' '] := blank_nil.cons (by decide)
      have hstop : ([' '] ++ joinWith [' '] (v :: vs)).head?.all isBlank = true := rfl
      rw [joinWith, List.append_assoc, words_solid hw hstop, words_blank hgap, hrest]

/-- What trimming takes off the end is white space. -/
theorem exists_gap (t : Text) : ∃ gap, Blank gap ∧ t = trimEnd t ++ gap := by
  refine ⟨(t.reverse.takeWhile isBlank).reverse, fun c hc => ?_, ?_⟩
  · exact List.mem_takeWhile_imp (List.mem_reverse.mp hc)
  · rw [trimEnd, ← List.reverse_append, List.takeWhile_append_dropWhile, List.reverse_reverse]

theorem trimEnd_append_gap {gap : Text} (h : Blank gap) (t : Text) :
    trimEnd (t ++ gap) = trimEnd t := by
  have hgap : ∀ c ∈ gap.reverse, isBlank c = true := fun c hc => h c (List.mem_reverse.mp hc)
  rw [trimEnd, List.reverse_append, List.dropWhile_append_of_pos hgap, trimEnd]

theorem flush_reverse_of_trimEnd {q : Text} (hne : q ≠ []) (h : trimEnd q = q) :
    Flush q.reverse := by
  refine flush_iff.mpr ⟨by simpa using hne, ?_⟩
  have hrev := congrArg List.reverse h
  rwa [trimEnd, List.reverse_reverse] at hrev

theorem Tokens.append_gap {t gap : Text} {ws : List Text} (h : Tokens t ws) (hgap : Blank gap) :
    Tokens (t ++ gap) ws := by
  induction h with
  | none hbefore =>
    exact .none fun c hc => (List.mem_append.mp hc).elim (hbefore c) (hgap c)
  | @word before w rest ws hbefore hw hstop _ ih =>
    rw [List.append_assoc, List.append_assoc]
    refine .word hbefore hw ?_ ih
    cases rest with
    | nil =>
      cases gap with
      | nil => rfl
      | cons c gap => simpa using hgap c (by simp)
    | cons c rest => exact hstop

/-- A text of one word that begins with it ends in white space. -/
theorem Tokens.single {t w : Text} (h : Tokens t [w]) (hflush : Flush t) :
    ∃ gap, Blank gap ∧ t = w ++ gap := by
  obtain ⟨c, t, rfl, hc⟩ := hflush
  obtain ⟨w', gap, us, heq, htext, -, -, hrest⟩ := h.of_solid hc
  rw [List.cons.injEq] at heq
  obtain ⟨rfl, rfl⟩ := heq
  cases hrest with
  | none hgap => exact ⟨gap, hgap, htext⟩

theorem unbroken_of_solid {w : Text} (h : Solid w) : Unbroken w := by
  have hnot : ∀ c, isBlank c = true → c ∉ w := by
    intro c hc hmem
    rw [h.2 c hmem] at hc
    cases hc
  exact ⟨hnot '\r' (by decide), hnot '\n' (by decide)⟩

theorem unbroken_joinWith {ws : List Text} (h : ∀ w ∈ ws, Solid w) :
    Unbroken (joinWith [' '] ws) := by
  fun_induction joinWith [' '] ws with
  | case1 => exact unbroken_nil
  | case2 w => exact unbroken_of_solid (h w (by simp))
  | case3 w v ws ih =>
    have hspace : Unbroken [' '] := by decide
    exact ((unbroken_of_solid (h w (by simp))).append hspace).append
      (ih fun u hu => h u (List.mem_cons_of_mem w hu))

end CommentToggle.Text
