import CommentToggle.Proofs.Text.Words

/-!
Two delimiters paired like nested brackets. A text is read from left to right into openers,
closers and other characters, an opener first where both begin; what has been read is not read
again. A text is enclosed when the opener that begins it has its closer where the text ends.
-/
namespace CommentToggle.Text

inductive Piece
  | opener
  | closer
  | other (c : Char)
  deriving DecidableEq, Repr

/-- A reading takes an opener wherever one begins, else a closer, else one character. -/
inductive Reads (p q : Text) : Text → List Piece → Prop
  | nil : Reads p q [] []
  | opener {t : Text} {ps : List Piece} : Reads p q t ps → Reads p q (p ++ t) (.opener :: ps)
  | closer {t : Text} {ps : List Piece} : ¬ p <+: q ++ t → Reads p q t ps →
      Reads p q (q ++ t) (.closer :: ps)
  | other {c : Char} {t : Text} {ps : List Piece} : ¬ p <+: c :: t → ¬ q <+: c :: t →
      Reads p q t ps → Reads p q (c :: t) (.other c :: ps)

/-- Every opener has its closer, and every closer its opener. -/
inductive Balanced : List Piece → Prop
  | nil : Balanced []
  | other {c : Char} {ps : List Piece} : Balanced ps → Balanced (.other c :: ps)
  | pair {ps rest : List Piece} : Balanced ps → Balanced rest →
      Balanced (.opener :: (ps ++ .closer :: rest))

def Paired (p q t : Text) : Prop := ∃ ps, Reads p q t ps ∧ Balanced ps

/-- The opener that begins the text is closed where the text ends, and not before. -/
def Enclosed (p q t : Text) : Prop :=
  ∃ inside, Reads p q t (.opener :: (inside ++ [.closer])) ∧ Balanced inside

/-- The text that has been read as these pieces. -/
def textOf (p q : Text) (ps : List Piece) : Text :=
  ps.flatMap fun
    | .opener => p
    | .closer => q
    | .other c => [c]

/-- Reads a text after passing over `skip` characters. -/
def piecesFrom (p q : Text) : Nat → Text → List Piece
  | _, [] => []
  | skip + 1, _ :: rest => piecesFrom p q skip rest
  | 0, c :: rest =>
    if p <+: c :: rest then .opener :: piecesFrom p q (p.length - 1) rest
    else if q <+: c :: rest then .closer :: piecesFrom p q (q.length - 1) rest
    else .other c :: piecesFrom p q 0 rest

def pieces (p q t : Text) : List Piece := piecesFrom p q 0 t

/-- The number of open openers after the pieces, if each closer finds one. -/
def openAfter : Nat → List Piece → Option Nat
  | n, [] => some n
  | n, .opener :: rest => openAfter (n + 1) rest
  | 0, .closer :: _ => none
  | n + 1, .closer :: rest => openAfter n rest
  | n, .other _ :: rest => openAfter n rest

section Balanced

variable {ps rest mid : List Piece}

theorem Balanced.append (h : Balanced ps) (hrest : Balanced rest) : Balanced (ps ++ rest) := by
  induction h with
  | nil => exact hrest
  | other _ ih => exact .other ih
  | pair hin _ _ ih =>
    rw [List.cons_append, List.append_assoc, List.cons_append]
    exact .pair hin ih

/-- What is balanced stays so with something balanced put in anywhere. -/
theorem Balanced.insert (hmid : Balanced mid) (h : Balanced (ps ++ rest)) :
    Balanced (ps ++ (mid ++ rest)) := by
  generalize hwhole : ps ++ rest = whole at h
  induction h generalizing ps rest with
  | nil =>
    obtain ⟨rfl, rfl⟩ := List.append_eq_nil_iff.mp hwhole
    rwa [List.nil_append, List.append_nil]
  | other hus ih =>
    rcases List.append_eq_cons_iff.mp hwhole with ⟨rfl, rfl⟩ | ⟨ps, rfl, rfl⟩
    · exact hmid.append (.other hus)
    · exact .other (ih rfl)
  | pair hus hvs ihus ihvs =>
    rcases List.append_eq_cons_iff.mp hwhole with ⟨rfl, rfl⟩ | ⟨ps, rfl, hsplit⟩
    · exact hmid.append (.pair hus hvs)
    -- the place is behind the closer of this pair, right before it, or further inside
    · rcases List.append_eq_append_iff.mp hsplit with ⟨back, rfl, hback⟩ | ⟨inner, rfl, rfl⟩
      · rcases List.append_eq_cons_iff.mp hback.symm with ⟨rfl, rfl⟩ | ⟨back, rfl, rfl⟩
        · have hin := Balanced.pair (hus.append hmid) hvs
          simpa using hin
        · have hin := Balanced.pair hus (ihvs rfl)
          simpa using hin
      · have hin := Balanced.pair (ihus rfl) hvs
        simpa using hin

theorem Balanced.openAfter_append (h : Balanced ps) (n : Nat) (rest : List Piece) :
    openAfter n (ps ++ rest) = openAfter n rest := by
  induction h generalizing n rest with
  | nil => rfl
  | other _ ih => exact ih n rest
  | pair _ _ ihin ihrest =>
    rw [List.cons_append, List.append_assoc, List.cons_append, openAfter, ihin, openAfter, ihrest]

theorem balanced_of_openAfter {n : Nat} (h : openAfter n ps = some 0) :
    Balanced (List.replicate n .opener ++ ps) := by
  fun_induction openAfter n ps with
  | case1 n =>
    obtain rfl := Option.some.inj h
    exact .nil
  | case2 n rest ih =>
    have hopen := ih h
    rwa [List.replicate_succ', List.append_assoc] at hopen
  | case3 => cases h
  | case4 n rest ih =>
    have hin := (Balanced.pair .nil .nil).insert (ih h)
    rwa [List.replicate_succ', List.append_assoc]
  | case5 n c rest ih => exact (Balanced.other .nil).insert (ih h)

/-- Counting tells what is balanced. -/
theorem balanced_iff : Balanced ps ↔ openAfter 0 ps = some 0 := by
  constructor
  · intro h
    have hcount := h.openAfter_append 0 []
    rwa [List.append_nil] at hcount
  · exact fun h => balanced_of_openAfter h

instance (ps : List Piece) : Decidable (Balanced ps) := decidable_of_iff _ balanced_iff.symm

end Balanced

section Reading

variable {p q t : Text} {ps rest : List Piece}

theorem piecesFrom_eq (p q : Text) (skip : Nat) (t : Text) :
    piecesFrom p q skip t = pieces p q (t.drop skip) := by
  induction t generalizing skip with
  | nil => cases skip <;> rfl
  | cons c rest ih =>
    cases skip with
    | zero => rfl
    | succ skip => exact ih skip

theorem pieces_opener (hp : p ≠ []) (t : Text) :
    pieces p q (p ++ t) = .opener :: pieces p q t := by
  obtain ⟨c, p', rfl⟩ := List.exists_cons_of_ne_nil hp
  rw [pieces, List.cons_append, piecesFrom, if_pos ⟨t, rfl⟩, piecesFrom_eq]
  simp

theorem pieces_closer (hq : q ≠ []) (h : ¬ p <+: q ++ t) :
    pieces p q (q ++ t) = .closer :: pieces p q t := by
  obtain ⟨c, q', rfl⟩ := List.exists_cons_of_ne_nil hq
  rw [List.cons_append] at h ⊢
  rw [pieces, piecesFrom, if_neg h, if_pos ⟨t, rfl⟩, piecesFrom_eq]
  simp

theorem pieces_other {c : Char} (hp : ¬ p <+: c :: t) (hq : ¬ q <+: c :: t) :
    pieces p q (c :: t) = .other c :: pieces p q t := by
  rw [pieces, piecesFrom, if_neg hp, if_neg hq, pieces]

/-- Behind what begins a text, one character less is left of the text behind its first. -/
theorem eq_append_drop {c : Char} {w : Text} (hw : w ≠ []) (h : w <+: c :: t) :
    c :: t = w ++ t.drop (w.length - 1) := by
  obtain ⟨d, w, rfl⟩ := List.exists_cons_of_ne_nil hw
  obtain ⟨tail, htail⟩ := h
  obtain ⟨rfl, rfl⟩ := List.cons.inj htail
  simp

theorem reads_piecesFrom (hp : p ≠ []) (hq : q ≠ []) (skip : Nat) (t : Text) :
    Reads p q (t.drop skip) (piecesFrom p q skip t) := by
  fun_induction piecesFrom p q skip t with
  | case1 skip =>
    rw [List.drop_nil]
    exact .nil
  | case2 skip c rest ih => exact ih
  | case3 c rest hopen ih =>
    rw [List.drop_zero, eq_append_drop hp hopen]
    exact .opener ih
  | case4 c rest hopen hclose ih =>
    rw [eq_append_drop hq hclose] at hopen
    rw [List.drop_zero, eq_append_drop hq hclose]
    exact .closer hopen ih
  | case5 c rest hopen hclose ih => exact .other hopen hclose ih

/-- Every text has exactly one reading. -/
theorem reads_iff (hp : p ≠ []) (hq : q ≠ []) : Reads p q t ps ↔ pieces p q t = ps := by
  constructor
  · intro h
    induction h with
    | nil => rfl
    | opener _ ih => rw [pieces_opener hp, ih]
    | closer hopen _ ih => rw [pieces_closer hq hopen, ih]
    | other hopen hclose _ ih => rw [pieces_other hopen hclose, ih]
  · rintro rfl
    exact reads_piecesFrom hp hq 0 t

theorem Reads.textOf_eq (h : Reads p q t ps) : textOf p q ps = t := by
  induction h with
  | nil => rfl
  | opener _ ih => exact congrArg (p ++ ·) ih
  | closer _ _ ih => exact congrArg (q ++ ·) ih
  | @other c _ _ _ _ _ ih => exact congrArg (c :: ·) ih

/-- A text that a reading passes through is read by itself in the same way. -/
theorem Reads.of_append (h : Reads p q (textOf p q ps ++ t) (ps ++ rest)) :
    Reads p q (textOf p q ps) ps := by
  induction ps with
  | nil => exact .nil
  | cons piece ps ih =>
    generalize htext : textOf p q (piece :: ps) ++ t = whole at h
    cases h with
    | opener hrest =>
      change p ++ textOf p q ps ++ t = _ at htext
      rw [List.append_assoc, List.append_right_inj] at htext
      exact .opener (ih (htext ▸ hrest))
    | closer hopen hrest =>
      change q ++ textOf p q ps ++ t = _ at htext
      rw [List.append_assoc, List.append_right_inj] at htext
      subst htext
      rw [← List.append_assoc] at hopen
      exact .closer (fun h => hopen (h.trans (List.prefix_append _ _))) (ih hrest)
    | @other c _ _ hopen hclose hrest =>
      change c :: (textOf p q ps ++ t) = _ at htext
      obtain rfl := (List.cons.inj htext).2
      have hpre : c :: textOf p q ps <+: c :: (textOf p q ps ++ t) := List.prefix_append _ t
      exact .other (fun h => hopen (h.trans hpre)) (fun h => hclose (h.trans hpre)) (ih hrest)

/-- A delimiter without white space does not reach over white space. -/
theorem not_prefix_append_blank {w : Text} {c : Char} (hw : Solid w) (hc : isBlank c = true)
    (h : ¬ w <+: t) (rest : Text) : ¬ w <+: t ++ c :: rest := by
  intro hpre
  rcases List.prefix_or_prefix_of_prefix hpre (List.prefix_append t _) with hshort | ⟨tail, rfl⟩
  · exact h hshort
  · rw [List.prefix_append_right_inj, List.prefix_cons_iff] at hpre
    rcases hpre with rfl | ⟨tail, rfl, -⟩
    · exact h (by simp)
    · have hnot := hw.2 c (by simp)
      rw [hc] at hnot
      cases hnot

/-- A text is read the same before white space, and so is what follows. -/
theorem Reads.append_blank {u : Text} {c : Char} (hp : Solid p) (hq : Solid q)
    (hc : isBlank c = true) (ht : Reads p q t ps) (hu : Reads p q u rest) :
    Reads p q (t ++ c :: u) (ps ++ .other c :: rest) := by
  induction ht with
  | nil =>
    exact .other (not_prefix_append_blank hp hc (mt List.prefix_nil.mp hp.1) u)
      (not_prefix_append_blank hq hc (mt List.prefix_nil.mp hq.1) u) hu
  | opener _ ih =>
    rw [List.append_assoc]
    exact .opener ih
  | closer hopen _ ih =>
    have hnot := not_prefix_append_blank hp hc hopen u
    rw [List.append_assoc] at hnot ⊢
    exact .closer hnot ih
  | other hopen hclose _ ih =>
    exact .other (not_prefix_append_blank hp hc hopen u) (not_prefix_append_blank hq hc hclose u) ih

/-- What stands between two delimiters is enclosed by them when it is paired in itself and
does not run into the second. -/
theorem enclosed_append_iff {inside : Text} : Enclosed p q (p ++ (inside ++ q)) ↔
    ∃ ps, Reads p q inside ps ∧ Reads p q (inside ++ q) (ps ++ [.closer]) ∧ Balanced ps := by
  constructor
  · rintro ⟨ps, hreads, hbalanced⟩
    generalize htext : p ++ (inside ++ q) = whole at hreads
    cases hreads with
    | opener hrest =>
      obtain rfl := List.append_cancel_left htext
      obtain rfl : textOf p q ps = inside := by simpa [textOf] using hrest.textOf_eq
      exact ⟨ps, hrest.of_append, hrest, hbalanced⟩
  · rintro ⟨ps, -, hreads, hbalanced⟩
    exact ⟨ps, .opener hreads, hbalanced⟩

end Reading

end CommentToggle.Text
