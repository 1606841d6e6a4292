import CommentToggle.Proofs.Directive.Grammar
import CommentToggle.Proofs.Document.Reading

/-!
Ends that name no group. The scan knows the groups that are open and gives such an end the
name of the innermost; the name may as well stand on the line. Lines on which it does,
in place of some of the ends without a name, give the same directives, apart from the
terms of an end that repeats a condition.
-/
namespace CommentToggle.Directive

open Text

/-- The groups that a scan has open behind the lines, innermost first. -/
def openedBy (s : Style) (opened : List Text) : List Line → List Text
  | [] => opened
  | l :: ls =>
    match ofLine? s l with
    | .ok (some d) =>
      match settle? opened d with
      | some (_, still) => openedBy s still ls
      | none => opened
    | _ => openedBy s opened ls

section OpenedBy

variable {s : Style} {opened still : List Text} {l : Line} {d e : Directive}

theorem openedBy_text (h : ofLine? s l = .ok none) (ls : List Line) :
    openedBy s opened (l :: ls) = openedBy s opened ls := by
  rw [openedBy, h]

theorem openedBy_directive (h : ofLine? s l = .ok (some d))
    (hsettle : settle? opened d = some (e, still)) (ls : List Line) :
    openedBy s opened (l :: ls) = openedBy s still ls := by
  rw [openedBy, h]
  simp only [hsettle]

theorem scanFrom_directive (h : ofLine? s l = .ok (some d))
    (hsettle : settle? opened d = some (e, still)) {ls : List Line} {ds : List Directive}
    (hscan : scanFrom s opened (l :: ls) = (ds, none)) :
    ∃ rest, scanFrom s still ls = (rest, none) ∧ ds = e :: rest := by
  rcases scanFrom_cons hscan with ⟨hnone, -⟩ | ⟨d', e', still', rest, hsome, hsettle', hrest, hds⟩
  · rw [h] at hnone
    cases hnone
  · cases h.symm.trans hsome
    cases hsettle.symm.trans hsettle'
    exact ⟨rest, hrest, hds⟩

/-- A scan goes on behind the first lines with the groups that these leave open. -/
theorem scanFrom_append {before after : List Line} {ds : List Directive}
    (h : scanFrom s opened (before ++ after) = (ds, none)) :
    ∃ es rest, ds = es ++ rest ∧ scanFrom s opened before = (es, none) ∧
      scanFrom s (openedBy s opened before) after = (rest, none) := by
  induction before generalizing opened ds with
  | nil => exact ⟨[], ds, rfl, rfl, h⟩
  | cons l before ih =>
    rcases scanFrom_cons h with ⟨hnone, htail⟩ | ⟨d, e, still, tail, hsome, hsettle, htail, rfl⟩
    · obtain ⟨es, rest, rfl, hbefore, hafter⟩ := ih htail
      refine ⟨es, rest, rfl, ?_, ?_⟩
      · rw [scanFrom, hnone]
        exact hbefore
      · rw [openedBy_text hnone]
        exact hafter
    · obtain ⟨es, rest, rfl, hbefore, hafter⟩ := ih htail
      refine ⟨e :: es, rest, rfl, ?_, ?_⟩
      · rw [scanFrom, hsome]
        simp only [hsettle, hbefore]
      · rw [openedBy_directive hsome hsettle]
        exact hafter

end OpenedBy

/-- The same directive, or an end with the terms of the condition that it repeats. -/
inductive Respelled : Directive → Directive → Prop
  | same (d : Directive) : Respelled d d
  | terms {d : Directive} {ts : List Term} : d.kind = .closing → Term.joined ts = d.group →
      Respelled d { d with condition := ts }

theorem Respelled.line_eq {d e : Directive} (h : Respelled d e) : e.line = d.line := by
  cases h <;> rfl

/-- The second lines are the first, with the name of the innermost open group written on some
of the ends that name none. -/
inductive Spelled (s : Style) : List Text → List Line → List Line → Prop
  | nil {opened : List Text} : Spelled s opened [] []
  | text {opened : List Text} {l : Line} {ls ms : List Line} : ofLine? s l = .ok none →
      Spelled s opened ls ms → Spelled s opened (l :: ls) (l :: ms)
  | kept {opened still : List Text} {l : Line} {ls ms : List Line} {d e : Directive} :
      ofLine? s l = .ok (some d) → settle? opened d = some (e, still) →
      Spelled s still ls ms → Spelled s opened (l :: ls) (l :: ms)
  | named {group : Text} {outer : List Text} {l m : Line} {ls ms : List Line} {d : Directive}
      {ts : List Term} : ofLine? s l = .ok (some d) → d.Bare →
      ofLine? s m = .ok (some { d with group, condition := ts }) →
      Spelled s outer ls ms → Spelled s (group :: outer) (l :: ls) (m :: ms)

theorem settle?_bare {d : Directive} (h : d.Bare) (group : Text) (outer : List Text) :
    settle? (group :: outer) d = some ({ d with group }, outer) := by
  simp [settle?, h.1, h.2, dropClosed_head]

theorem settle?_of_bare {opened still : List Text} {d e : Directive} (h : d.Bare)
    (hsettle : settle? opened d = some (e, still)) :
    ∃ group, opened = group :: still ∧ e = { d with group } := by
  rcases settle?_cases hsettle with ⟨hkind, -⟩ | ⟨hkind, -⟩ | ⟨-, hne, -⟩ | ⟨-, hnamed⟩
  · simp [h.1] at hkind
  · simp [h.1] at hkind
  · exact absurd h.2 hne
  · exact hnamed

/-- A closing that names the innermost open group. -/
theorem settle?_innermost {d : Directive} (h : d.kind = .closing) (outer : List Text) :
    settle? (d.group :: outer) d = some (d, outer) := by
  obtain ⟨kind, group, line, exclusive, spaced, condition⟩ := d
  obtain rfl : kind = .closing := h
  cases group <;> simp [settle?, dropClosed_head]

/-- The terms that are read are those of the group, if there are any. -/
theorem joined_of_ofLine? {s : Style} {l : Line} {d : Directive}
    (h : ofLine? s l = .ok (some d)) :
    d.condition = [] ∨ (d.group ≠ [] ∧ Term.joined d.condition = d.group) := by
  obtain ⟨k, hderives⟩ := (derives_of_ofLine? h).2
  obtain ⟨-, -, -, -, hargs⟩ := hderives
  cases hargs with
  | name _ => exact Or.inl rfl
  | bare => exact Or.inl rfl
  | condition _ hts _ => exact Or.inr ⟨hts.joined_eq ▸ hts.joined_ne_nil, rfl⟩

theorem Bare.condition_eq {s : Style} {l : Line} {d : Directive} (h : d.Bare)
    (hline : ofLine? s l = .ok (some d)) : d.condition = [] :=
  (joined_of_ofLine? hline).resolve_right fun hterms => hterms.1 h.2

/-- Naming an end changes at most its terms. -/
theorem respelled_named {s : Style} {l m : Line} {d : Directive} {group : Text} {ts : List Term}
    (hl : ofLine? s l = .ok (some d)) (hbare : d.Bare)
    (hm : ofLine? s m = .ok (some { d with group, condition := ts })) :
    Respelled { d with group } { d with group, condition := ts } := by
  rcases joined_of_ofLine? hm with hnone | ⟨-, hjoined⟩
  · have hsame : ts = d.condition := hnone.trans (hbare.condition_eq hl).symm
    rw [hsame]
    exact .same _
  · exact .terms (d := { d with group }) hbare.1 hjoined

/-- A line that stays, or another on the place of one that has a directive. -/
def Replaces (ds : List Directive) (l m : Line) : Prop :=
  m = l ∨ (m.index = l.index ∧ ∃ d ∈ ds, d.line = l.index)

theorem Replaces.cons {ds : List Directive} {l m : Line} (h : Replaces ds l m) (d : Directive) :
    Replaces (d :: ds) l m := by
  rcases h with h | ⟨hindex, e, he, hline⟩
  · exact Or.inl h
  · exact Or.inr ⟨hindex, e, List.mem_cons_of_mem d he, hline⟩

/-- Named or not, the ends are scanned to the same directives on the same lines. -/
theorem Spelled.scanFrom {s : Style} {opened : List Text} {ls ms : List Line}
    (h : Spelled s opened ls ms) {ds : List Directive}
    (hscan : scanFrom s opened ls = (ds, none)) :
    ∃ es, Directive.scanFrom s opened ms = (es, none) ∧ List.Forall₂ Respelled ds es ∧
      List.Forall₂ (Replaces ds) ls ms := by
  induction h generalizing ds with
  | nil =>
    cases hscan
    exact ⟨[], rfl, .nil, .nil⟩
  | @text opened l ls ms hnone _ ih =>
    rw [Directive.scanFrom, hnone] at hscan
    obtain ⟨es, hes, hrespelled, hlines⟩ := ih hscan
    refine ⟨es, ?_, hrespelled, .cons (Or.inl rfl) hlines⟩
    rw [Directive.scanFrom, hnone]
    exact hes
  | @kept opened still l ls ms d e hsome hsettle _ ih =>
    obtain ⟨rest, hrest, rfl⟩ := scanFrom_directive hsome hsettle hscan
    obtain ⟨es, hes, hrespelled, hlines⟩ := ih hrest
    refine ⟨e :: es, ?_, .cons (.same e) hrespelled,
      .cons (Or.inl rfl) (hlines.imp fun _ _ hline => hline.cons e)⟩
    rw [Directive.scanFrom, hsome]
    simp only [hsettle, hes]
  | @named group outer l m ls ms d ts hl hbare hm _ ih =>
    obtain ⟨rest, hrest, rfl⟩ := scanFrom_directive hl (settle?_bare hbare group outer) hscan
    obtain ⟨es, hes, hrespelled, hlines⟩ := ih hrest
    have hinnermost := settle?_innermost (d := { d with group, condition := ts }) hbare.1 outer
    have hline : d.line = l.index := (of_ofLine? hl).1
    have hindex : m.index = l.index := (of_ofLine? hm).1.symm.trans hline
    refine ⟨_ :: es, ?_, .cons (respelled_named hl hbare hm) hrespelled,
      .cons (Or.inr ⟨hindex, _, List.mem_cons_self, hline⟩)
        (hlines.imp fun _ _ hline => hline.cons _)⟩
    rw [Directive.scanFrom, hm]
    simp only [hinnermost, hes]

end CommentToggle.Directive
