import CommentToggle.Directive.Scan
import CommentToggle.Proofs.Outcome

/-!
What a scan finds. A line gives a directive exactly when it carries the marker, the
directives come in the order of their lines, and only flags have conditions. Two
lists of lines that read alike line by line give the same directives.
-/
namespace CommentToggle.Directive

theorem ofLine?_eq_none_iff {s : Style} {l : Line} :
    ofLine? s l = .ok none ↔ marked? s l.content = none := by
  unfold ofLine?
  cases hm : marked? s l.content with
  | none => simp
  | some v =>
    obtain ⟨spaced, rest⟩ := v
    cases hr : readBody s l.index spaced rest <;> simp [hr]

theorem readArguments_plain {k : Keyword} {words : List Text} {group : Text}
    {condition : List Term} (h : readArguments k words = .ok (group, condition))
    (hk : k.takesCondition = false) : condition = [] := by
  unfold readArguments at h
  have hnot : isCondition k words = false := by
    unfold isCondition
    split <;> simp [hk]
  rw [if_neg (by simp [hnot])] at h
  obtain ⟨name, _, h⟩ := Outcome.bind_eq_ok_iff.mp h
  cases h
  rfl

/-- A directive names its line, and conditions belong to flags. -/
theorem of_ofLine? {s : Style} {l : Line} {d : Directive} (h : ofLine? s l = .ok (some d)) :
    d.line = l.index ∧ (marked? s l.content).isSome = true ∧
      (d.kind ≠ .closing → d.exclusive = true → d.condition = []) := by
  unfold ofLine? at h
  cases hm : marked? s l.content with
  | none => simp [hm] at h
  | some v =>
    obtain ⟨spaced, rest⟩ := v
    simp only [hm] at h
    cases hr : readBody s l.index spaced rest with
    | error reason => simp [hr] at h
    | ok e =>
      simp only [hr, Except.ok.injEq, Option.some.injEq] at h
      subst h
      obtain ⟨body, _, hr⟩ := Outcome.bind_eq_ok_iff.mp hr
      obtain ⟨⟨k, words⟩, _, hr⟩ := Outcome.bind_eq_ok_iff.mp hr
      obtain ⟨⟨group, condition⟩, hargs, hr⟩ := Outcome.bind_eq_ok_iff.mp hr
      cases hr
      refine ⟨rfl, rfl, fun hkind hexclusive => ?_⟩
      have hk : k.takesCondition = false := by
        cases k with
        | beginGroup => rfl
        | beginFlag => simp [Keyword.isExclusive] at hexclusive
        | endGroup => exact absurd rfl hkind
        | nextLine => rfl
      exact readArguments_plain hargs hk

/-- A closing that names no group. -/
def Bare (d : Directive) : Prop := d.kind = .closing ∧ d.group = []

instance (d : Directive) : Decidable d.Bare := inferInstanceAs (Decidable (_ ∧ _))

theorem dropClosed_head (group : Text) (outer : List Text) :
    dropClosed group (group :: outer) = outer := by
  simp [dropClosed]

/-- Everything that settling a directive can do. -/
theorem settle?_cases {opened still : List Text} {d e : Directive}
    (h : settle? opened d = some (e, still)) :
    (d.kind = .opening ∧ e = d ∧ still = d.group :: opened) ∨
    (d.kind = .tagging ∧ e = d ∧ still = opened) ∨
    (d.kind = .closing ∧ d.group ≠ [] ∧ e = d ∧ still = dropClosed d.group opened) ∨
    (d.Bare ∧ ∃ group, opened = group :: still ∧ e = { d with group }) := by
  unfold settle? at h
  cases hkind : d.kind with
  | opening =>
    simp only [hkind, Option.some.injEq, Prod.mk.injEq] at h
    exact Or.inl ⟨rfl, h.1.symm, h.2.symm⟩
  | tagging =>
    simp only [hkind, Option.some.injEq, Prod.mk.injEq] at h
    exact Or.inr (Or.inl ⟨rfl, h.1.symm, h.2.symm⟩)
  | closing =>
    right; right
    simp only [hkind] at h
    split at h
    · rename_i hbare
      cases opened with
      | nil => cases h
      | cons group outer =>
        rw [List.head?_cons, Option.map_some, Option.some.injEq, Prod.mk.injEq,
          dropClosed_head] at h
        obtain ⟨rfl, rfl⟩ := h
        exact Or.inr ⟨⟨hkind, List.isEmpty_iff.mp hbare⟩, group, rfl, rfl⟩
    · rename_i hnamed
      simp only [Option.some.injEq, Prod.mk.injEq] at h
      exact Or.inl ⟨rfl, fun hnil => hnamed (List.isEmpty_iff.mpr hnil), h.1.symm, h.2.symm⟩

theorem settle?_eq_some {opened still : List Text} {d e : Directive}
    (h : settle? opened d = some (e, still)) :
    e.line = d.line ∧ e.kind = d.kind ∧ e.exclusive = d.exclusive ∧ e.condition = d.condition := by
  rcases settle?_cases h with ⟨-, rfl, -⟩ | ⟨-, rfl, -⟩ | ⟨-, -, rfl, -⟩ | ⟨-, group, -, rfl⟩ <;>
    exact ⟨rfl, rfl, rfl, rfl⟩

/-- One line of a scan that goes through. -/
theorem scanFrom_cons {s : Style} {opened : List Text} {l : Line} {ls : List Line}
    {ds : List Directive} (h : scanFrom s opened (l :: ls) = (ds, none)) :
    (ofLine? s l = .ok none ∧ scanFrom s opened ls = (ds, none)) ∨
      ∃ d e still rest, ofLine? s l = .ok (some d) ∧ settle? opened d = some (e, still) ∧
        scanFrom s still ls = (rest, none) ∧ ds = e :: rest := by
  rw [scanFrom] at h
  cases hl : ofLine? s l with
  | error fault => simp [hl] at h
  | ok found =>
    cases found with
    | none =>
      simp only [hl] at h
      exact Or.inl ⟨rfl, h⟩
    | some d =>
      right
      cases hs : settle? opened d with
      | none => simp [hl, hs] at h
      | some v =>
        obtain ⟨e, still⟩ := v
        cases hrest : scanFrom s still ls with
        | mk rest fault =>
          simp only [hl, hs, hrest, Prod.mk.injEq] at h
          obtain ⟨rfl, rfl⟩ := h
          exact ⟨d, e, still, rest, rfl, hs, hrest, rfl⟩

/-- Which directives stand on which lines. -/
structure Found (s : Style) (ls : List Line) (ds : List Directive) : Prop where
  line : ∀ d ∈ ds, ∃ l ∈ ls, d.line = l.index ∧ (marked? s l.content).isSome = true
  every : ∀ l ∈ ls, (marked? s l.content).isSome = true → ∃ d ∈ ds, d.line = l.index
  plain : ∀ d ∈ ds, d.kind ≠ .closing → d.exclusive = true → d.condition = []
  increasing : ls.Pairwise (·.index < ·.index) → ds.Pairwise (·.line < ·.line)

theorem Found.skip {s : Style} {l : Line} {ls : List Line} {ds : List Directive}
    (h : Found s ls ds) (hl : marked? s l.content = none) : Found s (l :: ls) ds where
  line := by
    intro d hd
    obtain ⟨m, hm, heq⟩ := h.line d hd
    exact ⟨m, List.mem_cons_of_mem l hm, heq⟩
  every := by
    intro m hm hmarked
    rcases List.mem_cons.mp hm with rfl | hm
    · simp [hl] at hmarked
    · exact h.every m hm hmarked
  plain := h.plain
  increasing := fun hls => h.increasing hls.tail

theorem Found.keep {s : Style} {l : Line} {ls : List Line} {d : Directive} {ds : List Directive}
    (h : Found s ls ds) (hline : d.line = l.index) (hl : (marked? s l.content).isSome = true)
    (hplain : d.kind ≠ .closing → d.exclusive = true → d.condition = []) :
    Found s (l :: ls) (d :: ds) where
  line := by
    intro e he
    rcases List.mem_cons.mp he with rfl | he
    · exact ⟨l, by simp, hline, hl⟩
    · obtain ⟨m, hm, heq⟩ := h.line e he
      exact ⟨m, List.mem_cons_of_mem l hm, heq⟩
  every := by
    intro m hm hmarked
    rcases List.mem_cons.mp hm with rfl | hm
    · exact ⟨d, by simp, hline⟩
    · obtain ⟨e, he, heq⟩ := h.every m hm hmarked
      exact ⟨e, List.mem_cons_of_mem d he, heq⟩
  plain := by
    intro e he
    rcases List.mem_cons.mp he with rfl | he
    · exact hplain
    · exact h.plain e he
  increasing := by
    intro hls
    refine List.pairwise_cons.mpr ⟨fun e he => ?_, h.increasing hls.tail⟩
    obtain ⟨m, hm, heq, _⟩ := h.line e he
    have hlt : l.index < m.index := List.rel_of_pairwise_cons hls hm
    omega

theorem found_of_scanFrom {s : Style} {opened : List Text} {ls : List Line} {ds : List Directive}
    (h : scanFrom s opened ls = (ds, none)) : Found s ls ds := by
  induction ls generalizing opened ds with
  | nil =>
    cases h
    exact ⟨by simp, by simp, by simp, fun _ => List.Pairwise.nil⟩
  | cons l ls ih =>
    rcases scanFrom_cons h with ⟨hnone, hrest⟩ | ⟨d, e, still, rest, hsome, hsettle, hrest, rfl⟩
    · exact (ih hrest).skip (ofLine?_eq_none_iff.mp hnone)
    · obtain ⟨hline, hmarked, hplain⟩ := of_ofLine? hsome
      obtain ⟨heline, hekind, heexclusive, hecondition⟩ := settle?_eq_some hsettle
      apply (ih hrest).keep (heline.trans hline) hmarked
      rw [hekind, heexclusive, hecondition]
      exact hplain

/-- A directive that is no closing was read from a line as it stands. -/
theorem exists_line_of_scanFrom {s : Style} {opened : List Text} {ls : List Line}
    {ds : List Directive} (h : scanFrom s opened ls = (ds, none)) {d : Directive} (hd : d ∈ ds)
    (hkind : d.kind ≠ .closing) : ∃ l ∈ ls, ofLine? s l = .ok (some d) := by
  induction ls generalizing opened ds with
  | nil =>
    cases h
    simp at hd
  | cons l ls ih =>
    rcases scanFrom_cons h with ⟨-, hrest⟩ | ⟨c, e, still, rest, hsome, hsettle, hrest, rfl⟩
    · obtain ⟨m, hm, hread⟩ := ih hrest hd
      exact ⟨m, List.mem_cons_of_mem l hm, hread⟩
    · rcases List.mem_cons.mp hd with rfl | hd
      · -- Only a closing is given another name than it was read with.
        have hsame : d = c := by
          rcases settle?_cases hsettle with ⟨-, heq, -⟩ | ⟨-, heq, -⟩ | ⟨-, -, heq, -⟩ |
            ⟨hbare, group, -, rfl⟩
          · exact heq
          · exact heq
          · exact heq
          · exact absurd hbare.1 hkind
        exact ⟨l, List.mem_cons_self, by rw [hsame, hsome]⟩
      · obtain ⟨m, hm, hread⟩ := ih hrest hd
        exact ⟨m, List.mem_cons_of_mem l hm, hread⟩

theorem malformed_of_ofLine? {s : Style} {l : Line} {f : Fault} (h : ofLine? s l = .error f) :
    ∃ line reason, f = .malformed line reason := by
  unfold ofLine? at h
  split at h
  · cases h
  · split at h
    · cases h
    · cases h
      exact ⟨_, _, rfl⟩

/-- A scan fails only where a line carries the marker and cannot be read. -/
theorem malformed_of_scanFrom {s : Style} {opened : List Text} {ls : List Line}
    {ds : List Directive} {f : Fault} (h : scanFrom s opened ls = (ds, some f)) :
    ∃ line reason, f = .malformed line reason := by
  induction ls generalizing opened ds with
  | nil => cases h
  | cons l ls ih =>
    rw [scanFrom] at h
    split at h
    · rename_i fault hl
      cases h
      exact malformed_of_ofLine? hl
    · exact ih h
    · split at h
      · cases h
        exact ⟨_, _, rfl⟩
      · rename_i still _
        generalize hrest : scanFrom s still ls = rest at h
        obtain ⟨found, fault⟩ := rest
        cases h
        exact ih hrest

theorem scan_eq_ok_iff {s : Style} {ls : List Line} {ds : List Directive} :
    scan s ls = .ok ds ↔ scanFrom s [] ls = (ds, none) := by
  unfold scan
  cases hscan : scanFrom s [] ls with
  | mk found fault => cases fault <;> simp

/-- In a scan that goes through, every line can be read. -/
theorem exists_ofLine?_of_scanFrom {s : Style} {opened : List Text} {ls : List Line}
    {ds : List Directive} (h : scanFrom s opened ls = (ds, none)) :
    ∀ l ∈ ls, ∃ found, ofLine? s l = .ok found := by
  induction ls generalizing opened ds with
  | nil => simp
  | cons l ls ih =>
    intro m hm
    rcases scanFrom_cons h with ⟨hnone, hrest⟩ | ⟨d, e, still, rest, hsome, -, hrest, -⟩
    · rcases List.mem_cons.mp hm with rfl | hm
      · exact ⟨_, hnone⟩
      · exact ih hrest m hm
    · rcases List.mem_cons.mp hm with rfl | hm
      · exact ⟨_, hsome⟩
      · exact ih hrest m hm

theorem malformed_of_scan {s : Style} {ls : List Line} {f : Fault} (h : scan s ls = .error f) :
    ∃ line reason, f = .malformed line reason := by
  unfold scan at h
  split at h
  · cases h
  · rename_i fault hscan
    cases h
    exact malformed_of_scanFrom hscan

/-- A body that does not begin with white space has a first word. -/
theorem words_ne_nil {body : Text} (h : body.head?.all Text.isBlank = false) :
    Text.words body ≠ [] := by
  match body with
  | [] => simp at h
  | [c] =>
    have hc : Text.isBlank c = false := by simpa using h
    simp [Text.words, hc]
  | c :: d :: rest =>
    have hc : Text.isBlank c = false := by simpa using h
    rw [Text.words, hc, if_neg (by simp)]
    split
    · simp
    · split <;> simp

theorem found_of_scan {s : Style} {ls : List Line} {ds : List Directive}
    (h : scan s ls = .ok ds) : Found s ls ds := found_of_scanFrom (scan_eq_ok_iff.mp h)

theorem scanFrom_map {s : Style} {g : Line → Line} {ls : List Line}
    (h : ∀ l ∈ ls, (g l).index = l.index ∧ ofLine? s (g l) = ofLine? s l) (opened : List Text) :
    scanFrom s opened (ls.map g) = scanFrom s opened ls := by
  induction ls generalizing opened with
  | nil => rfl
  | cons l ls ih =>
    obtain ⟨hindex, hline⟩ := h l (by simp)
    have hrest := ih fun m hm => h m (List.mem_cons_of_mem l hm)
    rw [List.map_cons, scanFrom, scanFrom, hline, hindex]
    cases ofLine? s l with
    | error fault => rfl
    | ok found =>
      cases found with
      | none => exact hrest opened
      | some d =>
        simp only
        cases settle? opened d with
        | none => rfl
        | some v => simp only [hrest]

theorem scan_map {s : Style} {g : Line → Line} {ls : List Line}
    (h : ∀ l ∈ ls, (g l).index = l.index ∧ ofLine? s (g l) = ofLine? s l) :
    scan s (ls.map g) = scan s ls := by
  unfold scan
  rw [scanFrom_map h]

theorem ofLine?_congr {s : Style} {l m : Line} (hindex : m.index = l.index)
    (h : marked? s m.content = marked? s l.content) : ofLine? s m = ofLine? s l := by
  unfold ofLine?
  rw [h, hindex]

end CommentToggle.Directive
