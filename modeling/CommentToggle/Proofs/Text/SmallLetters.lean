import CommentToggle.Text.Case
import Mathlib.Data.List.Basic

/-!
Small letters have no small letters of their own. The numbers that a run of capitals is sent
to lie in no run, so a text in small letters is left as it is, whatever stands around the
places where a capital sigma would have been; and lowering a text twice is lowering it once.
Text in basic Latin characters is lowered character by character.
-/
namespace CommentToggle.Text

/-- The number of the small letter for a number of the run. -/
def CaseRun.small (r : CaseRun) (n : Nat) : Nat := (n + r.shift).toNat

/-- The run lies apart from the numbers between `first` and `last` at that step, or they all
fall between its own steps. -/
def CaseRun.misses (r : CaseRun) (first last step : Nat) : Bool :=
  Nat.blt last r.first || Nat.blt r.last first ||
    ((first - r.first) % r.step != 0 && (step % r.step == 0 || first == last))

/-- All that is lowered; the dotted capital I is in no run, since it becomes two characters. -/
def capitals : List CaseRun := ⟨0x130, 0x130, 1, 0⟩ :: lowerRuns

theorem capitals_miss : (lowerRuns.all fun r => capitals.all fun q =>
    q.misses (r.small r.first) (r.small r.last) r.step) = true := by
  decide +kernel

theorem capitals_miss_zero : (capitals.all fun q => !q.covers 0) = true := by decide

theorem CaseRun.covers_iff {r : CaseRun} {n : Nat} :
    r.covers n = true ↔ r.first ≤ n ∧ n ≤ r.last ∧ (n - r.first) % r.step = 0 := by
  simp [covers, and_assoc]

/-- A run that misses the small letters of another one covers none of them. -/
theorem CaseRun.covers_small {r q : CaseRun} {n : Nat}
    (h : q.misses (r.small r.first) (r.small r.last) r.step = true) (hn : r.covers n = true) :
    q.covers (r.small n) = false := by
  obtain ⟨hfirst, hlast, hstep⟩ := covers_iff.mp hn
  rw [← Bool.not_eq_true, covers_iff]
  intro hcovers
  obtain ⟨hfirst', hlast', hstep'⟩ := hcovers
  simp only [misses, Bool.or_eq_true, Bool.and_eq_true, Nat.blt_eq, bne_iff_ne, beq_iff_eq] at h
  unfold small at *
  rcases h with (hbelow | habove) | ⟨hbetween, hequal⟩
  · omega
  · omega
  · -- The first small letter is as far from the steps of `q` as every other one.
    have hpos : q.first < (r.first + r.shift).toNat := by
      by_contra hle
      have hzero : (r.first + r.shift).toNat - q.first = 0 := by omega
      rw [hzero] at hbetween
      simp at hbetween
    have hsplit : (n + r.shift).toNat - q.first =
        ((r.first + r.shift).toNat - q.first) + (n - r.first) := by omega
    rw [hsplit] at hstep'
    rcases hequal with hmultiple | hsingle
    · have hdvd : q.step ∣ n - r.first :=
        Nat.dvd_trans (Nat.dvd_of_mod_eq_zero hmultiple) (Nat.dvd_of_mod_eq_zero hstep)
      rw [Nat.add_mod, Nat.mod_eq_zero_of_dvd hdvd, Nat.add_zero, Nat.mod_mod] at hstep'
      exact hbetween hstep'
    · have hn : n - r.first = 0 := by omega
      rw [hn, Nat.add_zero] at hstep'
      exact hbetween hstep'

/-- A character that lowering leaves as it is. -/
def IsSmall (c : Char) : Prop := ∀ r ∈ capitals, r.covers c.toNat = false

instance : DecidablePred IsSmall :=
  fun c => inferInstanceAs (Decidable (∀ r ∈ capitals, r.covers c.toNat = false))

theorem IsSmall.lowerChar_eq {c : Char} (h : IsSmall c) : lowerChar c = c := by
  have hnone : lowerRuns.find? (·.covers c.toNat) = none := by
    rw [List.find?_eq_none]
    intro r hr
    simp [h r (List.mem_cons_of_mem _ hr)]
  rw [lowerChar, hnone]

theorem IsSmall.ne_special {c : Char} (h : IsSmall c) : c ≠ '\u0130' ∧ c ≠ '\u03a3' := by
  constructor
  · intro hc
    subst hc
    exact absurd (h _ List.mem_cons_self) (by decide)
  · intro hc
    subst hc
    have hsigma : (capitals.all fun r => !r.covers '\u03a3'.toNat) = false := by decide
    rw [List.all_eq_false] at hsigma
    obtain ⟨r, hr, hcovers⟩ := hsigma
    exact hcovers (by rw [h r hr]; rfl)

/-- A number that is no character stands for the null character. -/
theorem toNat_ofNat_or (n : Nat) : (Char.ofNat n).toNat = n ∨ (Char.ofNat n).toNat = 0 := by
  unfold Char.ofNat
  by_cases hvalid : n.isValidChar
  · rw [dif_pos hvalid]
    exact Or.inl rfl
  · rw [dif_neg hvalid]
    exact Or.inr rfl

theorem isSmall_lowerChar {c : Char} (hc : c ≠ '\u0130') : IsSmall (lowerChar c) := by
  intro q hq
  unfold lowerChar
  cases hfind : lowerRuns.find? (·.covers c.toNat) with
  | some r =>
    have hmiss := List.all_eq_true.mp (List.all_eq_true.mp capitals_miss r
      (List.mem_of_find?_eq_some hfind)) q hq
    have hcovers := List.find?_some (p := fun r : CaseRun => r.covers c.toNat) hfind
    have hzero := List.all_eq_true.mp capitals_miss_zero q hq
    change q.covers (Char.ofNat (r.small c.toNat)).toNat = false
    rcases toNat_ofNat_or (r.small c.toNat) with hsame | hnull
    · rw [hsame]
      exact CaseRun.covers_small hmiss hcovers
    · rw [hnull]
      simpa using hzero
  | none =>
    change q.covers c.toNat = false
    rcases List.mem_cons.mp hq with rfl | hq
    · rw [← Bool.not_eq_true, CaseRun.covers_iff]
      intro hcovers
      exact hc (Char.toNat_inj.mp (Nat.le_antisymm hcovers.2.1 hcovers.1))
    · have hnot := List.find?_eq_none.mp hfind q hq
      simpa using hnot

/-- What takes the place of the dotted capital I and of the capital sigma is small. -/
theorem special_small : (['i', '\u0307', '\u03c2', '\u03c3'].all fun c =>
    capitals.all fun r => !r.covers c.toNat) = true := by
  decide +kernel

theorem isSmall_of_mem_lowerFrom {before t : Text} {c : Char} (h : c ∈ lowerFrom before t) :
    IsSmall c := by
  induction t generalizing before with
  | nil => simp [lowerFrom] at h
  | cons d rest ih =>
    rw [lowerFrom] at h
    rcases List.mem_append.mp h with hsmall | hrest
    · have hspecial : ∀ e ∈ ['i', '\u0307', '\u03c2', '\u03c3'], IsSmall e := by
        intro e he r hr
        have hcovers := List.all_eq_true.mp (List.all_eq_true.mp special_small e he) r hr
        simpa using hcovers
      split at hsmall
      · exact hspecial c (List.mem_of_mem_take (i := 2) hsmall)
      · rename_i hdotted
        split at hsmall
        · split at hsmall
          · exact hspecial c (List.mem_cons_of_mem _ (by simp [List.mem_singleton.mp hsmall]))
          · exact hspecial c (by simp [List.mem_singleton.mp hsmall])
        · rw [List.mem_singleton.mp hsmall]
          exact isSmall_lowerChar hdotted
    · exact ih hrest

theorem lowerFrom_of_isSmall {t : Text} (h : ∀ c ∈ t, IsSmall c) (before : Text) :
    lowerFrom before t = t := by
  induction t generalizing before with
  | nil => rfl
  | cons c rest ih =>
    have hc := h c List.mem_cons_self
    obtain ⟨hdotted, hsigma⟩ := hc.ne_special
    rw [lowerFrom, ih fun d hd => h d (List.mem_cons_of_mem c hd)]
    simp [hdotted, hsigma, hc.lowerChar_eq]

theorem lower_lower (t : Text) : lower (lower t) = lower t :=
  lowerFrom_of_isSmall (fun _ hc => isSmall_of_mem_lowerFrom hc) []

/-- The basic Latin capitals are in the first run, and none of the others comes near. -/
theorem lowerChar_latin {c : Char} (h : c.toNat < 128) : lowerChar c = c.toLower := by
  have hruns : ∀ r ∈ lowerRuns.tail, 128 ≤ r.first := by decide +kernel
  have hfirst : lowerRuns = ⟨65, 90, 1, 32⟩ :: lowerRuns.tail := rfl
  have hrest : lowerRuns.tail.find? (·.covers c.toNat) = none := by
    rw [List.find?_eq_none]
    intro r hr hcovers
    have hle := (CaseRun.covers_iff.mp hcovers).1
    have hbound := hruns r hr
    omega
  rw [lowerChar, hfirst, List.find?_cons, hrest]
  by_cases hcapital : 65 ≤ c.toNat ∧ c.toNat ≤ 90
  · have hcovers : CaseRun.covers ⟨65, 90, 1, 32⟩ c.toNat = true :=
      CaseRun.covers_iff.mpr ⟨hcapital.1, hcapital.2, Nat.mod_one _⟩
    have hall : ∀ n : Nat, n < 91 → 65 ≤ n →
        Char.ofNat ((n : Int) + 32).toNat = (Char.ofNat n).toLower := by decide
    have hsame := hall c.toNat (Nat.lt_succ_of_le hcapital.2) hcapital.1
    rw [Char.ofNat_toNat] at hsame
    rw [hcovers]
    exact hsame
  · have hcovers : CaseRun.covers ⟨65, 90, 1, 32⟩ c.toNat = false := by
      rw [← Bool.not_eq_true, CaseRun.covers_iff]
      exact fun h => hcapital ⟨h.1, h.2.1⟩
    have hother : ¬ (c.val ≥ 'A'.val ∧ c.val ≤ 'Z'.val) := fun h => hcapital ⟨h.1, h.2⟩
    rw [hcovers]
    delta Char.toLower
    rw [dif_neg hother]

theorem lower_latin {t : Text} (h : ∀ c ∈ t, c.toNat < 128) : lower t = t.map Char.toLower := by
  suffices hfrom : ∀ before, lowerFrom before t = t.map Char.toLower from hfrom []
  induction t with
  | nil => exact fun _ => rfl
  | cons c rest ih =>
    intro before
    have hc := h c List.mem_cons_self
    have hdotted : c ≠ '\u0130' := by
      rintro rfl
      exact absurd hc (by decide)
    have hsigma : c ≠ '\u03a3' := by
      rintro rfl
      exact absurd hc (by decide)
    rw [lowerFrom, ih fun d hd => h d (List.mem_cons_of_mem c hd)]
    simp [hdotted, hsigma, lowerChar_latin hc]

end CommentToggle.Text
