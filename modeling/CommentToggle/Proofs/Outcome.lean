import CommentToggle.Log
import Mathlib.Data.List.Forall2

/-!
Computations that may fail, taken apart: a chain succeeds when each link does,
and a list is gone through when each member is. Records kept on the way change
nothing of it.
-/
namespace CommentToggle.Outcome

variable {ε α β : Type}

theorem bind_eq_ok_iff {x : Except ε α} {f : α → Except ε β} {b : β} :
    (x >>= f) = .ok b ↔ ∃ a, x = .ok a ∧ f a = .ok b := by
  cases x <;> simp [bind, Except.bind]

theorem bind_eq_error_iff {x : Except ε α} {f : α → Except ε β} {e : ε} :
    (x >>= f) = .error e ↔ x = .error e ∨ ∃ a, x = .ok a ∧ f a = .error e := by
  cases x <;> simp [bind, Except.bind]

/-- A chain that fails does so in one of its steps. -/
theorem exists_of_foldlM_error {f : β → α → Except ε β} {xs : List α} {b : β} {e : ε}
    (h : xs.foldlM f b = .error e) : ∃ c, ∃ x ∈ xs, f c x = .error e := by
  induction xs generalizing b with
  | nil => cases h
  | cons x xs ih =>
    rw [List.foldlM_cons] at h
    rcases bind_eq_error_iff.mp h with hfirst | ⟨c, -, hrest⟩
    · exact ⟨b, x, by simp, hfirst⟩
    · obtain ⟨c, y, hy, hfail⟩ := ih hrest
      exact ⟨c, y, List.mem_cons_of_mem x hy, hfail⟩

theorem exists_of_mapM_error {f : α → Except ε β} {xs : List α} {e : ε}
    (h : xs.mapM f = .error e) : ∃ x ∈ xs, f x = .error e := by
  induction xs with
  | nil => cases h
  | cons x xs ih =>
    rw [List.mapM_cons] at h
    rcases bind_eq_error_iff.mp h with hfirst | ⟨y, -, hrest⟩
    · exact ⟨x, by simp, hfirst⟩
    · rcases bind_eq_error_iff.mp hrest with htail | ⟨ys, -, hlast⟩
      · obtain ⟨z, hz, hfail⟩ := ih htail
        exact ⟨z, List.mem_cons_of_mem x hz, hfail⟩
      · cases hlast

theorem mapM_eq_ok_iff {f : α → Except ε β} {xs : List α} {ys : List β} :
    xs.mapM f = .ok ys ↔ List.Forall₂ (fun x y => f x = .ok y) xs ys := by
  induction xs generalizing ys with
  | nil => cases ys <;> simp [pure, Except.pure]
  | cons x xs ih =>
    rw [List.mapM_cons, bind_eq_ok_iff]
    constructor
    · intro h
      obtain ⟨y, hy, h⟩ := h
      obtain ⟨rest, hrest, h⟩ := bind_eq_ok_iff.mp h
      cases h
      exact .cons hy (ih.mp hrest)
    · rintro (_ | ⟨hy, hrest⟩)
      exact ⟨_, hy, bind_eq_ok_iff.mpr ⟨_, ih.mpr hrest, rfl⟩⟩

theorem mapM_eq_ok_map {f : α → Except ε β} {g : α → β} {xs : List α}
    (h : ∀ x ∈ xs, f x = .ok (g x)) : xs.mapM f = .ok (xs.map g) := by
  rw [mapM_eq_ok_iff, List.forall₂_map_right_iff, List.forall₂_same]
  exact h

theorem eq_map_of_mapM {f : α → Except ε β} {g : α → β} {xs : List α} {ys : List β}
    (h : xs.mapM f = .ok ys) (hg : ∀ x ∈ xs, ∀ y, f x = .ok y → y = g x) : ys = xs.map g := by
  rw [mapM_eq_ok_iff] at h
  induction h with
  | nil => rfl
  | cons hy _ ih =>
    rw [List.map_cons, hg _ (by simp) _ hy, ih fun x hx => hg x (List.mem_cons_of_mem _ hx)]

theorem exists_of_mapM {f : α → Except ε β} {xs : List α} {ys : List β}
    (h : xs.mapM f = .ok ys) : ∀ x ∈ xs, ∃ y, f x = .ok y := by
  rw [mapM_eq_ok_iff] at h
  induction h with
  | nil => simp
  | cons hy _ ih =>
    intro x hx
    rcases List.mem_cons.mp hx with rfl | hx
    · exact ⟨_, hy⟩
    · exact ih x hx

/-- Whether there is a result and it passes. -/
def passes (x : Except ε α) (p : α → Bool) : Bool :=
  match x with
  | .ok a => p a
  | .error _ => false

theorem exists_of_passes {x : Except ε α} {p : α → Bool} (h : passes x p = true) :
    ∃ a, x = .ok a ∧ p a = true := by
  cases x with
  | ok a => exact ⟨a, rfl, h⟩
  | error e => simp [passes] at h

theorem passes_ok (a : α) (p : α → Bool) : passes (.ok a : Except ε α) p = p a := rfl

end CommentToggle.Outcome

namespace CommentToggle.Logged

variable {ε α β : Type}

theorem outcome_bind_eq_ok_iff {x : Logged ε α} {f : α → Logged ε β} {b : β} :
    (x >>= f).outcome = .ok b ↔ ∃ a, x.outcome = .ok a ∧ (f a).outcome = .ok b := by
  rw [outcome_bind]
  exact Outcome.bind_eq_ok_iff

/-- What comes first gives its result, or leaves it to what follows. -/
theorem outcome_first_iff {x : Logged ε (Option α)} {f : Option α → Logged ε α} {a : α}
    (hfirst : ∀ a, f (some a) = pure a) : (x >>= f).outcome = .ok a ↔
      x.outcome = .ok (some a) ∨ x.outcome = .ok none ∧ (f none).outcome = .ok a := by
  rw [outcome_bind_eq_ok_iff]
  constructor
  · intro h
    obtain ⟨found, hfound, h⟩ := h
    cases found with
    | some b =>
      rw [hfirst, outcome_pure] at h
      exact Or.inl (Except.ok.inj h ▸ hfound)
    | none => exact Or.inr ⟨hfound, h⟩
  · intro h
    rcases h with hfound | ⟨hfound, h⟩
    · exact ⟨some a, hfound, by rw [hfirst, outcome_pure]⟩
    · exact ⟨none, hfound, h⟩

theorem outcome_eq_iff {x : Logged ε α} {o : Except ε α} :
    x.outcome = o ↔ ∃ records, x = ⟨records, o⟩ := by
  constructor
  · intro h
    exact ⟨x.records, by rw [← h]⟩
  · intro h
    obtain ⟨records, rfl⟩ := h
    rfl

def Succeeds (x : Logged ε α) : Prop := ∃ a, x.outcome = .ok a

theorem Succeeds.bind {x : Logged ε α} {f : α → Logged ε β} (hx : x.Succeeds)
    (hf : ∀ a, x.outcome = .ok a → (f a).Succeeds) : (x >>= f).Succeeds := by
  obtain ⟨a, ha⟩ := hx
  obtain ⟨b, hb⟩ := hf a ha
  exact ⟨b, outcome_bind_eq_ok_iff.mpr ⟨a, ha, hb⟩⟩

/-- There is a result, or that error and no other. -/
def SucceedsOr (x : Logged ε α) (e : ε) : Prop := x.Succeeds ∨ x.outcome = .error e

theorem SucceedsOr.first {x : Logged ε (Option α)} {f : Option α → Logged ε α} {e : ε}
    (hx : x.Succeeds) (hfirst : ∀ a, f (some a) = pure a) (hrest : (f none).SucceedsOr e) :
    (x >>= f).SucceedsOr e := by
  obtain ⟨found, hfound⟩ := hx
  cases found with
  | some a => exact Or.inl ⟨a, (outcome_first_iff hfirst).mpr (Or.inl hfound)⟩
  | none =>
    have hsame : (x >>= f).outcome = (f none).outcome := by
      rw [outcome_bind, hfound]
      rfl
    unfold SucceedsOr Succeeds
    rw [hsame]
    exact hrest

end CommentToggle.Logged
