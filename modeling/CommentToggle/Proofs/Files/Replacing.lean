import CommentToggle.Proofs.Files.Tree

/-!
Replacing a file is all or nothing. While it is being replaced only the temporary file
differs from the tree before, so a step that fails leaves no trace once that file is
removed; and the steps go through exactly when there is room for the temporary file and
the system refuses none of them.
-/
namespace CommentToggle

namespace FileTree

theorem temporary_ne_nil (target : Path) (token : Text) : temporary target token ≠ [] := by
  simp [temporary]

/-- A temporary file has a longer name than its target. -/
theorem temporary_ne (target : Path) (token : Text) : temporary target token ≠ target := by
  intro heq
  have hname : (temporary target token).getLast? =
      some (temporaryName (Path.name target) token) := by
    simp [temporary]
  rw [heq] at hname
  have hlen := congrArg List.length (Option.some.inj (hname.symm.trans hname))
  have hself : Path.name target = temporaryName (Path.name target) token := by
    conv_lhs => rw [Path.name, hname]
    rfl
  have hgrown := congrArg List.length hself
  simp [temporaryName] at hgrown
  omega

variable {t : FileTree} {refuses : Refusals} {target temp : Path} {bytes : Bytes}

/-- A temporary file is made only where nothing was. -/
theorem create_cases (t : FileTree) (refuses : Refusals) (temp : Path) :
    (∃ f, t.create refuses temp = (t, .error f)) ∨
      t.get? temp = none ∧ t.create refuses temp = (t.put temp (.file [] privateMode), .ok ()) := by
  unfold create
  split
  · exact Or.inl ⟨_, rfl⟩
  · split
    · exact Or.inl ⟨_, rfl⟩
    · exact Or.inl ⟨_, rfl⟩
    · split
      · exact Or.inl ⟨_, rfl⟩
      · rename_i hnone
        exact Or.inr ⟨by simpa using hnone, rfl⟩

/-- The tree while the file is being replaced. -/
def Staged (t : FileTree) (temp : Path) (u : FileTree) : Prop := ∃ n, u = t.put temp n

theorem fill_cases (t : FileTree) (refuses : Refusals) (temp : Path) (bytes : Bytes) (n : Node) :
    (∃ u f, (t.put temp n).fill refuses temp bytes = (u, .error f) ∧ t.Staged temp u) ∨
      (t.put temp n).fill refuses temp bytes = (t.put temp (.file bytes privateMode), .ok ()) := by
  unfold fill
  split
  · exact Or.inl ⟨_, _, rfl, _, put_put t temp _ _⟩
  · exact Or.inr (by rw [put_put])

/-- The mode that a file at the target has, else the private one. -/
def keptMode (t : FileTree) (target : Path) : Nat :=
  match t.get? target with
  | some (.file _ mode) => mode
  | _ => privateMode

theorem copyMode_cases (t : FileTree) (refuses : Refusals) (htemp : temp ≠ [])
    (hne : target ≠ temp) (bytes : Bytes) :
    (∃ u f, (t.put temp (.file bytes privateMode)).copyMode refuses target temp bytes =
        (u, .error f) ∧ t.Staged temp u) ∨
      (t.put temp (.file bytes privateMode)).copyMode refuses target temp bytes =
        (t.put temp (.file bytes (t.keptMode target)), .ok ()) := by
  unfold copyMode keptMode
  rw [get?_put htemp, if_neg hne]
  cases t.get? target with
  | none => exact Or.inr rfl
  | some node =>
    cases node with
    | file raw mode =>
      cases hrefuses : refuses (.copyMode target temp) with
      | some r => exact Or.inl ⟨_, _, rfl, _, rfl⟩
      | none => exact Or.inr (by simp only [put_put])
    | link other => exact Or.inr rfl
    | folder => exact Or.inr rfl

theorem swap_cases (t : FileTree) (refuses : Refusals) (target : Path) (htemp : temp ≠ [])
    (hfresh : t.get? temp = none) (n : Node) :
    (∃ u f, (t.put temp n).swap refuses target temp = (u, .error f) ∧ t.Staged temp u) ∨
      (t.put temp n).swap refuses target temp = (t.put target n, .ok ()) := by
  have htemp' : (t.put temp n).get? temp = some n := by rw [get?_put htemp, if_pos rfl]
  unfold swap
  simp only [htemp', erase_put_of_get? hfresh]
  split
  · exact Or.inl ⟨_, _, rfl, _, rfl⟩
  · split
    · exact Or.inl ⟨_, _, rfl, _, rfl⟩
    · exact Or.inr rfl

/-- The steps after the temporary file was made either stop with nothing but that file
changed, or replace the target. -/
theorem finish_cases (t : FileTree) (refuses : Refusals) (htemp : temp ≠ [])
    (hne : target ≠ temp) (hfresh : t.get? temp = none) (bytes : Bytes) (n : Node) :
    (∃ u f, (t.put temp n).finish refuses target temp bytes = (u, .error f) ∧ t.Staged temp u) ∨
      (t.put temp n).finish refuses target temp bytes =
        (t.put target (.file bytes (t.keptMode target)), .ok ()) := by
  unfold finish
  rcases fill_cases t refuses temp bytes n with ⟨u, f, hfill, hstaged⟩ | hfill
  · exact Or.inl ⟨u, f, by rw [hfill], hstaged⟩
  · rcases copyMode_cases t refuses htemp hne bytes with ⟨u, f, hmode, hstaged⟩ | hmode
    · exact Or.inl ⟨u, f, by simp only [hfill, hmode], hstaged⟩
    · rcases swap_cases t refuses target htemp hfresh (.file bytes (t.keptMode target)) with
        ⟨u, f, hswap, hstaged⟩ | hswap
      · exact Or.inl ⟨u, f, by simp only [hfill, hmode, hswap], hstaged⟩
      · exact Or.inr (by simp only [hfill, hmode, hswap])

/-- A file is replaced as a whole or not at all. -/
theorem replace_cases (t : FileTree) (refuses : Refusals) (token : Text) (target : Path)
    (bytes : Bytes) :
    (∃ f, t.replace refuses token target bytes = (t, .error f)) ∨
      t.replace refuses token target bytes =
        (t.put target (.file bytes (t.keptMode target)), .ok ()) := by
  have htemp := temporary_ne_nil target token
  have hne := (temporary_ne target token).symm
  unfold replace
  rcases create_cases t refuses (temporary target token) with ⟨f, hcreate⟩ | ⟨hfresh, hcreate⟩
  · exact Or.inl ⟨f, by simp only [hcreate]⟩
  · rcases finish_cases t refuses htemp hne hfresh bytes (.file [] privateMode) with
      ⟨u, f, hfinish, n, rfl⟩ | hfinish
    · exact Or.inl ⟨f, by simp only [hcreate, hfinish, erase_put_of_get? hfresh]⟩
    · exact Or.inr (by simp only [hcreate, hfinish])

/-- Nothing is at the path, and a file can be made there. -/
def Free (t : FileTree) (p : Path) : Prop :=
  t.get? p = none ∧ ∃ q, t.walk linkLimit [] p = .ok (.vacant q)

/-- There is room for the temporary file beside the target, and no step is refused. -/
structure Replaceable (t : FileTree) (refuses : Refusals) (token : Text) (target : Path)
    (bytes : Bytes) : Prop where
  free : t.Free (temporary target token)
  create : refuses (.create (temporary target token)) = none
  fill : refuses (.fill (temporary target token) bytes) = none
  copyMode : refuses (.copyMode target (temporary target token)) = none
  swap : refuses (.swap (temporary target token) target) = none

theorem create_eq_ok_iff (t : FileTree) (refuses : Refusals) (temp : Path) :
    (t.create refuses temp).2 = .ok () ↔ refuses (.create temp) = none ∧ t.Free temp := by
  unfold create Free
  cases refuses (.create temp) with
  | some r => simp
  | none =>
    cases t.walk linkLimit [] temp with
    | error cause => simp
    | ok place =>
      cases place with
      | node p n => simp
      | vacant q => cases t.get? temp <;> simp

section Target

variable {raw : Bytes} {mode : Nat}

theorem swap_eq_ok_iff (htarget : t.get? target = some (.file raw mode)) {n : Node}
    (htemp : t.get? temp = some n) :
    (t.swap refuses target temp).2 = .ok () ↔ refuses (.swap temp target) = none := by
  unfold swap
  rw [htarget, htemp]
  cases refuses (.swap temp target) <;> simp

theorem finish_eq_ok_iff (refuses : Refusals) (htemp : temp ≠ []) (hne : target ≠ temp)
    (htarget : t.get? target = some (.file raw mode)) (bytes : Bytes) (n : Node) :
    ((t.put temp n).finish refuses target temp bytes).2 = .ok () ↔
      refuses (.fill temp bytes) = none ∧ refuses (.copyMode target temp) = none ∧
        refuses (.swap temp target) = none := by
  -- The temporary file is not the target, so the target stays a file all along.
  have hkept (m : Node) : (t.put temp m).get? target = some (.file raw mode) := by
    rw [get?_put htemp, if_neg hne, htarget]
  have hmade (m : Node) : (t.put temp m).get? temp = some m := by rw [get?_put htemp, if_pos rfl]
  unfold finish
  cases hfill : refuses (.fill temp bytes) with
  | some r => simp [fill, hfill]
  | none =>
    have hfilled : (t.put temp n).fill refuses temp bytes =
        (t.put temp (.file bytes privateMode), .ok ()) := by simp [fill, hfill]
    cases hmode : refuses (.copyMode target temp) with
    | some r => simp [hfilled, copyMode, hkept, hmode]
    | none =>
      have hmoded : (t.put temp (.file bytes privateMode)).copyMode refuses target temp bytes =
          (t.put temp (.file bytes mode), .ok ()) := by simp [copyMode, hkept, hmode]
      simp only [hfilled, hmoded, true_and]
      exact swap_eq_ok_iff (hkept _) (hmade _)

/-- A file is replaced exactly when all steps are granted. -/
theorem replace_eq_ok_iff (refuses : Refusals) (token : Text)
    (htarget : t.get? target = some (.file raw mode)) (bytes : Bytes) :
    (t.replace refuses token target bytes).2 = .ok () ↔
      t.Replaceable refuses token target bytes := by
  have hcreates := create_eq_ok_iff t refuses (temporary target token)
  have hfinishes := finish_eq_ok_iff refuses (temporary_ne_nil target token)
    (temporary_ne target token).symm htarget bytes (.file [] privateMode)
  unfold replace
  rcases create_cases t refuses (temporary target token) with ⟨f, hcreate⟩ | ⟨-, hcreate⟩
  · rw [hcreate] at hcreates
    have hnot : ¬ t.Replaceable refuses token target bytes := fun h => by
      simpa using hcreates.mpr ⟨h.create, h.free⟩
    simp [hcreate, hnot]
  · rw [hcreate] at hcreates
    obtain ⟨hgranted, hfree⟩ := hcreates.mp rfl
    have hsteps : t.Replaceable refuses token target bytes ↔
        refuses (.fill (temporary target token) bytes) = none ∧
          refuses (.copyMode target (temporary target token)) = none ∧
            refuses (.swap (temporary target token) target) = none :=
      ⟨fun h => ⟨h.fill, h.copyMode, h.swap⟩, fun h => ⟨hfree, hgranted, h.1, h.2.1, h.2.2⟩⟩
    simp only [hcreate]
    rw [hsteps, ← hfinishes]
    split <;> simp_all

end Target

end FileTree

end CommentToggle
