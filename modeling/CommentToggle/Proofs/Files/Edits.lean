import CommentToggle.Proofs.Files.Toggling

/-!
The same work in two trees. What becomes of a file, and what is said about it, depends on
the files, folders and links that there are and on the content of that file alone. At most
this one file is edited, and paths that lead elsewhere find what they found before.
-/
namespace CommentToggle

namespace FileTree

namespace Alike

variable {t u : FileTree} {refuses : Refusals} {target temp : Path} {bytes : Bytes}

theorem put (h : Alike t u) {p : Path} (hp : p ≠ []) {n m : Node} (hshape : m.shape = n.shape) :
    Alike (t.put p n) (u.put p m) := by
  refine ⟨h.here, fun q => ?_⟩
  rw [get?_put hp, get?_put hp]
  split
  · exact congrArg some hshape
  · exact h.shape q

theorem create (h : Alike t u) (refuses : Refusals) (temp : Path) :
    (u.create refuses temp).2 = (t.create refuses temp).2 := by
  unfold FileTree.create
  cases refuses (.create temp) with
  | some r => rfl
  | none =>
    simp only [h.walk]
    cases t.walk linkLimit [] temp with
    | error cause => rfl
    | ok place =>
      cases place with
      | node p n => cases n <;> rfl
      | vacant p =>
        cases hget : t.get? temp with
        | none =>
          simp only [Except.map, Place.within, h.get?_none hget]
          rfl
        | some n =>
          have hsome : (u.get? temp).isSome = true := by
            cases hget' : u.get? temp with
            | none => simp [h.symm.get?_none hget'] at hget
            | some m => rfl
          simp only [Except.map, Place.within, hsome]
          rfl

theorem copyMode (h : Alike t u) (refuses : Refusals) (target : Path) (htemp : temp ≠ [])
    (bytes : Bytes) :
    (u.copyMode refuses target temp bytes).2 = (t.copyMode refuses target temp bytes).2 ∧
      Alike (t.copyMode refuses target temp bytes).1 (u.copyMode refuses target temp bytes).1 := by
  unfold FileTree.copyMode
  cases hget : t.get? target with
  | none =>
    rw [h.get?_none hget]
    exact ⟨rfl, h⟩
  | some n =>
    cases n with
    | file raw mode =>
      obtain ⟨raw', mode', hget'⟩ := h.get?_file hget
      rw [hget']
      cases refuses (.copyMode target temp) with
      | some r => exact ⟨rfl, h⟩
      | none => exact ⟨rfl, h.put htemp rfl⟩
    | link other =>
      rw [h.get?_link hget]
      exact ⟨rfl, h⟩
    | folder =>
      rw [h.get?_folder hget]
      exact ⟨rfl, h⟩

theorem swap (h : Alike t u) (refuses : Refusals) (target temp : Path) :
    (u.swap refuses target temp).2 = (t.swap refuses target temp).2 := by
  have htarget : u.get? target = some .folder ↔ t.get? target = some .folder :=
    ⟨h.symm.get?_folder, h.get?_folder⟩
  have htemp : u.get? temp = none ↔ t.get? temp = none := ⟨h.symm.get?_none, h.get?_none⟩
  unfold FileTree.swap
  cases refuses (.swap temp target) with
  | some r => rfl
  | none =>
    simp only
    by_cases hfolder : t.get? target = some .folder
    · rw [if_pos hfolder, if_pos (htarget.mpr hfolder)]
    · rw [if_neg hfolder, if_neg (htarget.not.mpr hfolder)]
      cases hget : t.get? temp with
      | none => rw [htemp.mpr hget]
      | some n =>
        obtain ⟨m, hm⟩ := Option.ne_none_iff_exists'.mp (htemp.not.mpr (by simp [hget]))
        rw [hm]

theorem finish (h : Alike t u) (refuses : Refusals) (target : Path) (htemp : temp ≠ [])
    (bytes : Bytes) :
    (u.finish refuses target temp bytes).2 = (t.finish refuses target temp bytes).2 := by
  unfold FileTree.finish fill
  cases refuses (.fill temp bytes) with
  | some r => rfl
  | none =>
    simp only
    obtain ⟨hresult, hmoded⟩ := (h.put htemp (n := .file bytes privateMode) rfl).copyMode refuses
      target htemp bytes
    generalize (t.put temp (.file bytes privateMode)).copyMode refuses target temp bytes = moded
      at hresult hmoded
    generalize (u.put temp (.file bytes privateMode)).copyMode refuses target temp bytes = moded'
      at hresult hmoded
    obtain ⟨moded, result⟩ := moded
    obtain ⟨moded', result'⟩ := moded'
    simp only at hresult hmoded
    subst hresult
    cases result' with
    | error f => rfl
    | ok _ => exact hmoded.swap refuses target temp

theorem replace (h : Alike t u) (refuses : Refusals) (token : Text) (target : Path)
    (bytes : Bytes) :
    (u.replace refuses token target bytes).2 = (t.replace refuses token target bytes).2 := by
  have htemp := temporary_ne_nil target token
  have hcreate := h.create refuses (temporary target token)
  unfold FileTree.replace
  rcases create_cases t refuses (temporary target token) with ⟨f, hmade⟩ | ⟨-, hmade⟩ <;>
    rcases create_cases u refuses (temporary target token) with ⟨f', hmade'⟩ | ⟨-, hmade'⟩
  · rw [hmade, hmade'] at hcreate
    simp only [hmade, hmade']
    exact hcreate
  · rw [hmade, hmade'] at hcreate
    cases hcreate
  · rw [hmade, hmade'] at hcreate
    cases hcreate
  · simp only [hmade, hmade']
    have hfinish := (h.put htemp (n := .file [] privateMode) rfl).finish refuses target htemp bytes
    generalize (t.put (temporary target token) (.file [] privateMode)).finish refuses target
      (temporary target token) bytes = done at hfinish
    generalize (u.put (temporary target token) (.file [] privateMode)).finish refuses target
      (temporary target token) bytes = done' at hfinish
    obtain ⟨done, result⟩ := done
    obtain ⟨done', result'⟩ := done'
    simp only at hfinish
    subst hfinish
    cases result' <;> rfl

end Alike

/-- The tree with at most one node put in place. -/
def edit (t : FileTree) : Option (Path × Node) → FileTree
  | none => t
  | some (p, n) => t.put p n

/-- At most the file that the path leads to gets new bytes. -/
def Edits (t : FileTree) (path : Text) (e : Option (Path × Node)) : Prop :=
  ∀ p n, e = some (p, n) → ∃ raw mode bytes,
    t.find path = .ok (p, .file raw mode) ∧ n = .file bytes mode

theorem Edits.none (t : FileTree) (path : Text) : t.Edits path none := by
  intro p n h
  cases h

theorem Edits.some {t : FileTree} {path : Text} {p : Path} {raw : Bytes} {mode : Nat}
    (h : t.find path = .ok (p, .file raw mode)) (bytes : Bytes) :
    t.Edits path (some (p, .file bytes mode)) := by
  intro q n hsome
  cases hsome
  exact ⟨raw, mode, bytes, h, rfl⟩

theorem Edits.alike {t : FileTree} {path : Text} {e : Option (Path × Node)}
    (h : t.Edits path e) : Alike t (t.edit e) := by
  cases e with
  | none => exact .refl t
  | some edit =>
    obtain ⟨p, n⟩ := edit
    obtain ⟨raw, mode, bytes, hfind, rfl⟩ := h p n rfl
    exact alike_put (get?_of_find hfind) bytes mode

theorem Edits.of_find {t u : FileTree} {path : Text} {e : Option (Path × Node)}
    (h : t.Edits path e) (hfind : u.find path = t.find path) : u.Edits path e := by
  intro p n hsome
  rw [hfind]
  exact h p n hsome

/-- The two paths do not lead to the same place. -/
def Distinct (t : FileTree) (x y : Text) : Prop :=
  ∀ p n m, t.find x = .ok (p, n) → t.find y ≠ .ok (p, m)

theorem distinct_iff {t : FileTree} {x y : Text} : t.Distinct x y ↔
    ∀ p ∈ (t.find x).toOption, ∀ q ∈ (t.find y).toOption, p.1 ≠ q.1 := by
  unfold Distinct
  cases t.find x with
  | error cause => simp [Except.toOption]
  | ok found =>
    cases t.find y with
    | error cause => simp [Except.toOption]
    | ok other =>
      constructor
      · rintro h f hf g hg heq
        cases hf
        cases hg
        exact h found.1 found.2 other.2 rfl (heq ▸ rfl)
      · rintro h p n m hx hy
        cases hx
        cases hy
        exact h (p, n) rfl (p, m) rfl rfl

instance (t : FileTree) (x y : Text) : Decidable (t.Distinct x y) :=
  decidable_of_iff _ distinct_iff.symm

theorem Distinct.symm {t : FileTree} {x y : Text} (h : t.Distinct x y) : t.Distinct y x :=
  fun p n m hy hx => h p m n hx hy

theorem Alike.find_place {t u : FileTree} (h : Alike t u) {path : Text} {p : Path} {n : Node}
    (hfind : t.find path = .ok (p, n)) : ∃ m, u.find path = .ok (p, m) := by
  have hlocate := h.locate path
  rw [find_eq_ok_iff.mp hfind] at hlocate
  cases n with
  | file raw mode => exact ⟨_, find_eq_ok_iff.mpr hlocate⟩
  | link target => exact ⟨_, find_eq_ok_iff.mpr hlocate⟩
  | folder => exact ⟨_, find_eq_ok_iff.mpr hlocate⟩

theorem Distinct.of_alike {t u : FileTree} {x y : Text} (h : t.Distinct x y) (halike : Alike t u) :
    u.Distinct x y := by
  intro p n m hx hy
  obtain ⟨n', hx'⟩ := halike.symm.find_place hx
  obtain ⟨m', hy'⟩ := halike.symm.find_place hy
  exact h p n' m' hx' hy'

theorem find_of_alike {t u : FileTree} (h : Alike t u) {path : Text}
    (hget : ∀ p n, t.find path = .ok (p, n) → u.get? p = t.get? p) :
    u.find path = t.find path := by
  have hlocate := h.locate path
  unfold find
  rw [hlocate]
  cases hplace : t.locate path with
  | error cause => rfl
  | ok place =>
    cases place with
    | vacant p => rfl
    | node p n =>
      cases n with
      | link target => rfl
      | folder => rfl
      | file raw mode =>
        have hfind := find_eq_ok_iff.mpr hplace
        have hsame := (hget p _ hfind).trans (get?_of_find hfind)
        simp [Except.map, Place.within, hsame]

/-- What a path finds is not touched by an edit elsewhere. -/
theorem Edits.find {t : FileTree} {x y : Text} {e : Option (Path × Node)} (h : t.Edits x e)
    (hdistinct : t.Distinct x y) : (t.edit e).find y = t.find y := by
  refine find_of_alike h.alike fun q m hy => ?_
  cases e with
  | none => rfl
  | some edit =>
    obtain ⟨p, n⟩ := edit
    obtain ⟨raw, mode, bytes, hx, -⟩ := h p n rfl
    have hne : q ≠ p := by
      rintro rfl
      exact hdistinct q _ m hx hy
    exact (get?_put (ne_nil_of_file (get?_of_find hx)) n q).trans (if_neg hne)

/-- The edited file is found alike in both trees. -/
theorem find_edit_congr {t u : FileTree} {path : Text} {e : Option (Path × Node)}
    (he : t.Edits path e) (hfind : u.find path = t.find path) :
    (u.edit e).find path = (t.edit e).find path := by
  cases e with
  | none => exact hfind
  | some edit =>
    obtain ⟨p, n⟩ := edit
    obtain ⟨raw, mode, bytes, hx, rfl⟩ := he p n rfl
    exact (find_put (hfind.trans hx) bytes mode).trans (find_put hx bytes mode).symm

section Toggle

variable [Charsets] {t u : FileTree}

/-- Writing to the same file does the same in both trees. -/
theorem Alike.writeText (h : Alike t u) (hhere : t.here.Plain) (host : Host)
    {path : Text} {p : Path} {raw : Bytes} {mode : Nat}
    (hfind : t.find path = .ok (p, .file raw mode)) (hsame : u.find path = t.find path)
    (encoding content : Text) : ∃ e run, t.Edits path e ∧
      t.writeText host path encoding content = (t.edit e, run) ∧
      u.writeText host path encoding content = (u.edit e, run) := by
  have hhere' : u.here.Plain := h.here ▸ hhere
  have hfind' := hsame.trans hfind
  unfold FileTree.writeText
  split
  · exact ⟨none, _, .none t path, rfl, rfl⟩
  · cases Codec.encodeBy encoding content with
    | error fault => exact ⟨none, _, .none t path, rfl, rfl⟩
    | ok bytes =>
      simp only [realPath_of_find hhere hfind, realPath_of_find hhere' hfind']
      have hresult := h.replace host.refuses host.token p bytes
      have hmode : t.keptMode p = mode := by rw [keptMode, get?_of_find hfind]
      have hmode' : u.keptMode p = mode := by rw [keptMode, get?_of_find hfind']
      rcases replace_cases t host.refuses host.token p bytes with ⟨f, hdone⟩ | hdone <;>
        rcases replace_cases u host.refuses host.token p bytes with ⟨f', hdone'⟩ | hdone' <;>
        rw [hdone, hdone'] at hresult
      · cases hresult
        rw [hdone, hdone']
        exact ⟨none, _, .none t path, rfl, rfl⟩
      · cases hresult
      · cases hresult
      · rw [hdone, hdone', hmode, hmode']
        exact ⟨some (p, .file bytes mode), _, .some hfind bytes, rfl, rfl⟩

/-- Toggling the same file does the same in both trees. -/
theorem Alike.toggle [Packages] (h : Alike t u) (hhere : t.here.Plain) (host : Host)
    {path : Text} (hsame : u.find path = t.find path) (s : Style) (r : Request) (write : Bool) :
    ∃ e run, t.Edits path e ∧ t.toggle host path s r write = (t.edit e, run) ∧
      u.toggle host path s r write = (u.edit e, run) := by
  have hread : u.readToggled host path s r = t.readToggled host path s r := by
    unfold readToggled FileTree.read readFile
    rw [hsame]
  unfold FileTree.toggle
  rw [hread]
  cases houtcome : (t.readToggled host path s r).outcome with
  | error e =>
    simp only [houtcome]
    exact ⟨none, _, .none t path, rfl, rfl⟩
  | ok f =>
    simp only [houtcome]
    split
    · exact ⟨none, _, .none t path, rfl, rfl⟩
    · split
      · exact ⟨none, _, .none t path, rfl, rfl⟩
      · obtain ⟨raw, hraw, -⟩ := readToggled_eq_ok_iff.mp houtcome
        obtain ⟨p, mode, hfind⟩ := find_of_read hraw
        obtain ⟨e, run, hedits, hdone, hdone'⟩ :=
          h.writeText hhere host hfind hsame f.encoding f.done.text
        rw [hdone, hdone']
        exact ⟨e, _, hedits, rfl, rfl⟩

end Toggle

end FileTree

end CommentToggle
