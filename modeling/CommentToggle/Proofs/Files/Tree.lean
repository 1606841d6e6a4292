import CommentToggle.Files.Replace
import Mathlib.Data.List.Basic

/-!
Single entries of a tree. An entry that is put in place is found there and changes nothing
else, and an entry that is new leaves no trace once it is erased. Trees that differ only in
what their files hold are alike.
-/
namespace CommentToggle

namespace FileTree

theorem lookup_putEntry (p q : Path) (n : Node) (es : List (Path × Node)) :
    (putEntry p n es).lookup q = if q = p then some n else es.lookup q := by
  induction es with
  | nil => by_cases h : q = p <;> simp [putEntry, h]
  | cons e es ih =>
    obtain ⟨r, m⟩ := e
    unfold putEntry
    by_cases hr : r = p
    · subst hr
      by_cases h : q = r
      · simp [h]
      · have hne : (q == r) = false := beq_eq_false_iff_ne.mpr h
        simp [h, List.lookup_cons, hne]
    · rw [if_neg hr, List.lookup_cons, List.lookup_cons, ih]
      by_cases h : q = r
      · subst h
        simp [hr]
      · have hne : (q == r) = false := beq_eq_false_iff_ne.mpr h
        simp [hne]

theorem get?_put {t : FileTree} {p : Path} (hp : p ≠ []) (n : Node) (q : Path) :
    (t.put p n).get? q = if q = p then some n else t.get? q := by
  unfold get? put
  cases q with
  | nil => simp [Ne.symm hp]
  | cons part q => exact lookup_putEntry p (part :: q) n t.entries

@[simp] theorem here_put (t : FileTree) (p : Path) (n : Node) : (t.put p n).here = t.here := rfl

theorem putEntry_putEntry (p : Path) (m n : Node) (es : List (Path × Node)) :
    putEntry p n (putEntry p m es) = putEntry p n es := by
  induction es with
  | nil => simp [putEntry]
  | cons e es ih =>
    obtain ⟨q, k⟩ := e
    by_cases h : q = p <;> simp [putEntry, h, ih]

@[simp] theorem put_put (t : FileTree) (p : Path) (m n : Node) :
    (t.put p m).put p n = t.put p n := by
  simp [put, putEntry_putEntry]

/-- The root is no file. -/
theorem ne_nil_of_file {t : FileTree} {p : Path} {raw : Bytes} {mode : Nat}
    (h : t.get? p = some (.file raw mode)) : p ≠ [] := by
  rintro rfl
  simp [get?] at h

theorem mem_of_lookup {p : Path} {n : Node} {es : List (Path × Node)}
    (h : es.lookup p = some n) : (p, n) ∈ es := by
  obtain ⟨before, after, rfl, -⟩ := List.lookup_eq_some_iff.mp h
  simp

theorem mem_of_get? {t : FileTree} {p : Path} {n : Node} (h : t.get? p = some n)
    (hp : p ≠ []) : (p, n) ∈ t.entries := by
  rw [get?, if_neg (by simpa using hp)] at h
  exact mem_of_lookup h

theorem fresh_of_get? {t : FileTree} {p : Path} (h : t.get? p = none) :
    ∀ e ∈ t.entries, e.1 ≠ p := by
  intro e he heq
  unfold get? at h
  split at h
  · cases h
  · have hne := List.lookup_eq_none_iff.mp h e he
    rw [heq] at hne
    simp at hne

/-- An entry that was new leaves no trace. -/
theorem erase_put_of_get? {t : FileTree} {p : Path} (h : t.get? p = none) (n : Node) :
    (t.put p n).erase p = t := erase_put n (fresh_of_get? h)

end FileTree

/-- The node without what a file holds. -/
def Node.shape : Node → Node
  | .file .. => .file [] 0
  | other => other

namespace FileTree

/-- The same files, folders and links, whatever the files hold. -/
structure Alike (t u : FileTree) : Prop where
  here : u.here = t.here
  shape : ∀ p, (u.get? p).map Node.shape = (t.get? p).map Node.shape

namespace Alike

variable {t u v : FileTree}

theorem refl (t : FileTree) : Alike t t := ⟨rfl, fun _ => rfl⟩

theorem trans (h : Alike t u) (h' : Alike u v) : Alike t v :=
  ⟨h'.here.trans h.here, fun p => (h'.shape p).trans (h.shape p)⟩

theorem symm (h : Alike t u) : Alike u t := ⟨h.here.symm, fun p => (h.shape p).symm⟩

theorem get?_none (h : Alike t u) {p : Path} (hnone : t.get? p = none) : u.get? p = none := by
  have hshape := h.shape p
  rw [hnone] at hshape
  exact Option.map_eq_none_iff.mp hshape

theorem get?_folder (h : Alike t u) {p : Path} (hfolder : t.get? p = some .folder) :
    u.get? p = some .folder := by
  have hshape := h.shape p
  rw [hfolder] at hshape
  obtain ⟨n, hn, hsame⟩ := Option.map_eq_some_iff.mp hshape
  cases n with
  | file raw mode => cases hsame
  | link target => cases hsame
  | folder => exact hn

theorem get?_link (h : Alike t u) {p : Path} {target : Text}
    (hlink : t.get? p = some (.link target)) : u.get? p = some (.link target) := by
  have hshape := h.shape p
  rw [hlink] at hshape
  obtain ⟨n, hn, hsame⟩ := Option.map_eq_some_iff.mp hshape
  cases n with
  | file raw mode => cases hsame
  | link other => cases hsame; exact hn
  | folder => cases hsame

theorem get?_file (h : Alike t u) {p : Path} {raw : Bytes} {mode : Nat}
    (hfile : t.get? p = some (.file raw mode)) : ∃ raw' mode', u.get? p = some (.file raw' mode') := by
  have hshape := h.shape p
  rw [hfile] at hshape
  obtain ⟨n, hn, hsame⟩ := Option.map_eq_some_iff.mp hshape
  cases n with
  | file raw' mode' => exact ⟨raw', mode', hn⟩
  | link target => cases hsame
  | folder => cases hsame

end Alike

theorem alike_put {t : FileTree} {p : Path} {raw : Bytes} {mode : Nat}
    (h : t.get? p = some (.file raw mode)) (raw' : Bytes) (mode' : Nat) :
    Alike t (t.put p (.file raw' mode')) := by
  refine ⟨rfl, fun q => ?_⟩
  rw [get?_put (ne_nil_of_file h)]
  split
  · rename_i heq
    rw [heq, h]
    rfl
  · rfl

end FileTree

end CommentToggle
