import CommentToggle.FileToggle
import CommentToggle.Packages.Plain
import CommentToggle.Proofs.Files.Replacing
import CommentToggle.Proofs.Files.Walking
import CommentToggle.Proofs.Outcome
import CommentToggle.Proofs.Style.Regular

/-!
Toggling a file is all or nothing. When it fails, whatever step that is, the tree is as it
was; when it succeeds and is to write, the file that the path leads to has the new bytes
under its old mode, and everything else is as it was. It succeeds exactly when the bytes can
be read and toggled and, where they are to be written, encoded and put in place.
-/
namespace CommentToggle

namespace FileTree

variable {t : FileTree} {path : Text} {p : Path} {raw : Bytes} {mode : Nat}

theorem find_of_read {refuses : Refusals} (hread : t.read refuses path = .ok raw) :
    ∃ p mode, t.find path = .ok (p, .file raw mode) := by
  unfold read readFile at hread
  split at hread
  · cases hread
  · split at hread
    · rename_i hfind
      cases hread
      exact ⟨_, _, hfind⟩
    · cases hread
    · cases hread

theorem find_put (h : t.find path = .ok (p, .file raw mode)) (raw' : Bytes) (mode' : Nat) :
    (t.put p (.file raw' mode')).find path = .ok (p, .file raw' mode') := by
  have hget := get?_of_find h
  have hp := ne_nil_of_file hget
  rw [find_eq_ok_iff] at h ⊢
  rw [(alike_put hget raw' mode').locate, h]
  simp [Except.map, Place.within, get?_put hp]

theorem read_put {refuses : Refusals} {raw' : Bytes} (hread : t.read refuses path = .ok raw)
    (hfind : t.find path = .ok (p, .file raw' mode)) (bytes : Bytes) :
    (t.put p (.file bytes mode)).read refuses path = .ok bytes := by
  unfold read readFile at *
  cases hrefuses : refuses (.read path) with
  | some refusal => simp [hrefuses] at hread
  | none => simp only [find_put hfind bytes mode]

/-- Only the file that the path leads to differs: it has the given bytes and keeps its
mode, and the path still leads there. -/
structure Rewrites (t after : FileTree) (path : Text) (p : Path) (mode : Nat) (bytes : Bytes) :
    Prop where
  here : after.here = t.here
  file : after.get? p = some (.file bytes mode)
  others : ∀ q, q ≠ p → after.get? q = t.get? q
  find : after.find path = .ok (p, .file bytes mode)

theorem rewrites_put (h : t.find path = .ok (p, .file raw mode)) (bytes : Bytes) :
    t.Rewrites (t.put p (.file bytes mode)) path p mode bytes := by
  have hget := get?_of_find h
  have hp := ne_nil_of_file hget
  refine ⟨rfl, by rw [get?_put hp, if_pos rfl], fun q hq => by rw [get?_put hp, if_neg hq], ?_⟩
  exact find_put h bytes mode

section Toggle

variable [Charsets]

/-- Text is written as a whole or not at all. -/
theorem writeText_cases (hhere : t.here.Plain) (h : Host)
    (hfind : t.find path = .ok (p, .file raw mode)) (encoding content : Text) :
    (∃ run, t.writeText h path encoding content = (t, run) ∧ ∃ e, run.outcome = .error e) ∨
      ∃ run bytes, Codec.encodeBy encoding content = .ok bytes ∧
        t.writeText h path encoding content = (t.put p (.file bytes mode), run) ∧
          run.outcome = .ok () := by
  unfold writeText
  split
  · exact Or.inl ⟨_, rfl, _, rfl⟩
  · cases hencode : Codec.encodeBy encoding content with
    | error fault => exact Or.inl ⟨_, rfl, _, rfl⟩
    | ok bytes =>
      have hmode : t.keptMode p = mode := by rw [keptMode, get?_of_find hfind]
      simp only [realPath_of_find hhere hfind]
      rcases replace_cases t h.refuses h.token p bytes with ⟨fault, hreplace⟩ | hreplace
      · exact Or.inl ⟨_, by rw [hreplace], _, rfl⟩
      · exact Or.inr ⟨_, bytes, rfl, by rw [hreplace, hmode], rfl⟩

/-- The text can be encoded, and the file that the path leads to replaced by it. -/
def Writable (t : FileTree) (h : Host) (path encoding content : Text) : Prop :=
  ∃ bytes, Codec.encodeBy encoding content = .ok bytes ∧
    t.Replaceable h.refuses h.token (t.realPath path) bytes

theorem writeText_eq_ok_iff (hhere : t.here.Plain) (h : Host)
    (hfind : t.find path = .ok (p, .file raw mode)) (encoding content : Text) :
    (t.writeText h path encoding content).2.outcome = .ok () ↔
      t.Writable h path encoding content := by
  obtain ⟨hnull, -⟩ := locate_eq_ok_iff.mp (find_eq_ok_iff.mp hfind)
  have hreal := realPath_of_find hhere hfind
  unfold writeText Writable
  rw [hnull, hreal]
  simp only [Bool.false_eq_true, if_false]
  cases hencode : Codec.encodeBy encoding content with
  | error fault => simp [Logged.fail]
  | ok bytes =>
    have hgranted := replace_eq_ok_iff h.refuses h.token (get?_of_find hfind) bytes
    simp only [Except.ok.injEq, exists_eq_left', ← hgranted]
    cases t.replace h.refuses h.token p bytes with
    | mk after done => cases done <;> simp [Logged.fail, Logged.note]

variable [Packages] {h : Host} {s : Style} {r : Request}

/-- What a file is toggled to is computed from the bytes that were read. -/
theorem readToggled_eq_ok_iff {f : ToggledFile} : (t.readToggled h path s r).outcome = .ok f ↔
      ∃ raw, t.read h.refuses path = .ok raw ∧
        (FileToggle.ofBytes h path raw s r).outcome = .ok f := by
  unfold readToggled
  rw [Logged.outcome_bind]
  cases hread : t.read h.refuses path with
  | error fault => simp [Logged.ofExcept, Except.mapError, Except.bind]
  | ok raw => simp [Logged.ofExcept, Except.mapError, Except.bind]

theorem outcome_toggle (t : FileTree) (h : Host) (path : Text) (s : Style) (r : Request)
    (write : Bool) : (t.toggle h path s r write).2.outcome =
      (t.readToggled h path s r).outcome.bind fun f =>
        if write && f.changed then
          (t.writeText h path f.encoding f.done.text).2.outcome.bind fun _ => .ok f
        else .ok f := by
  unfold toggle
  cases hread : (t.readToggled h path s r).outcome with
  | error e => simp [hread, Except.bind]
  | ok f =>
    simp only [hread]
    cases write with
    | false => simp [hread, Except.bind]
    | true =>
      cases hchanged : f.changed with
      | false => simp [hread, hchanged, Except.bind, Logged.note]
      | true =>
        simp only [Bool.not_true, Bool.false_eq_true, if_false, Logged.outcome_bind, hread,
          Except.bind, hchanged, Bool.and_true, if_true]
        cases (t.writeText h path f.encoding f.done.text).2.outcome <;> rfl

theorem outcome_toggle_eq_ok_iff (hhere : t.here.Plain) (h : Host) (path : Text) (s : Style)
    (r : Request) (write : Bool) (f : ToggledFile) :
    (t.toggle h path s r write).2.outcome = .ok f ↔ ∃ raw, t.read h.refuses path = .ok raw ∧
      (FileToggle.ofBytes h path raw s r).outcome = .ok f ∧
      (write = true → f.changed = true → t.Writable h path f.encoding f.done.text) := by
  rw [outcome_toggle]
  constructor
  · intro hok
    obtain ⟨g, hread, hdone⟩ := Outcome.bind_eq_ok_iff.mp hok
    obtain ⟨raw, hraw, hof⟩ := readToggled_eq_ok_iff.mp hread
    obtain ⟨p, mode, hfind⟩ := find_of_read hraw
    split at hdone
    · obtain ⟨u, hwritten, hkept⟩ := Outcome.bind_eq_ok_iff.mp hdone
      obtain rfl := Except.ok.inj hkept
      exact ⟨raw, hraw, hof, fun _ _ => (writeText_eq_ok_iff hhere h hfind _ _).mp hwritten⟩
    · rename_i hkept
      obtain rfl := Except.ok.inj hdone
      exact ⟨raw, hraw, hof, fun hwrite hchanged => absurd (by simp [hwrite, hchanged]) hkept⟩
  · rintro ⟨raw, hraw, hof, hwritable⟩
    obtain ⟨p, mode, hfind⟩ := find_of_read hraw
    refine Outcome.bind_eq_ok_iff.mpr ⟨f, readToggled_eq_ok_iff.mpr ⟨raw, hraw, hof⟩, ?_⟩
    split
    · rename_i hwrites
      obtain ⟨hwrite, hchanged⟩ := Bool.and_eq_true_iff.mp hwrites
      rw [(writeText_eq_ok_iff hhere h hfind _ _).mpr (hwritable hwrite hchanged)]
      rfl
    · rfl

/-- A file is toggled and rewritten, or the tree stays. -/
theorem toggle_cases (hhere : t.here.Plain) (h : Host) (path : Text) (s : Style) (r : Request)
    (write : Bool) :
    (∃ run e, t.toggle h path s r write = (t, run) ∧ run.outcome = .error e) ∨
    (∃ run f, t.toggle h path s r write = (t, run) ∧ run.outcome = .ok f ∧
      (write = false ∨ f.changed = false)) ∨
    ∃ run f p raw mode bytes, write = true ∧ f.changed = true ∧
      t.find path = .ok (p, .file raw mode) ∧
      (FileToggle.ofBytes h path raw s r).outcome = .ok f ∧
      Codec.encodeBy f.encoding f.done.text = .ok bytes ∧
      t.toggle h path s r write = (t.put p (.file bytes mode), run) ∧ run.outcome = .ok f := by
  unfold toggle
  cases hread : (t.readToggled h path s r).outcome with
  | error e =>
    simp only [hread]
    exact Or.inl ⟨_, e, rfl, hread⟩
  | ok f =>
    obtain ⟨raw, hraw, hof⟩ := readToggled_eq_ok_iff.mp hread
    obtain ⟨p, mode, hfind⟩ := find_of_read hraw
    simp only [hread]
    cases write with
    | false => exact Or.inr (Or.inl ⟨_, f, rfl, hread, Or.inl rfl⟩)
    | true =>
      cases hchanged : f.changed with
      | false =>
        simp only [Bool.not_true, Bool.not_false, Bool.false_eq_true, if_false, if_true]
        refine Or.inr (Or.inl ⟨_, f, rfl, ?_, Or.inr hchanged⟩)
        simp [hread, Except.bind, Logged.note]
      | true =>
        simp only [Bool.not_true, Bool.false_eq_true, if_false]
        rcases writeText_cases hhere h hfind f.encoding f.done.text with
          ⟨written, hwrite, e, he⟩ | ⟨written, bytes, hencode, hwrite, hok⟩
        · rw [hwrite]
          refine Or.inl ⟨_, e, rfl, ?_⟩
          simp [hread, he, Except.bind]
        · rw [hwrite]
          refine Or.inr (Or.inr ⟨_, f, p, raw, mode, bytes, trivial, hchanged, hfind, hof, hencode,
            rfl, ?_⟩)
          simp [hread, hok, Except.bind, Logged.note]

/-- Toggling a file leaves the tree as it was when it fails, whatever step that is, when it
is not to write, and when nothing changes; otherwise it rewrites the one file. It succeeds
exactly when the file can be read and toggled and, where that is needed, written. -/
theorem toggle_all_or_nothing (hhere : t.here.Plain) (h : Host) (path : Text) (s : Style)
    (r : Request) (write : Bool) :
    ∃ after run, t.toggle h path s r write = (after, run) ∧
      (∀ e, run.outcome = .error e → after = t) ∧
      (∀ f, run.outcome = .ok f ↔ ∃ raw, t.read h.refuses path = .ok raw ∧
        (FileToggle.ofBytes h path raw s r).outcome = .ok f ∧
        (write = true → f.changed = true → t.Writable h path f.encoding f.done.text)) ∧
      ∀ f, run.outcome = .ok f →
        (write = false ∨ f.changed = false → after = t) ∧
        (write = true → f.changed = true → ∃ p raw mode bytes,
          t.find path = .ok (p, .file raw mode) ∧
          (FileToggle.ofBytes h path raw s r).outcome = .ok f ∧
          Codec.encodeBy f.encoding f.done.text = .ok bytes ∧
          t.Rewrites after path p mode bytes) := by
  have hends := outcome_toggle_eq_ok_iff hhere h path s r write
  rcases toggle_cases hhere h path s r write with ⟨run, e, hrun, he⟩ | ⟨run, g, hrun, hg, hnot⟩ |
    ⟨run, g, p, raw, mode, bytes, hwrite, hchanged, hfind, hof, hencode, hrun, hg⟩
  all_goals rw [hrun] at hends
  · refine ⟨t, run, hrun, fun _ _ => rfl, hends, fun f hf => ?_⟩
    rw [he] at hf
    cases hf
  · refine ⟨t, run, hrun, fun _ _ => rfl, hends,
      fun f hf => ⟨fun _ => rfl, fun hwrite hchanged => ?_⟩⟩
    obtain rfl : g = f := Except.ok.inj (hg.symm.trans hf)
    simp [hwrite, hchanged] at hnot
  · refine ⟨_, run, hrun, fun e he => ?_, hends, fun f hf => ?_⟩
    · rw [hg] at he
      cases he
    · obtain rfl : g = f := Except.ok.inj (hg.symm.trans hf)
      refine ⟨fun hnot => ?_, fun _ _ => ⟨p, raw, mode, bytes, hfind, hof, hencode,
        rewrites_put hfind bytes⟩⟩
      simp [hwrite, hchanged] at hnot

end Toggle

section Plain

attribute [local instance] Charsets.none Packages.plain

/-- A file that everyone may run, and a link to it. -/
def linkedPair (content : Text) : FileTree :=
  ⟨[['w']], [([['w']], .folder), ([['w'], ['a']], .file (Utf8.encode content) 0o755),
    ([['w'], ['l']], .link ['a'])]⟩

/-- A machine that knows no encodings and no lexers. -/
def plainHost (refuses : Refusals) : Host :=
  ⟨fun _ => ⟨none, none⟩, fun _ => none, refuses, ['n']⟩

/-- Refuses to take the place of a file, and to fill one beyond some bytes. -/
def refusesSwap : Refusals
  | .swap .. => some ⟨.notDirectory, 0⟩
  | _ => none

def refusesFill (written : Nat) : Refusals
  | .fill .. => some ⟨.nameTooLong, written⟩
  | _ => none

/-- Through a link the file behind it is rewritten under its mode; when the last step is
refused, or filling the temporary file half-way, nothing is. -/
theorem toggle_all_or_nothing_linked :
    (∃ after run f, (linkedPair "# smc:flag a\nx\n# smc:end\n".toList).toggle
        (plainHost fun _ => none) ['l'] .hash ⟨[], [['a']], false⟩ true = (after, run) ∧
      run.outcome = .ok f ∧ Rewrites (linkedPair "# smc:flag a\nx\n# smc:end\n".toList) after
        ['l'] [['w'], ['a']] 0o755 (Utf8.encode "# smc:flag a\n# x\n# smc:end\n".toList)) ∧
    ∀ refuses ∈ [refusesSwap, refusesFill 5],
      ∃ run e, (linkedPair "# smc:flag a\nx\n# smc:end\n".toList).toggle (plainHost refuses)
          ['l'] .hash ⟨[], [['a']], false⟩ true =
        (linkedPair "# smc:flag a\nx\n# smc:end\n".toList, run) ∧ run.outcome = .error e := by
  have hhere : (linkedPair "# smc:flag a\nx\n# smc:end\n".toList).here.Plain := by decide
  have hreal : (linkedPair "# smc:flag a\nx\n# smc:end\n".toList).realPath ['l'] =
      [['w'], ['a']] := by rfl
  obtain ⟨f, hof, hkept⟩ := Outcome.exists_of_passes
    (x := (FileToggle.ofBytes (plainHost fun _ => none) ['l']
      (Utf8.encode "# smc:flag a\nx\n# smc:end\n".toList) .hash ⟨[], [['a']], false⟩).outcome)
    (p := fun f => decide (f.changed = true ∧ f.encoding = "utf-8".toList ∧
      f.done.text = "# smc:flag a\n# x\n# smc:end\n".toList)) (by decide +kernel)
  obtain ⟨hchanged, hencoding, htext⟩ := of_decide_eq_true hkept
  have hbytes : Codec.encodeBy f.encoding f.done.text =
      .ok (Utf8.encode "# smc:flag a\n# x\n# smc:end\n".toList) := by
    rw [hencoding, htext]
    rfl
  constructor
  · obtain ⟨after, run, hrun, -, hends, hrewrites⟩ := toggle_all_or_nothing hhere
      (plainHost fun _ => none) ['l'] .hash ⟨[], [['a']], false⟩ true
    have hok : run.outcome = .ok f := by
      refine (hends f).mpr ⟨_, rfl, hof, fun _ _ => ⟨_, hbytes, ?_⟩⟩
      rw [hreal]
      exact ⟨⟨rfl, _, rfl⟩, rfl, rfl, rfl, rfl⟩
    obtain ⟨p, raw, mode, bytes, hfind, -, hencode, hsame⟩ := (hrewrites f hok).2 rfl hchanged
    have hfile : (linkedPair "# smc:flag a\nx\n# smc:end\n".toList).find ['l'] =
        .ok ([['w'], ['a']], .file (Utf8.encode "# smc:flag a\nx\n# smc:end\n".toList) 0o755) := by
      rfl
    rw [hfile] at hfind
    rw [hbytes] at hencode
    cases hfind
    cases hencode
    exact ⟨after, run, f, hrun, hok, hsame⟩
  · intro refuses hrefuses
    obtain ⟨after, run, hrun, herror, hends, -⟩ := toggle_all_or_nothing hhere
      (plainHost refuses) ['l'] .hash ⟨[], [['a']], false⟩ true
    cases houtcome : run.outcome with
    | error e =>
      obtain rfl := herror e houtcome
      exact ⟨run, e, hrun, houtcome⟩
    | ok g =>
      obtain ⟨raw, hraw, hof', hwritable⟩ := (hends g).mp houtcome
      have hsame : raw = Utf8.encode "# smc:flag a\nx\n# smc:end\n".toList := by
        rcases List.mem_pair.mp hrefuses with rfl | rfl <;> exact (Except.ok.inj hraw).symm
      subst hsame
      obtain rfl : f = g := Except.ok.inj (hof.symm.trans hof')
      obtain ⟨bytes, -, hgranted⟩ := hwritable rfl hchanged
      rcases List.mem_pair.mp hrefuses with rfl | rfl
      · cases hgranted.swap
      · cases hgranted.fill

end Plain

end FileTree

end CommentToggle
