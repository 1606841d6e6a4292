import CommentToggle.Proofs.Layer.Inverse
import CommentToggle.Proofs.Style.Trimmed

/-!
Commenting a line and uncommenting the line that was written. Whatever the line holds, also
nothing at all or what looks like a comment, it comes back as it was, and the comments
start where its text did.
-/
namespace CommentToggle

open Text

/-- A line is told from its indentation and a content that begins with no white space. -/
theorem Line.ofBody_append {indent content : Text} (hindent : Blank indent)
    (hcontent : trimStart content = content) (i : Nat) (e : Terminator) :
    Line.ofBody i (indent ++ content) e = ⟨i, indent, content, e, false⟩ := by
  have hstart : trimStart (indent ++ content) = content := by
    rw [trimStart, List.dropWhile_append_of_pos hindent]
    exact hcontent
  have hbody := trimStart_append_takeWhile (indent ++ content)
  rw [hstart] at hbody
  unfold Line.ofBody
  rw [hstart, List.append_cancel_right hbody]

namespace Layer

section Trimmed

variable {s : Style} {content : Text}

theorem trimStart_add (hs : s.Trimmed) (spaced : Bool) (content : Text) :
    trimStart (add s spaced content) = add s spaced content := by
  rw [add_eq]
  exact ((hs.flush_leader s.primary_mem).1.append _).trimStart

theorem trimStart_addTimes (hs : s.Trimmed) (spaced : Bool) (n : Nat)
    (h : trimStart content = content) :
    trimStart (addTimes s spaced n content) = addTimes s spaced n content := by
  cases n with
  | zero => exact h
  | succ n =>
    rw [addTimes_succ]
    exact trimStart_add hs spaced _

/-- Where a layer is written without spaces, no space follows the leader, not even before
an empty content. -/
theorem head_behind (hs : s.Trimmed) (h : trimStart content = content) :
    (content ++ behind s false).head? ≠ some ' ' := by
  rcases flush_trimStart content with hnil | hflush
  · rw [← h, hnil, List.nil_append, behind]
    cases hq : s.closer with
    | none => simp
    | some q => exact (hs.flush_closer hq).1.head_ne_space
  · rw [h] at hflush
    exact (hflush.append _).head_ne_space

theorem strip?_add_of_trimStart (hs : s.Trimmed) (spaced : Bool) (h : trimStart content = content) :
    strip? s (add s spaced content) = some content := by
  refine strip?_add_of_head (fun q hq => (hs.flush_closer hq).2) spaced fun hspaced => ?_
  rw [hspaced]
  exact head_behind hs h

theorem stripTimes?_addTimes_of_trimStart (hs : s.Trimmed) (spaced : Bool) (n : Nat)
    (h : trimStart content = content) :
    stripTimes? s n (addTimes s spaced n content) = some content := by
  induction n with
  | zero => rfl
  | succ n ih =>
    rw [addTimes_succ, stripTimes?,
      strip?_add_of_trimStart hs spaced (trimStart_addTimes hs spaced n h)]
    exact ih

end Trimmed

theorem shift_neg_of_stripTimes? {s : Style} {l : Line} {k : Nat} {rest : Text} (spaced : Bool)
    (h : stripTimes? s k l.content = some rest) :
    shift s spaced l (-k) = .ok (l.indent ++ rest) := by
  cases k with
  | zero => exact congrArg (fun t => Except.ok (l.indent ++ t)) (Option.some.inj h)
  | succ k =>
    have hneg : -((k + 1 : Nat) : Int) = Int.negSucc k := rfl
    rw [hneg, shift, h]

/-- Comments written on a line and taken off the line as it is read again leave the line as
it was, and the indentation is the same in between. -/
theorem shift_neg_shift {s : Style} (hs : s.Trimmed) (i j : Nat) (body : Text)
    (e f : Terminator) (spaced spaced' : Bool) (k : Nat) :
    ∃ added, shift s spaced (.ofBody i body e) k = .ok added ∧
      (Line.ofBody j added f).indent = (Line.ofBody i body e).indent ∧
      shift s spaced' (.ofBody j added f) (-k) = .ok body := by
  have hindent : Blank (body.takeWhile isBlank) := fun c hc => List.mem_takeWhile_imp hc
  have hcontent := trimStart_trimStart body
  have hread := Line.ofBody_append hindent (trimStart_addTimes hs spaced k hcontent) j f
  have hback := stripTimes?_addTimes_of_trimStart hs spaced k hcontent
  refine ⟨body.takeWhile isBlank ++ addTimes s spaced k (trimStart body), rfl, ?_⟩
  rw [hread]
  refine ⟨rfl, ?_⟩
  rw [shift_neg_of_stripTimes? spaced' hback, trimStart_append_takeWhile]

/-- Comments in slashes and stars, where a line comment is recognised too. -/
def slashes : Style :=
  ⟨"slashes".toList, ["/*".toList, "//".toList], some "*/".toList, by decide⟩

/-- A line behind a wide space that looks commented already and ends in white space, and an
empty line. -/
theorem shift_neg_shift_slashes : slashes.Trimmed ∧
    (shift slashes true (.ofBody 0 "\u3000// x*/ \t".toList .lf) (2 : Nat) =
        .ok "\u3000/* /* // x*/ \t */ */".toList ∧
      shift slashes false (.ofBody 0 "\u3000/* /* // x*/ \t */ */".toList .lf) (-(2 : Nat)) =
        .ok "\u3000// x*/ \t".toList) ∧
    shift slashes false (.ofBody 0 " ".toList .lf) (1 : Nat) = .ok " /**/".toList ∧
      shift slashes true (.ofBody 0 " /**/".toList .lf) (-(1 : Nat)) = .ok " ".toList := by
  have hs : slashes.Trimmed := by decide
  obtain ⟨added, hadd, -, hback⟩ :=
    shift_neg_shift hs 0 0 "\u3000// x*/ \t".toList .lf .lf true false 2
  obtain ⟨empty, hempty, -, hfull⟩ := shift_neg_shift hs 0 0 " ".toList .lf .lf false true 1
  obtain rfl := Except.ok.inj hadd
  obtain rfl := Except.ok.inj hempty
  exact ⟨hs, ⟨rfl, hback⟩, rfl, hfull⟩

end Layer

end CommentToggle
