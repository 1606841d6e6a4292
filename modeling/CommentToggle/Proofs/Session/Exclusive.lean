import CommentToggle.Proofs.Toggle.Repeat

/-!
Exclusive sets over a session. A toggle that keeps the structure can bring two members
of an exclusive set to life only by leaving a block around them active that is then
read inactive. Where every such block has a bare line of its own this does not happen,
and the line stays bare, so that at most one member of each set is active after every
step of a session; a line of its own that is a comment is not enough.
-/
namespace CommentToggle

open Text

namespace Document

/-- The block has text of its own and is read as active. -/
def shows (d : Document) (b : Block) : Bool :=
  !(b.ownText d.lines).isEmpty && Plan.isActive d.states b.index

/-- At most one member of each exclusive set shows. -/
def Exclusive (d : Document) : Prop :=
  ∀ g ∈ d.groupSets, g.exclusive = true → (Request.membersOf d.blocks g).countP d.shows ≤ 1

instance (d : Document) : Decidable d.Exclusive := List.decidableBAll _ _

/-- Every block around a member of an exclusive set that has text has a bare line outside
its children. -/
def Anchored (d : Document) : Prop :=
  ∀ g ∈ d.groupSets, g.exclusive = true → ∀ b ∈ Request.membersOf d.blocks g,
    (b.ownText d.lines).isEmpty = false → ∀ c ∈ d.blocks, c.Encloses b → d.Rooted c

instance (d : Document) : Decidable d.Anchored := List.decidableBAll _ _

theorem countP_le_one_iff {α : Type} {p : α → Bool} {xs : List α} :
    xs.countP p ≤ 1 ↔ xs.Pairwise fun a b => p a = true → p b = true → False := by
  induction xs with
  | nil => simp
  | cons a xs ih =>
    rw [List.countP_cons, List.pairwise_cons]
    cases ha : p a with
    | false => simpa using ih
    | true =>
      simp only [if_true, true_implies]
      constructor
      · intro hle
        have hnone := List.countP_eq_zero.mp (Nat.le_zero.mp (Nat.le_of_succ_le_succ hle))
        exact ⟨hnone, ih.mp (by omega)⟩
      · intro h
        obtain ⟨hnone, -⟩ := h
        rw [List.countP_eq_zero.mpr hnone]

theorem shows_iff {d : Document} {b : Block} : d.shows b = true ↔
    (∃ l, l ∈ b.ownText d.lines) ∧ Plan.isActive d.states b.index = true := by
  rw [shows, Bool.and_eq_true, Bool.not_eq_true', List.isEmpty_eq_false_iff_exists_mem]

section Step

variable {d : Document} {desired : List Bool}

/-- A toggle leaves at most one member of a set active when the blocks around the members
are read as they were left. -/
theorem Exclusive.settled (hs : d.style.Tidy) (h : d.Sound) (hexclusive : d.Exclusive)
    {r : Request} (hselect : r.select d d.states = .ok desired) {g : GroupSet}
    (hg : g ∈ d.groupSets) (hkind : g.exclusive = true)
    (haround : ∀ b ∈ Request.membersOf d.blocks g, d.KeepsText desired b →
      d.ReadAround desired b) :
    (Request.membersOf d.blocks g).countP (d.settled desired).shows ≤ 1 := by
  have hbefore := countP_le_one_iff.mp (hexclusive g hg hkind)
  have hdistinct := Request.pairwise_membersOf h.arena (h.divides.nodup g hg)
  -- An active member was left active, since an inactive one is read back.
  have hleft : ∀ e ∈ Request.membersOf d.blocks g, (d.settled desired).shows e = true →
      e.index ∈ g.members ∧ Plan.isActive desired e.index = true ∧
        ∃ l, l ∈ e.ownText d.lines := by
    intro e he hshow
    obtain ⟨hmem, hget⟩ := (Request.mem_membersOf_iff h.arena).mp he
    obtain ⟨hkeeps, hactive⟩ := shows_iff.mp hshow
    refine ⟨hmem, ?_, KeepsText.text hs h hkeeps⟩
    by_contra hstate
    rw [Bool.not_eq_true] at hstate
    have hread := inactive_settled hs h (List.mem_of_getElem? hget) hkeeps
      (haround e he hkeeps) hstate
    rw [hread] at hactive
    simp at hactive
  rw [countP_le_one_iff]
  apply (hbefore.and hdistinct).imp_of_mem
  intro b c hb hc ⟨hold, hbc⟩ hshows hshows'
  obtain ⟨hbmem, hbactive, hbtext⟩ := hleft b hb hshows
  obtain ⟨hcmem, hcactive, hctext⟩ := hleft c hc hshows'
  obtain ⟨hbwas, hcwas⟩ := Request.active_before_select h d.length_states hselect hg hkind hbmem
    hcmem hbc hbactive hcactive
  exact hold (shows_iff.mpr ⟨hbtext, hbwas⟩) (shows_iff.mpr ⟨hctext, hcwas⟩)

/-- A bare line outside the children stays bare when the blocks around are read back. -/
theorem Rooted.settled (hs : d.style.Tidy) (h : d.Sound) {b : Block} (hb : b ∈ d.blocks)
    (hroot : d.Rooted b) (haround : d.KeepsText desired b → d.ReadAround desired b) :
    (d.settled desired).Rooted b := by
  have ⟨l, hl, hnests, hbare⟩ := hroot
  obtain ⟨hmem, hin, hown⟩ := mem_ownText.mp hl
  have hget := h.arena.getElem?_index hb
  have hmem' : d.rewritten desired l ∈ b.ownText (d.settled desired).lines :=
    mem_ownText_settled_iff.mpr
      ⟨l, hmem, hin, (own_rewritten_iff hs h desired hmem).mpr ⟨hown, Or.inr hbare.1⟩, rfl⟩
  have hkeeps : d.KeepsText desired b := ⟨_, hmem'⟩
  have houter := (haround hkeeps).outer h hb _ hmem'
  rw [index_rewritten] at houter
  have hdepth : d.depthAt (d.settled desired).states l.index = d.depthAt desired l.index := by
    rw [depthAt_own h.arena hget hin hnests, depthAt_own h.arena hget hin hnests, houter,
      hroot.readBack hs h hb hkeeps (haround hkeeps)]
  refine ⟨d.rewritten desired l, hmem', hnests, ?_⟩
  rw [Bare, core_settled hs h hmem hown hdepth]
  exact hbare

theorem Anchored.settled (hs : d.style.Tidy) (h : d.Sound) (hanchored : d.Anchored)
    (desired : List Bool) : (d.settled desired).Anchored := by
  intro g hg hkind b hb hkeeps c hc hcb
  have htext : (b.ownText d.lines).isEmpty = false :=
    List.isEmpty_eq_false_iff_exists_mem.mpr
      (KeepsText.text hs h (List.isEmpty_eq_false_iff_exists_mem.mp hkeeps))
  have hroots := hanchored g hg hkind b hb htext
  -- What lies around `c` lies around the member too.
  apply (hroots c hc hcb).settled hs h hc
  intro hkeepsc
  exact readAround_of_rooted hs h hkeepsc fun e he hec => hroots e he (hec.trans hcb)

end Step

end Document

/-- Every toggle of the session that succeeds keeps the structure. -/
def Steady (s : Style) : Text → List Request → Prop
  | _, [] => True
  | t, r :: rs =>
    match toggle s t r with
    | .ok done => done.document.Harmless done.plan.desired ∧ Steady s done.text rs
    | .error _ => Steady s t rs

instance (s : Style) : (t : Text) → (rs : List Request) → Decidable (Steady s t rs)
  | _, [] => .isTrue trivial
  | t, r :: rs =>
    match h : toggle s t r with
    | .ok done =>
      have := instDecidableSteady s done.text rs
      decidable_of_iff (done.document.Harmless done.plan.desired ∧ Steady s done.text rs)
        (by rw [Steady, h])
    | .error _ =>
      have := instDecidableSteady s t rs
      decidable_of_iff (Steady s t rs) (by rw [Steady, h])

theorem session_cons (s : Style) (t : Text) (r : Request) (rs : List Request) :
    session s t (r :: rs) = session s (match toggle s t r with
      | .ok done => done.text
      | .error _ => t) rs := rfl

theorem Document.Alike.trans {d e f : Document} (h : d.Alike e) (h' : e.Alike f) : d.Alike f where
  endings := h'.endings.trans h.endings
  directives := h'.directives.trans h.directives
  blocks := h'.blocks.trans h.blocks
  groupSets := h'.groupSets.trans h.groupSets

theorem exclusive_of_anchored {s : Style} (hs : s.Tidy) {t : Text} {d : Document}
    (hread : Document.read s t = .ok d) (hexclusive : d.Exclusive) (hanchored : d.Anchored)
    {rs : List Request} (hsteady : Steady s t rs) (n : Nat) :
    ∃ e, Document.read s (session s t (rs.take n)) = .ok e ∧ d.Alike e ∧ e.Exclusive := by
  induction rs generalizing t d n with
  | nil =>
    rw [List.take_nil]
    exact ⟨d, hread, ⟨rfl, rfl, rfl, rfl⟩, hexclusive⟩
  | cons r rs ih =>
    cases n with
    | zero => exact ⟨d, hread, ⟨rfl, rfl, rfl, rfl⟩, hexclusive⟩
    | succ n =>
      rw [List.take_succ_cons, session_cons]
      rw [Steady] at hsteady
      cases htoggle : toggle s t r with
      | error f =>
        rw [htoggle] at hsteady
        exact ih hread hexclusive hanchored hsteady n
      | ok done =>
        rw [htoggle] at hsteady
        obtain ⟨hharmless, hrest⟩ := hsteady
        obtain ⟨desired, hselect, rfl⟩ := done_of_toggle hread htoggle
        have hsound := Document.sound_of_read hread
        have htidy : d.style.Tidy := (Document.read_eq_ok_iff.mp hread).1 ▸ hs
        have hexclusive' : (d.settled desired).Exclusive := by
          intro g hg hkind
          apply hexclusive.settled htidy hsound hselect hg hkind
          intro b hb hkeeps
          have htext := List.isEmpty_eq_false_iff_exists_mem.mpr (hkeeps.text htidy hsound)
          exact Document.readAround_of_rooted htidy hsound hkeeps
            (hanchored g hg hkind b hb htext)
        obtain ⟨e, he, halike, hend⟩ := ih (Document.read_textAt hs.toInline hread hharmless)
          hexclusive' (hanchored.settled htidy hsound desired) hrest n
        exact ⟨e, he, (d.alike_settled desired).trans halike, hend⟩

/-- A step gives a set a second active member only by leaving a block around a member active
that is then read inactive, and that had no bare line of its own; from a text where all
blocks around members have bare lines of their own, no session does. -/
theorem exclusive_session {s : Style} (hs : s.Tidy) {t : Text} {d : Document}
    (hread : Document.read s t = .ok d) (hexclusive : d.Exclusive) :
    (∀ r done e, toggle s t r = .ok done → Document.read s done.text = .ok e → d.Alike e →
      ∀ g ∈ e.groupSets, g.exclusive = true →
        1 < (Request.membersOf e.blocks g).countP e.shows →
        ∃ b ∈ Request.membersOf e.blocks g, ∃ c ∈ e.blocks, c.Encloses b ∧ ¬ d.Rooted c ∧
          Plan.isActive done.plan.desired c.index = true ∧
          Plan.isActive e.states c.index = false) ∧
    (d.Anchored → ∀ rs, Steady s t rs → ∀ n, ∃ e,
      Document.read s (session s t (rs.take n)) = .ok e ∧ d.Alike e ∧ e.Exclusive) := by
  constructor
  · intro r done e htoggle he halike g hg hkind hmany
    obtain ⟨desired, hselect, rfl⟩ := done_of_toggle hread htoggle
    have hsound := Document.sound_of_read hread
    have htidy : d.style.Tidy := (Document.read_eq_ok_iff.mp hread).1 ▸ hs
    have hharmless := Document.harmless_of_alike hs.toInline hread he halike
    have hsettled := Document.read_textAt hs.toInline hread hharmless
    rw [he, Except.ok.injEq] at hsettled
    subst hsettled
    by_contra hnone
    refine Nat.not_le_of_lt hmany
      (hexclusive.settled htidy hsound hselect hg hkind fun b hb hkeeps => ?_)
    apply Document.readAround_of_active htidy hsound hkeeps
    intro c hc hcb hkeepsc hstate haround
    by_contra hinactive
    rw [Bool.not_eq_true] at hinactive
    refine hnone ⟨b, hb, c, hc, hcb, fun hroot => ?_, hstate, hinactive⟩
    rw [hroot.readBack htidy hsound hc hkeepsc haround, hstate] at hinactive
    simp at hinactive
  · intro hanchored rs hsteady n
    exact exclusive_of_anchored hs hread hexclusive hanchored hsteady n

/-- Two exclusive blocks inside a flag that has one line of its own. -/
def page (line : String) : Text :=
  ("# smc:flag p\n" ++ line ++ "\n# smc:begin a\nx\n# smc:end\n# smc:begin b\n# y\n" ++
    "# smc:end\n# smc:end\n").toList

/-- With a bare line of its own the flag is read as it was left; with a comment in its place
one request brings both blocks to life. -/
theorem exclusive_session_page :
    (∃ d, Document.read .hash (page "n") = .ok d ∧ ∀ n, ∃ e,
      Document.read .hash (session .hash (page "n")
        ([⟨[['b']], [], false⟩, ⟨[], [['p']], false⟩, ⟨[['a']], [], true⟩].take n)) = .ok e ∧
        d.Alike e ∧ e.Exclusive) ∧
    ∃ d done e, Document.read .hash (page "# n") = .ok d ∧ d.Exclusive ∧
      toggle .hash (page "# n") ⟨[], [['a']], false⟩ = .ok done ∧
      Document.read .hash done.text = .ok e ∧ ¬ e.Exclusive ∧
      ∃ c ∈ e.blocks, ¬ d.Rooted c ∧ Plan.isActive done.plan.desired c.index = true ∧
        Plan.isActive e.states c.index = false := by
  constructor
  · obtain ⟨d, hread, hd⟩ := Outcome.exists_of_passes (x := Document.read .hash (page "n"))
      (p := fun d => decide (d.Exclusive ∧ d.Anchored ∧ Steady .hash (page "n")
        [⟨[['b']], [], false⟩, ⟨[], [['p']], false⟩, ⟨[['a']], [], true⟩])) (by decide +kernel)
    obtain ⟨hexclusive, hanchored, hsteady⟩ := of_decide_eq_true hd
    exact ⟨d, hread, (exclusive_session Style.regular_hash.toTidy hread hexclusive).2
      hanchored _ hsteady⟩
  · obtain ⟨d, hread, hd⟩ := Outcome.exists_of_passes (x := Document.read .hash (page "# n"))
      (p := fun d => decide d.Exclusive) (by decide +kernel)
    obtain ⟨done, hdone, hpasses⟩ := Outcome.exists_of_passes
      (x := toggle .hash (page "# n") ⟨[], [['a']], false⟩)
      (p := fun done => Outcome.passes (Document.read .hash done.text) fun e =>
        decide (done.document.Alike e) && e.groupSets.any fun g => g.exclusive &&
          decide (1 < (Request.membersOf e.blocks g).countP e.shows)) (by decide +kernel)
    obtain ⟨e, he, hafter⟩ := Outcome.exists_of_passes hpasses
    rw [Bool.and_eq_true, decide_eq_true_eq, List.any_eq_true] at hafter
    obtain ⟨halike, g, hg, hcond⟩ := hafter
    rw [Bool.and_eq_true, decide_eq_true_eq] at hcond
    obtain ⟨desired, -, rfl⟩ := done_of_toggle hread hdone
    obtain ⟨-, -, c, hc, -, hroot, hleft, hinactive⟩ := (exclusive_session
      Style.regular_hash.toTidy hread (of_decide_eq_true hd)).1 _ _ e hdone he halike g hg
        hcond.1 hcond.2
    refine ⟨d, _, e, hread, of_decide_eq_true hd, hdone, he, fun hexclusive => ?_,
      c, hc, hroot, hleft, hinactive⟩
    exact Nat.not_le_of_lt hcond.2 (hexclusive g hg hcond.1)

end CommentToggle
