import CommentToggle.Proofs.Block.Arena
import CommentToggle.Proofs.Block.Items

/-!
Forming the blocks is reading the directives by the grammar of items. What has been
read is at any time a list of items for each open group and one behind the innermost
opening; the state of the forming is determined by it, and one directive extends it
in the only way the grammar allows. At the end no group is open and one list of items
is left, which gives the blocks.
-/
namespace CommentToggle.Block

/-- The items read before each group that is open, with its opening, innermost first. -/
abbrev Levels := List (Items × Directive)

namespace Levels

/-- The position of the next block, were there no items behind the innermost opening. -/
def base : Levels → Nat
  | [] => 0
  | (before, _) :: outer => base outer + before.size + 1

/-- The position of the innermost open group. -/
def innermost : Levels → Option Nat
  | [] => none
  | (before, _) :: outer => some (base outer + before.size)

def opened : Levels → List Nat
  | [] => []
  | (before, _) :: outer => (base outer + before.size) :: opened outer

/-- The blocks before those of the innermost group, which has the given children so far. -/
def around : Levels → List Nat → List Block
  | [], _ => []
  | (before, o) :: outer, children =>
    around outer (before.roots (base outer) ++ [base outer + before.size]) ++
      (before.blocks (innermost outer) (base outer) ++
        [Items.block (innermost outer) (base outer + before.size) o o.line children])

def directives : Levels → List Directive
  | [] => []
  | (before, o) :: outer => directives outer ++ (before.directives ++ [o])

theorem head?_opened (levels : Levels) : (opened levels).head? = innermost levels := by
  cases levels <;> rfl

theorem length_around (levels : Levels) (children : List Nat) :
    (around levels children).length = base levels := by
  induction levels generalizing children with
  | nil => rfl
  | cons level outer ih =>
    obtain ⟨before, o⟩ := level
    simp only [around, base, List.length_append, ih, Items.length_blocks, List.length_singleton]
    omega

theorem lt_base_of_opened {levels : Levels} {i : Nat} (h : i ∈ opened levels) :
    i < base levels := by
  induction levels with
  | nil => simp [opened] at h
  | cons level outer ih =>
    obtain ⟨before, o⟩ := level
    simp only [opened, List.mem_cons] at h
    simp only [base]
    rcases h with rfl | h
    · omega
    · have hlt := ih h
      omega

/-- The blocks before that of the innermost group. -/
def earlier (before : Items) (outer : Levels) : List Block :=
  around outer (before.roots (base outer) ++ [base outer + before.size]) ++
    before.blocks (innermost outer) (base outer)

theorem around_cons (before : Items) (o : Directive) (outer : Levels) (children : List Nat)
    (rest : List Block) : around ((before, o) :: outer) children ++ rest =
      earlier before outer ++
        Items.block (innermost outer) (base outer + before.size) o o.line children :: rest := by
  simp only [around, earlier, List.append_assoc, List.singleton_append]

theorem length_earlier (before : Items) (outer : Levels) :
    (earlier before outer).length = base outer + before.size := by
  simp only [earlier, List.length_append, length_around, Items.length_blocks]

/-- The parents of the blocks around come before the innermost group. -/
theorem parent_around {levels : Levels} {children : List Nat} {b : Block}
    (hb : b ∈ around levels children) : b.parent ≠ innermost levels := by
  have hbefore : ∀ p, b.parent = some p → p + 1 < base levels := by
    induction levels generalizing children with
    | nil => simp [around] at hb
    | cons level outer ih =>
      obtain ⟨before, o⟩ := level
      have hparent {p : Nat} (hp : innermost outer = some p) : p < base outer :=
        lt_base_of_opened (List.mem_of_mem_head? ((head?_opened outer).trans hp))
      intro p hp
      simp only [around, List.mem_append, List.mem_singleton] at hb
      simp only [base]
      rcases hb with hb | hb | rfl
      · have hlt := ih hb p hp
        omega
      · rcases Items.parent_of_mem _ _ _ hb with ⟨heq, -⟩ | ⟨q, hq, -, hlt⟩
        · have hlt := hparent (heq.symm.trans hp)
          omega
        · rw [hp, Option.some.injEq] at hq
          omega
      · have hlt := hparent hp
        omega
  cases levels with
  | nil => simp [around] at hb
  | cons level outer =>
    intro heq
    have hlt := hbefore _ heq
    simp only [base] at hlt
    omega

end Levels

open Levels

theorem modify_middle {α : Type} {xs : List α} {i : Nat} (hi : xs.length = i) (x : α)
    (ys : List α) (f : α → α) : (xs ++ x :: ys).modify i f = xs ++ f x :: ys := by
  subst hi
  induction xs with
  | nil => rfl
  | cons y xs ih => simp [ih]

/-- What has been read: the items behind the innermost opening, and the levels around. -/
structure Partial where
  items : Items
  levels : Levels

namespace Partial

def forming (z : Partial) : Forming :=
  ⟨around z.levels (z.items.roots (base z.levels)) ++
    z.items.blocks (innermost z.levels) (base z.levels), opened z.levels⟩

def directives (z : Partial) : List Directive := z.levels.directives ++ z.items.directives

/-- One more directive read by the grammar. -/
inductive Next (ls : List Line) : Partial → Directive → Partial → Prop
  | opening {items : Items} {levels : Levels} {d : Directive} : d.kind = .opening →
      d.group ∉ items.heads → Next ls ⟨items, levels⟩ d ⟨.empty, (items, d) :: levels⟩
  | closing {items before : Items} {outer : Levels} {o d : Directive} : d.kind = .closing →
      d.group = o.group →
      Next ls ⟨items, (before, o) :: outer⟩ d ⟨.group before o items d, outer⟩
  | tagging {items : Items} {levels : Levels} {d : Directive} : d.kind = .tagging →
      d.group ∉ items.heads → (∃ l, ls[d.line + 1]? = some l ∧ l.directive = false) →
      Next ls ⟨items, levels⟩ d ⟨.tagged items d, levels⟩

theorem length_forming (z : Partial) :
    z.forming.blocks.length = base z.levels + z.items.size := by
  simp only [forming, List.length_append, length_around, Items.length_blocks]

theorem hasSibling_forming (z : Partial) (group : Text) :
    z.forming.hasSibling group = true ↔ group ∈ z.items.heads := by
  have hparent : z.forming.parent = innermost z.levels := head?_opened z.levels
  unfold Forming.hasSibling
  rw [hparent, List.any_eq_true]
  simp only [Bool.and_eq_true, decide_eq_true_eq]
  constructor
  · rintro ⟨b, hb, hbparent, rfl⟩
    rcases List.mem_append.mp hb with hb | hb
    · exact absurd hbparent (parent_around hb)
    · rcases Items.parent_of_mem _ _ _ hb with ⟨-, hgroup⟩ | ⟨p, hp, hle, -⟩
      · exact hgroup
      · have hlt := lt_base_of_opened
          (List.mem_of_mem_head? ((head?_opened z.levels).trans (hbparent.symm.trans hp)))
        omega
  · intro h
    obtain ⟨b, hb, hspec⟩ := z.items.exists_of_mem_heads (innermost z.levels) (base z.levels) h
    exact ⟨b, List.mem_append_right _ hb, hspec⟩

theorem adopt_around (levels : Levels) (children : List Nat) (rest : List Block) (n : Nat) :
    Forming.adopt (around levels children ++ rest) n (innermost levels) =
      around levels (children ++ [n]) ++ rest := by
  cases levels with
  | nil => rfl
  | cons level outer =>
    obtain ⟨before, o⟩ := level
    rw [around_cons, around_cons, innermost, Forming.adopt,
      modify_middle (length_earlier before outer)]
    rfl

/-- Adding a block behind the items. -/
theorem grown_forming (z : Partial) (d : Directive) (last : Nat) :
    z.forming.grown d (d.line + 1) last =
      around z.levels (z.items.roots (base z.levels) ++ [base z.levels + z.items.size]) ++
        (z.items.blocks (innermost z.levels) (base z.levels) ++
          [Items.block (innermost z.levels) (base z.levels + z.items.size) d last []]) := by
  have hparent : z.forming.parent = innermost z.levels := head?_opened z.levels
  have hfresh : z.forming.fresh d (d.line + 1) last =
      Items.block (innermost z.levels) (base z.levels + z.items.size) d last [] := by
    rw [← length_forming, ← hparent]
    rfl
  rw [Forming.grown, hfresh, hparent, length_forming]
  change Forming.adopt (around _ _ ++ _ ++ _) _ _ = _
  rw [List.append_assoc, adopt_around]

/-- Closing the innermost group. -/
theorem ended_forming (items before : Items) (outer : Levels) (o d : Directive) :
    Forming.ended (forming ⟨items, (before, o) :: outer⟩).blocks (base outer + before.size) d.line =
      (forming ⟨.group before o items d, outer⟩).blocks := by
  rw [forming, around_cons, Forming.ended, modify_middle (length_earlier before outer)]
  simp only [forming, Items.roots, Items.blocks, earlier, base, innermost, List.append_assoc]
  rfl

/-- The innermost open block. -/
theorem openBlocks_forming (items before : Items) (outer : Levels) (o : Directive) :
    ∃ b rest, (forming ⟨items, (before, o) :: outer⟩).openBlocks = b :: rest ∧
      b.group = o.group := by
  have hget : (forming ⟨items, (before, o) :: outer⟩).blocks[base outer + before.size]? =
      some (Items.block (innermost outer) (base outer + before.size) o o.line
        (items.roots (base ((before, o) :: outer)))) := by
    have hlen := length_earlier before outer
    rw [forming, around_cons, List.getElem?_append_right (by omega), hlen, Nat.sub_self]
    rfl
  unfold Forming.openBlocks
  exact ⟨_, _, List.filterMap_cons_some hget, rfl⟩

theorem forming_opening (items : Items) (levels : Levels) (d : Directive) :
    forming ⟨.empty, (items, d) :: levels⟩ =
      ⟨(forming ⟨items, levels⟩).grown d (d.line + 1) d.line,
        (forming ⟨items, levels⟩).blocks.length :: opened levels⟩ := by
  rw [grown_forming, length_forming]
  simp only [forming, Items.roots, Items.blocks, around, opened, List.append_nil]

theorem forming_tagging (items : Items) (levels : Levels) (d : Directive) :
    forming ⟨.tagged items d, levels⟩ =
      ⟨(forming ⟨items, levels⟩).grown d (d.line + 1) (d.line + 1), opened levels⟩ := by
  rw [grown_forming]
  simp only [forming, Items.roots, Items.blocks]

theorem close?_forming_iff {items before : Items} {outer : Levels} {o d : Directive}
    {f : Forming} : (forming ⟨items, (before, o) :: outer⟩).close? d = .ok f ↔
      d.group = o.group ∧ f = forming ⟨.group before o items d, outer⟩ := by
  obtain ⟨top, rest, hopen, htop⟩ := openBlocks_forming items before outer o
  have hopened : (forming ⟨items, (before, o) :: outer⟩).opened =
      (base outer + before.size) :: opened outer := rfl
  have hended : (⟨Forming.ended (forming ⟨items, (before, o) :: outer⟩).blocks
      (base outer + before.size) d.line, opened outer⟩ : Forming) =
      forming ⟨.group before o items d, outer⟩ := by
    rw [ended_forming]
    rfl
  unfold Forming.close?
  simp only [hopened, hopen, htop]
  by_cases hgroup : o.group = d.group
  · rw [if_pos hgroup, Except.ok.injEq]
    exact ⟨fun h => ⟨hgroup.symm, h.symm.trans hended⟩, fun h => hended.trans h.2.symm⟩
  · rw [if_neg hgroup]
    refine ⟨fun h => ?_, fun h => absurd h.1.symm hgroup⟩
    split at h <;> cases h

/-- The forming goes on exactly as the grammar does. -/
theorem step_forming_iff {ls : List Line} {z : Partial} {d : Directive} {f : Forming} :
    Forming.step ls z.forming d = .ok f ↔ ∃ z', Next ls z d z' ∧ f = z'.forming := by
  obtain ⟨items, levels⟩ := z
  have hnew : (forming ⟨items, levels⟩).hasSibling d.group = false ↔ d.group ∉ items.heads := by
    rw [← Bool.not_eq_true, hasSibling_forming]
  constructor
  · intro h
    rcases Forming.step_cases h with ⟨hkind, hsibling, rfl⟩ | ⟨hkind, i, rest, hopened, rfl⟩ |
      ⟨hkind, hsibling, hnext, rfl⟩
    · exact ⟨_, .opening hkind (hnew.mp hsibling), (forming_opening items levels d).symm⟩
    · cases levels with
      | nil => cases hopened
      | cons level outer =>
        obtain ⟨before, o⟩ := level
        cases hopened
        rw [Forming.step, hkind] at h
        obtain ⟨hgroup, hf⟩ := close?_forming_iff.mp h
        exact ⟨_, .closing hkind hgroup, hf⟩
    · exact ⟨_, .tagging hkind (hnew.mp hsibling) hnext, (forming_tagging items levels d).symm⟩
  · rintro ⟨z', h, rfl⟩
    cases h with
    | opening hkind hgroup =>
      rw [Forming.step, hkind, forming_opening]
      exact Outcome.bind_eq_ok_iff.mpr
        ⟨_, Forming.append_eq_ok_iff.mpr ⟨hnew.mpr hgroup, rfl⟩, rfl⟩
    | closing hkind hgroup =>
      rw [Forming.step, hkind]
      exact close?_forming_iff.mpr ⟨hgroup, rfl⟩
    | tagging hkind hgroup hnext =>
      obtain ⟨l, hl, hplain⟩ := hnext
      rw [Forming.step, hkind, forming_tagging]
      simp only [Forming.tag?, hl, hplain, Bool.false_eq_true, if_false]
      exact Forming.append_eq_ok_iff.mpr ⟨hnew.mpr hgroup, rfl⟩

/-- Directives read by the grammar one after the other. -/
inductive Steps (ls : List Line) : Partial → List Directive → Partial → Prop
  | done {z : Partial} : Steps ls z [] z
  | next {z z' z'' : Partial} {d : Directive} {ds : List Directive} : Next ls z d z' →
      Steps ls z' ds z'' → Steps ls z (d :: ds) z''

theorem Steps.append {ls : List Line} {z z' z'' : Partial} {ds es : List Directive}
    (h : Steps ls z ds z') (h' : Steps ls z' es z'') : Steps ls z (ds ++ es) z'' := by
  induction h with
  | done => exact h'
  | next hnext _ ih => exact .next hnext (ih h')

theorem run_forming_iff {ls : List Line} {z : Partial} {ds : List Directive} {f : Forming} :
    ds.foldlM (Forming.step ls) z.forming = .ok f ↔ ∃ z', Steps ls z ds z' ∧ f = z'.forming := by
  induction ds generalizing z with
  | nil =>
    constructor
    · intro h
      cases h
      exact ⟨z, .done, rfl⟩
    · rintro ⟨z', ⟨⟩, rfl⟩
      rfl
  | cons d ds ih =>
    rw [List.foldlM_cons, Outcome.bind_eq_ok_iff]
    constructor
    · rintro ⟨g, hstep, hrest⟩
      obtain ⟨z', hnext, rfl⟩ := step_forming_iff.mp hstep
      obtain ⟨z'', hsteps, hf⟩ := ih.mp hrest
      exact ⟨z'', .next hnext hsteps, hf⟩
    · rintro ⟨z'', ⟨⟩ | ⟨hnext, hsteps⟩, rfl⟩
      exact ⟨_, step_forming_iff.mpr ⟨_, hnext, rfl⟩, ih.mpr ⟨z'', hsteps, rfl⟩⟩

/-- There is only one way to go on. -/
theorem Next.unique {ls : List Line} {z z₁ z₂ : Partial} {d : Directive} (h₁ : Next ls z d z₁)
    (h₂ : Next ls z d z₂) : z₁ = z₂ := by
  cases h₁ <;> cases h₂ <;> simp_all

theorem Steps.unique {ls : List Line} {z z₁ z₂ : Partial} {ds : List Directive}
    (h₁ : Steps ls z ds z₁) (h₂ : Steps ls z ds z₂) : z₁ = z₂ := by
  induction h₁ with
  | done =>
    cases h₂
    rfl
  | next hnext _ ih =>
    obtain _ | ⟨hnext', hsteps⟩ := h₂
    obtain rfl := hnext.unique hnext'
    exact ih hsteps

/-- All items read so far are derived, and the openings around have new names. -/
structure Sound (ls : List Line) (z : Partial) : Prop where
  items : z.items.Derived ls
  levels : ∀ before o, (before, o) ∈ z.levels →
    before.Derived ls ∧ o.kind = .opening ∧ o.group ∉ before.heads

theorem Sound.next {ls : List Line} {z z' : Partial} {d : Directive} (h : Sound ls z)
    (hnext : Next ls z d z') : Sound ls z' ∧ z'.directives = z.directives ++ [d] := by
  obtain ⟨hitems, hlevels⟩ := h
  cases hnext with
  | opening hkind hgroup =>
    refine ⟨⟨.empty, fun before o hmem => ?_⟩, ?_⟩
    · rcases List.mem_cons.mp hmem with heq | hmem
      · cases heq
        exact ⟨hitems, hkind, hgroup⟩
      · exact hlevels before o hmem
    · simp [directives, Levels.directives, Items.directives]
  | closing hkind hgroup =>
    obtain ⟨hbefore, hopening, hnew⟩ := hlevels _ _ List.mem_cons_self
    refine ⟨⟨.group hbefore hopening hnew hitems hkind hgroup, fun before o hmem => ?_⟩, ?_⟩
    · exact hlevels before o (List.mem_cons_of_mem _ hmem)
    · simp [directives, Levels.directives, Items.directives]
  | tagging hkind hgroup hnext =>
    refine ⟨⟨.tagged hitems hkind hgroup hnext, hlevels⟩, ?_⟩
    simp [directives, Items.directives]

theorem Sound.steps {ls : List Line} {z z' : Partial} {ds : List Directive} (h : Sound ls z)
    (hsteps : Steps ls z ds z') : Sound ls z' ∧ z'.directives = z.directives ++ ds := by
  induction hsteps with
  | done => exact ⟨h, (List.append_nil _).symm⟩
  | next hnext _ ih =>
    obtain ⟨hsound, hdirectives⟩ := h.next hnext
    obtain ⟨hsound', hdirectives'⟩ := ih hsound
    exact ⟨hsound', by rw [hdirectives', hdirectives, List.append_assoc, List.singleton_append]⟩

/-- Derived items can be read wherever a list of items begins. -/
theorem steps_of_derived {ls : List Line} {t : Items} (h : t.Derived ls) (levels : Levels) :
    Steps ls ⟨.empty, levels⟩ t.directives ⟨t, levels⟩ := by
  induction h generalizing levels with
  | empty => exact .done
  | group _ hopening hnew _ hclosing hgroup ihb ihi =>
    exact (ihb levels).append
      (.next (.opening hopening hnew) ((ihi _).append (.next (.closing hclosing hgroup) .done)))
  | tagged _ htagging hnew hnext ih =>
    exact (ih levels).append (.next (.tagging htagging hnew hnext) .done)

end Partial

open Partial

/-- Directives have at most one derivation. -/
theorem Items.Derived.unique {ls : List Line} {t u : Items} (ht : t.Derived ls)
    (hu : u.Derived ls) (h : t.directives = u.directives) : t = u := by
  have hsteps := steps_of_derived ht []
  rw [h] at hsteps
  have heq := hsteps.unique (steps_of_derived hu [])
  rw [Partial.mk.injEq] at heq
  exact heq.1

theorem levels_eq_nil {z : Partial} (h : z.forming.openBlocks = []) : z.levels = [] := by
  obtain ⟨items, levels⟩ := z
  cases levels with
  | nil => rfl
  | cons level outer =>
    obtain ⟨top, rest, hopen, -⟩ := openBlocks_forming items level.1 outer level.2
    rw [hopen] at h
    cases h

/-- A list of directives forms blocks exactly when it has a derivation in which every group
that holds items has a line of its own, and the blocks are those of the derivation. -/
theorem resolve_eq_ok_iff_derived {ls : List Line} {ds : List Directive} {bs : List Block} :
    resolve ls ds = .ok bs ↔
      ∃ t : Items, t.directives = ds ∧ t.Derived ls ∧ t.OwnLines ls ∧ bs = t.blocks none 0 := by
  have hown (t : Items) : (∀ b ∈ t.blocks none 0, hasOwnLine ls (t.blocks none 0) b = true) ↔
      t.OwnLines ls := Items.hasOwnLine_iff t fun b hb => t.getElem?_index none hb
  rw [resolve_eq_ok_iff]
  constructor
  · rintro ⟨f, hrun, hopen, hlines, rfl⟩
    obtain ⟨⟨t, levels⟩, hsteps, rfl⟩ := (run_forming_iff (z := ⟨.empty, []⟩)).mp hrun
    obtain rfl : levels = [] := levels_eq_nil hopen
    have hstart : Sound ls ⟨.empty, []⟩ := ⟨.empty, by simp⟩
    obtain ⟨hsound, hdirectives⟩ := hstart.steps hsteps
    exact ⟨t, hdirectives, hsound.items, (hown t).mp hlines, rfl⟩
  · rintro ⟨t, rfl, hderived, hlines, rfl⟩
    exact ⟨forming ⟨t, []⟩, run_forming_iff.mpr ⟨_, steps_of_derived hderived [], rfl⟩, rfl,
      (hown t).mpr hlines, rfl⟩

/-- The directives that form blocks are those with a derivation, which is the only one. The
blocks are those of the derivation, in the order of the directives that begin them, and the
children of a block are those that name it as parent, in order. -/
theorem resolve_grammar (ls : List Line) (ds : List Directive) :
    (∀ bs, resolve ls ds = .ok bs ↔
      ∃ t : Items, t.directives = ds ∧ t.Derived ls ∧ t.OwnLines ls ∧ bs = t.blocks none 0) ∧
    (∀ t u : Items, t.Derived ls → u.Derived ls → t.directives = ds → u.directives = ds →
      t = u) ∧
    ∀ bs, resolve ls ds = .ok bs →
      bs.map (·.openedAt) = (ds.filter (·.kind ≠ .closing)).map (·.line) ∧
      bs.map (·.index) = List.range bs.length ∧
      ∀ b ∈ bs, b.children = (bs.filter (·.parent = some b.index)).map (·.index) := by
  refine ⟨fun bs => resolve_eq_ok_iff_derived, ?_, fun bs h => ?_⟩
  · intro t u ht hu htds huds
    exact ht.unique hu (htds.trans huds.symm)
  · obtain ⟨t, rfl, hderived, -, rfl⟩ := resolve_eq_ok_iff_derived.mp h
    refine ⟨t.map_openedAt_blocks none 0 hderived, ?_, fun b hb => ?_⟩
    · rw [t.map_index_blocks, t.length_blocks, List.range_eq_range']
    · exact t.children_eq_childrenAt (by simp) hb

end CommentToggle.Block
