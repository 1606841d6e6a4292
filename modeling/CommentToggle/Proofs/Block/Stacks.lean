import CommentToggle.Proofs.Directive.Naming

/-!
The open blocks and the open groups. The scan and the forming of the blocks each keep a
stack, and close on it by rules of their own; as long as the blocks can be formed, the
stacks hold the same groups. So an end without a name closes the innermost open block,
and where its name is written does not matter to the blocks.
-/
namespace CommentToggle.Block

open Directive

/-- The group of the block at a position. -/
def groupAt (bs : List Block) (k : Nat) : Option Text := bs[k]?.map (·.group)

namespace Forming

/-- The open blocks are those of the given groups, innermost first. -/
def Tracks (f : Forming) (opened : List Text) : Prop :=
  f.opened.map (groupAt f.blocks) = opened.map some

variable {ls : List Line} {f g : Forming} {opened : List Text} {d e : Directive}

theorem tracks_start : start.Tracks [] := rfl

theorem Tracks.innermost {group : Text} {outer : List Text} (h : f.Tracks (group :: outer)) :
    ∃ i rest b, f.opened = i :: rest ∧ f.blocks[i]? = some b ∧ b.group = group ∧
      rest.map (groupAt f.blocks) = outer.map some := by
  unfold Tracks at h
  obtain ⟨i, rest, hopened, hgroup, houter⟩ := List.map_eq_cons_iff.mp h
  obtain ⟨b, hb, rfl⟩ := Option.map_eq_some_iff.mp hgroup
  exact ⟨i, rest, b, hopened, hb, rfl, houter⟩

theorem groupAt_grown (f : Forming) (d : Directive) (first last k : Nat) :
    groupAt (f.grown d first last) k =
      if k = f.blocks.length then some d.group else groupAt f.blocks k :=
  f.map_getElem?_grown d first last (·.group) (fun _ _ => rfl) k

theorem groupAt_ended (bs : List Block) (i line : Nat) :
    groupAt (ended bs i line) = groupAt bs := by
  funext k
  exact map_getElem?_modify (·.group) (f := fun b => { b with last := line - 1 })
    (fun _ => rfl) bs i k

/-- A block that is added leaves the groups of the others alone. -/
theorem Tracks.grow (h : f.Tracks opened) (d : Directive) (first last : Nat) :
    Tracks ⟨f.grown d first last, f.opened⟩ opened := by
  unfold Tracks at h ⊢
  rw [← h]
  refine List.map_congr_left fun i hi => ?_
  have hsome : groupAt f.blocks i ∈ opened.map some := h ▸ List.mem_map_of_mem hi
  obtain ⟨group, -, hgroup⟩ := List.mem_map.mp hsome
  obtain ⟨b, hb, -⟩ := Option.map_eq_some_iff.mp hgroup.symm
  have hlt := (List.getElem?_eq_some_iff.mp hb).1
  rw [groupAt_grown, if_neg (Nat.ne_of_lt hlt)]

theorem close?_eq_ok_iff {i : Nat} {rest : List Nat} {b : Block} (hopened : f.opened = i :: rest)
    (hb : f.blocks[i]? = some b) :
    f.close? d = .ok g ↔ b.group = d.group ∧ g = ⟨ended f.blocks i d.line, rest⟩ := by
  have hblocks : f.openBlocks = b :: rest.filterMap (f.blocks[·]?) := by
    rw [openBlocks, hopened, List.filterMap_cons, hb]
  unfold close?
  rw [hopened, hblocks]
  simp only
  split
  · rename_i hgroup
    simp only [Except.ok.injEq, hgroup, true_and]
    exact eq_comm
  · rename_i hgroup
    split <;> simp [hgroup]

/-- Only the innermost open block is closed, and its group is the one that ends. -/
theorem Tracks.close (h : f.Tracks opened) (hclose : f.close? d = .ok g) :
    ∃ outer, opened = d.group :: outer ∧ g.Tracks outer := by
  cases opened with
  | nil =>
    have hnone : f.opened = [] := List.map_eq_nil_iff.mp h
    simp [close?, hnone] at hclose
  | cons group outer =>
    obtain ⟨i, rest, b, hopened, hb, rfl, houter⟩ := h.innermost
    obtain ⟨hgroup, rfl⟩ := (close?_eq_ok_iff hopened hb).mp hclose
    refine ⟨outer, by rw [hgroup], ?_⟩
    unfold Tracks
    rw [groupAt_ended]
    exact houter

theorem Tracks.step (h : f.Tracks opened) {still : List Text}
    (hsettle : settle? opened d = some (e, still)) (hstep : step ls f e = .ok g) :
    g.Tracks still := by
  rcases settle?_cases hsettle with ⟨hkind, rfl, rfl⟩ | ⟨hkind, rfl, rfl⟩ |
    ⟨hkind, -, rfl, rfl⟩ | ⟨hbare, group, rfl, rfl⟩
  · rcases step_cases hstep with ⟨-, -, rfl⟩ | ⟨hclosing, -⟩ | ⟨htagging, -⟩
    · have hgrown := h.grow e (e.line + 1) e.line
      unfold Tracks at hgrown ⊢
      rw [List.map_cons, List.map_cons, hgrown, groupAt_grown, if_pos rfl]
    · simp [hkind] at hclosing
    · simp [hkind] at htagging
  · rcases step_cases hstep with ⟨hopening, -⟩ | ⟨hclosing, -⟩ | ⟨-, -, -, rfl⟩
    · simp [hkind] at hopening
    · simp [hkind] at hclosing
    · exact h.grow e _ _
  · simp only [Forming.step, hkind] at hstep
    obtain ⟨outer, rfl, houter⟩ := h.close hstep
    rwa [dropClosed_head]
  · simp only [Forming.step, hbare.1] at hstep
    obtain ⟨outer, hopened, houter⟩ := h.close hstep
    rw [List.cons.injEq] at hopened
    rwa [hopened.2]

/-- The stacks agree behind every line, as long as the blocks can be formed. -/
theorem Tracks.run {s : Style} {before : List Line} {es : List Directive} (h : f.Tracks opened)
    (hscan : scanFrom s opened before = (es, none))
    (hrun : es.foldlM (Forming.step ls) f = .ok g) : g.Tracks (openedBy s opened before) := by
  induction before generalizing opened es f with
  | nil =>
    cases hscan
    cases hrun
    exact h
  | cons l before ih =>
    rcases scanFrom_cons hscan with ⟨hnone, hrest⟩ |
      ⟨d, e, still, rest, hsome, hsettle, hrest, rfl⟩
    · rw [openedBy_text hnone]
      exact ih h hrest hrun
    · rw [List.foldlM_cons] at hrun
      obtain ⟨next, hstep, hrun⟩ := Outcome.bind_eq_ok_iff.mp hrun
      rw [openedBy_directive hsome hsettle]
      exact ih (h.step hsettle hstep) hrest hrun

/-- An end that names the innermost open group is never refused. -/
theorem Tracks.step_end {outer : List Text} (h : f.Tracks (d.group :: outer))
    (hkind : d.kind = .closing) (ls : List Line) :
    ∃ i rest b, f.opened = i :: rest ∧ f.blocks[i]? = some b ∧ b.group = d.group ∧
      Forming.step ls f d = .ok ⟨ended f.blocks i d.line, rest⟩ := by
  obtain ⟨i, rest, b, hopened, hb, hgroup, -⟩ := h.innermost
  refine ⟨i, rest, b, hopened, hb, hgroup, ?_⟩
  simp only [Forming.step, hkind]
  exact (close?_eq_ok_iff hopened hb).mpr ⟨hgroup, rfl⟩

/-- The terms of an end do not matter to the blocks. -/
theorem step_respelled (h : Respelled d e) (f : Forming) : step ls f e = step ls f d := by
  cases h with
  | same => rfl
  | terms hkind _ =>
    simp only [step, hkind]
    rfl

theorem foldlM_respelled {ds es : List Directive} (h : List.Forall₂ Respelled ds es)
    (f : Forming) : es.foldlM (step ls) f = ds.foldlM (step ls) f := by
  induction h generalizing f with
  | nil => rfl
  | cons hfirst _ ih =>
    rw [List.foldlM_cons, List.foldlM_cons, step_respelled hfirst]
    exact congrArg _ (funext ih)

end Forming

theorem resolve_respelled {ls ms : List Line} {ds es : List Directive}
    (hlines : ms.map outline = ls.map outline) (h : List.Forall₂ Respelled ds es) :
    resolve ms es = resolve ls ds := by
  rw [resolve_of_outline hlines]
  unfold resolve
  rw [Forming.foldlM_respelled h]

end CommentToggle.Block
