import CommentToggle.Document.States
import CommentToggle.Proofs.Layer.Inverse

/-!
What the reading of the states leaves of the lines. Each block that is examined takes one
layer off the lines it owns if it is found inactive, and leaves all other lines alone. So when
the reading comes to a block, a line has lost one layer for each block before that owns it
and was found inactive, and the block is found inactive when it owns lines and all of them
can lose one layer more.
-/
namespace CommentToggle.Document

/-- How many of the blocks with these states have taken a layer off the entry. -/
def taken (bs : List Block) (states : List Bool) (e : Line × Text) : Nat :=
  (bs.zip states).countP fun (b, active) => !active && owns b e

theorem taken_cons (b : Block) (bs : List Block) (active : Bool) (states : List Bool)
    (e : Line × Text) : taken (b :: bs) (active :: states) e =
      taken bs states e + if !active && owns b e then 1 else 0 := by
  simp [taken, List.countP_cons]

theorem taken_congr (bs : List Block) (states : List Bool) {e f : Line × Text} (h : f.1 = e.1) :
    taken bs states f = taken bs states e := by
  unfold taken owns
  rw [h]

/-- What is left of the lines once one more block is examined. -/
def examine (s : Style) (p : Peeled) (b : Block) : Peeled :=
  if readsInactive s b p then peel s b p else p

/-- The lines with what the reading has left of them behind the given blocks. -/
def peeledBy (s : Style) (p : Peeled) (bs : List Block) : Peeled :=
  bs.foldl (fun p b => if readsInactive s b p then peel s b p else p) p

section Loop

variable {s : Style} {p : Peeled} {b : Block} {bs : List Block}

theorem readsInactive_iff : readsInactive s b p = true ↔ (∃ e ∈ p, owns b e = true) ∧
    ∀ e ∈ p, owns b e = true → (Layer.strip? s e.2).isSome = true := by
  unfold readsInactive
  simp only [Bool.and_eq_true, Bool.not_eq_true', List.isEmpty_eq_false_iff_exists_mem,
    List.mem_filter, List.all_eq_true, and_imp]

/-- One block takes a layer off what it owns if it is found inactive, and nothing else. -/
theorem exists_examine (s : Style) (p : Peeled) (b : Block) :
    ∃ g : Line × Text → Line × Text, examine s p b = p.map g ∧ ∀ e ∈ p, (g e).1 = e.1 ∧
      Layer.stripTimes? s (if readsInactive s b p && owns b e then 1 else 0) e.2 =
        some (g e).2 := by
  unfold examine
  cases hread : readsInactive s b p with
  | false => exact ⟨id, (List.map_id p).symm, fun e _ => ⟨rfl, rfl⟩⟩
  | true =>
    refine ⟨_, rfl, fun e he => ?_⟩
    cases howns : owns b e with
    | false => exact ⟨rfl, rfl⟩
    | true =>
      have hsome := (readsInactive_iff.mp hread).2 e he howns
      obtain ⟨rest, hrest⟩ := Option.isSome_iff_exists.mp hsome
      simp [Layer.stripTimes?_one, hrest]

theorem statesFrom_cons (s : Style) (p : Peeled) (b : Block) (bs : List Block) :
    statesFrom s p (b :: bs) = (!readsInactive s b p) :: statesFrom s (examine s p b) bs := by
  cases hread : readsInactive s b p <;> simp [statesFrom, examine, hread]

theorem take_statesFrom (s : Style) (p : Peeled) (bs : List Block) (k : Nat) :
    (statesFrom s p bs).take k = statesFrom s p (bs.take k) := by
  induction k generalizing p bs with
  | zero => rfl
  | succ k ih =>
    cases bs with
    | nil => rfl
    | cons b bs =>
      rw [statesFrom_cons, List.take_succ_cons, List.take_succ_cons, statesFrom_cons, ih]

/-- Behind some blocks, the reading goes on with what it has left of the lines. -/
theorem drop_statesFrom (s : Style) (p : Peeled) (bs : List Block) (k : Nat) :
    (statesFrom s p bs).drop k = statesFrom s (peeledBy s p (bs.take k)) (bs.drop k) := by
  induction k generalizing p bs with
  | zero => rfl
  | succ k ih =>
    cases bs with
    | nil => rfl
    | cons b bs =>
      rw [statesFrom_cons, List.drop_succ_cons, List.drop_succ_cons, ih]
      rfl

theorem getElem?_statesFrom {k : Nat} (hb : bs[k]? = some b) :
    (statesFrom s p bs)[k]? = some !readsInactive s b (peeledBy s p (bs.take k)) := by
  obtain ⟨hk, rfl⟩ := List.getElem?_eq_some_iff.mp hb
  have hhead : ((statesFrom s p bs).drop k)[0]? = (statesFrom s p bs)[k]? := by
    rw [List.getElem?_drop, Nat.add_zero]
  rw [← hhead, drop_statesFrom, List.drop_eq_getElem_cons hk, statesFrom_cons,
    List.getElem?_cons_zero]

/-- Behind some blocks, an entry has lost one layer for each of them that owns it and was found
inactive. -/
theorem exists_peeledBy (s : Style) (p : Peeled) (bs : List Block) :
    ∃ g : Line × Text → Line × Text, peeledBy s p bs = p.map g ∧ ∀ e ∈ p, (g e).1 = e.1 ∧
      Layer.stripTimes? s (taken bs (statesFrom s p bs) e) e.2 = some (g e).2 := by
  induction bs generalizing p with
  | nil => exact ⟨id, (List.map_id p).symm, fun e _ => ⟨rfl, rfl⟩⟩
  | cons b bs ih =>
    obtain ⟨first, hfirst, hstep⟩ := exists_examine s p b
    obtain ⟨rest, hrest, hrun⟩ := ih (p.map first)
    refine ⟨rest ∘ first, ?_, fun e he => ?_⟩
    · change peeledBy s (examine s p b) bs = _
      rw [hfirst, hrest, List.map_map]
    · obtain ⟨hline, hstrip⟩ := hstep e he
      obtain ⟨hline', hstrip'⟩ := hrun (first e) (List.mem_map_of_mem he)
      refine ⟨hline'.trans hline, ?_⟩
      rw [taken_congr bs _ hline] at hstrip'
      rw [statesFrom_cons, hfirst, taken_cons, Bool.not_not, Nat.add_comm, Layer.stripTimes?_add,
        hstrip]
      exact hstrip'

theorem map_fst_peeledBy (s : Style) (p : Peeled) (bs : List Block) :
    (peeledBy s p bs).map Prod.fst = p.map Prod.fst := by
  obtain ⟨g, hg, hleft⟩ := exists_peeledBy s p bs
  rw [hg, List.map_map]
  exact List.map_congr_left fun e he => (hleft e he).1

/-- The reading of a list of blocks, at any one of them. -/
theorem statesFrom_false_iff {k : Nat} (hb : bs[k]? = some b) :
    (statesFrom s p bs)[k]? = some false ↔
      (∃ e ∈ p, owns b e = true) ∧ ∀ e ∈ p, owns b e = true →
        (Layer.stripTimes? s (taken (bs.take k) ((statesFrom s p bs).take k) e + 1) e.2).isSome
          = true := by
  obtain ⟨g, hg, hleft⟩ := exists_peeledBy s p (bs.take k)
  have howns : ∀ e ∈ p, owns b (g e) = owns b e := by
    intro e he
    unfold owns
    rw [(hleft e he).1]
  rw [getElem?_statesFrom hb, Option.some_inj, Bool.not_eq_false', readsInactive_iff, hg,
    take_statesFrom]
  simp only [List.mem_map, exists_exists_and_eq_and, forall_exists_index, and_imp,
    forall_apply_eq_imp_iff₂]
  refine and_congr (exists_congr fun e => and_congr_right fun he => ?_)
    (forall₂_congr fun e he => ?_)
  · rw [howns e he]
  · rw [howns e he, Layer.stripTimes?_add, (hleft e he).2, Option.bind_some,
      Layer.stripTimes?_one]

end Loop

/-- The lines as the reading finds them when it comes to position `k`. -/
def peeledBefore (d : Document) (k : Nat) : Peeled :=
  peeledBy d.style (d.lines.map fun l => (l, l.content)) (d.blocks.take k)

theorem drop_states (d : Document) (k : Nat) :
    d.states.drop k = statesFrom d.style (d.peeledBefore k) (d.blocks.drop k) :=
  drop_statesFrom _ _ _ _

theorem map_fst_peeledBefore (d : Document) (k : Nat) :
    (d.peeledBefore k).map Prod.fst = d.lines := by
  rw [peeledBefore, map_fst_peeledBy, List.map_map]
  exact List.map_id d.lines

end CommentToggle.Document
