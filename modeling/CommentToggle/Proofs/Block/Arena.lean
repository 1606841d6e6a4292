import CommentToggle.Proofs.Block.Nesting

/-!
The blocks of a document taken together. A block knows its own position, no two
blocks of one scope share a name, an exclusive block has no condition, and blocks
whose ranges meet are nested.
-/
namespace CommentToggle.Block

/-- What a block keeps from its directive for good. -/
structure Label where
  index : Nat
  parent : Option Nat
  group : Text
  exclusive : Bool
  condition : List Term

def label (b : Block) : Label := ⟨b.index, b.parent, b.group, b.exclusive, b.condition⟩

def labels (bs : List Block) : List Label := bs.map label

namespace Forming

theorem labels_ended (bs : List Block) (i line : Nat) : labels (ended bs i line) = labels bs := by
  apply List.ext_getElem?
  intro k
  simp only [labels, List.getElem?_map]
  exact map_getElem?_modify label (f := fun b => { b with last := line - 1 }) (fun _ => rfl) bs i k

theorem labels_grown (f : Forming) (d : Directive) (first last : Nat) :
    labels (f.grown d first last) = labels f.blocks ++ [(f.fresh d first last).label] := by
  apply List.ext_getElem?
  intro k
  simp only [labels, List.getElem?_map, map_getElem?_grown f d first last label (fun _ _ => rfl)]
  split
  · rename_i h
    rw [List.getElem?_append_right (by simp [h])]
    simp [h]
  · rename_i h
    by_cases hk : k < f.blocks.length
    · rw [List.getElem?_append_left (by simpa using hk), List.getElem?_map]
    · rw [List.getElem?_append_right (by simp; omega), List.getElem?_eq_none (by omega)]
      have hpos : k - f.blocks.length ≠ 0 := by omega
      simp [hpos]

/-- Positions, names and origins of the blocks formed so far. -/
structure Labelled (ds : List Directive) (f : Forming) : Prop where
  index : ∀ k (a : Label), (labels f.blocks)[k]? = some a → a.index = k
  siblings : (labels f.blocks).Pairwise fun a b => a.parent = b.parent → a.group ≠ b.group
  origin : ∀ a ∈ labels f.blocks, ∃ d ∈ ds, d.kind ≠ .closing ∧ d.group = a.group ∧
    d.exclusive = a.exclusive ∧ d.condition = a.condition

theorem labelled_start (ds : List Directive) : Labelled ds start where
  index := by simp [start, labels]
  siblings := by simp [start, labels]
  origin := by simp [start, labels]

theorem Labelled.grow {ds : List Directive} {f : Forming} (h : Labelled ds f) {d : Directive}
    (hd : d ∈ ds) (hkind : d.kind ≠ .closing) (hnew : f.hasSibling d.group = false)
    (first last : Nat) (os : List Nat) : Labelled ds ⟨f.grown d first last, os⟩ where
  index := by
    intro k a ha
    simp only [labels_grown] at ha
    by_cases hk : k < (labels f.blocks).length
    · rw [List.getElem?_append_left hk] at ha
      exact h.index k a ha
    · rw [List.getElem?_append_right (by omega)] at ha
      have hzero : k - (labels f.blocks).length = 0 := by
        have hlt := (List.getElem?_eq_some_iff.mp ha).1
        simp only [List.length_singleton] at hlt
        omega
      rw [hzero] at ha
      simp only [List.getElem?_cons_zero, Option.some.injEq] at ha
      subst ha
      have hlen : (labels f.blocks).length = f.blocks.length := List.length_map _
      simp only [label, fresh]
      omega
  siblings := by
    simp only [labels_grown]
    rw [List.pairwise_append]
    refine ⟨h.siblings, by simp, ?_⟩
    intro a ha b hb hparent hgroup
    rw [List.mem_singleton] at hb
    subst hb
    obtain ⟨c, hc, rfl⟩ := List.mem_map.mp ha
    have hany := List.any_eq_false.mp hnew c hc
    simp only [label, fresh] at hparent hgroup
    simp [hparent, hgroup] at hany
  origin := by
    intro a ha
    simp only [labels_grown, List.mem_append, List.mem_singleton] at ha
    rcases ha with ha | rfl
    · exact h.origin a ha
    · exact ⟨d, hd, hkind, rfl, rfl, rfl⟩

theorem Labelled.step {ls : List Line} {ds : List Directive} {f g : Forming} {d : Directive}
    (h : Labelled ds f) (hd : d ∈ ds) (hstep : step ls f d = .ok g) : Labelled ds g := by
  rcases step_cases hstep with ⟨hkind, hnew, rfl⟩ | ⟨-, i, outer, -, rfl⟩ | ⟨hkind, hnew, -, rfl⟩
  · exact h.grow hd (by simp [hkind]) hnew _ _ _
  · refine ⟨?_, ?_, ?_⟩ <;> simp only [labels_ended]
    · exact h.index
    · exact h.siblings
    · exact h.origin
  · exact h.grow hd (by simp [hkind]) hnew _ _ _

theorem Labelled.run {ls : List Line} {ds es : List Directive} {f g : Forming}
    (h : Labelled ds f) (hsub : ∀ d ∈ es, d ∈ ds)
    (hrun : es.foldlM (Forming.step ls) f = .ok g) : Labelled ds g := by
  induction es generalizing f with
  | nil =>
    cases hrun
    exact h
  | cons d es ih =>
    rw [List.foldlM_cons] at hrun
    obtain ⟨next, hstep, hrest⟩ := Outcome.bind_eq_ok_iff.mp hrun
    exact ih (h.step (hsub d (by simp)) hstep) (fun e he => hsub e (List.mem_cons_of_mem d he))
      hrest

theorem openBlocks_eq_nil {f : Forming} (hvalid : ∀ o ∈ f.opened, o < f.blocks.length)
    (h : f.openBlocks = []) : f.opened = [] := by
  unfold openBlocks at h
  rw [List.filterMap_eq_nil_iff] at h
  cases hopened : f.opened with
  | nil => rfl
  | cons o rest =>
    have ho : o ∈ f.opened := by rw [hopened]; simp
    have hnone := h o ho
    rw [List.getElem?_eq_none_iff] at hnone
    have hlt := hvalid o ho
    omega

end Forming

/-- The blocks of a well-formed document. -/
structure Arena (bs : List Block) : Prop where
  index : ∀ (k : Nat) (b : Block), bs[k]? = some b → b.index = k
  siblings : ∀ (j k : Nat) (b c : Block), bs[j]? = some b → bs[k]? = some c → b.parent = c.parent →
    b.group = c.group → j = k
  plain : ∀ b ∈ bs, b.exclusive = true → b.condition = []
  nested : ∀ (j k : Nat) (b c : Block), j < k → bs[j]? = some b → bs[k]? = some c →
    b.last < c.first ∨ (b.first ≤ c.first ∧ c.last ≤ b.last ∧
      ∃ i ∈ b.children, ∃ e : Block, bs[i]? = some e ∧ e.first ≤ c.first ∧ c.last ≤ e.last)

theorem resolve_eq_ok_iff {ls : List Line} {ds : List Directive} {bs : List Block} :
    resolve ls ds = .ok bs ↔ ∃ f, ds.foldlM (Forming.step ls) .start = .ok f ∧
      f.openBlocks = [] ∧ (∀ b ∈ f.blocks, hasOwnLine ls f.blocks b = true) ∧ bs = f.blocks := by
  unfold resolve
  rw [Outcome.bind_eq_ok_iff]
  constructor
  · intro h
    obtain ⟨f, hrun, hrest⟩ := h
    refine ⟨f, hrun, ?_⟩
    cases hopen : f.openBlocks with
    | cons b rest => simp [hopen] at hrest
    | nil =>
      simp only [hopen] at hrest
      split at hrest
      · simp at hrest
      · rename_i hnone
        rw [List.find?_eq_none] at hnone
        refine ⟨rfl, fun b hb => ?_, ?_⟩
        · simpa using hnone b hb
        · cases hrest
          rfl
  · intro h
    obtain ⟨f, hrun, hopen, hown, rfl⟩ := h
    refine ⟨f, hrun, ?_⟩
    have hnone : f.blocks.find? (fun b => !hasOwnLine ls f.blocks b) = none := by
      rw [List.find?_eq_none]
      intro b hb
      simp [hown b hb]
    simp only [hopen, hnone]

/-- A block has its name from a directive that is no closing. -/
theorem origin_of_resolve {ls : List Line} {ds : List Directive} {bs : List Block}
    (h : resolve ls ds = .ok bs) {b : Block} (hb : b ∈ bs) :
    ∃ d ∈ ds, d.kind ≠ .closing ∧ d.group = b.group := by
  obtain ⟨f, hrun, -, -, rfl⟩ := resolve_eq_ok_iff.mp h
  have hlabelled := (Forming.labelled_start ds).run (fun d hd => hd) hrun
  obtain ⟨d, hd, hkind, hgroup, -⟩ := hlabelled.origin b.label (List.mem_map_of_mem hb)
  exact ⟨d, hd, hkind, hgroup⟩

theorem arena_of_resolve {ls : List Line} {ds : List Directive} {bs : List Block}
    (hordered : Forming.Ordered ls ds)
    (hplain : ∀ d ∈ ds, d.kind ≠ .closing → d.exclusive = true → d.condition = [])
    (h : resolve ls ds = .ok bs) : Arena bs := by
  obtain ⟨f, hrun, hopen, -, rfl⟩ := resolve_eq_ok_iff.mp h
  obtain ⟨n, hnested⟩ := Forming.nested_start.run hordered (fun d _ => Nat.zero_le _) hrun
  have hlabelled := (Forming.labelled_start ds).run (fun d hd => hd) hrun
  have hclosed : f.opened = [] := Forming.openBlocks_eq_nil hnested.valid hopen
  have hlabel {k : Nat} {b : Block} (hb : f.blocks[k]? = some b) :
      (labels f.blocks)[k]? = some b.label := by simp [labels, hb]
  refine ⟨?_, ?_, ?_, ?_⟩
  · exact fun k b hb => hlabelled.index k _ (hlabel hb)
  · intro j k b c hb hc hparent hgroup
    have hpair := List.pairwise_iff_getElem.mp hlabelled.siblings
    obtain ⟨hj, hbj⟩ := List.getElem?_eq_some_iff.mp (hlabel hb)
    obtain ⟨hk, hck⟩ := List.getElem?_eq_some_iff.mp (hlabel hc)
    by_contra hne
    rcases Nat.lt_or_gt_of_ne hne with hlt | hlt
    · have hclash := hpair j k hj hk hlt
      rw [hbj, hck] at hclash
      exact hclash hparent hgroup
    · have hclash := hpair k j hk hj hlt
      rw [hbj, hck] at hclash
      exact hclash hparent.symm hgroup.symm
  · intro b hb hexclusive
    obtain ⟨d, hd, hkind, -, hex, hcond⟩ := hlabelled.origin b.label (List.mem_map_of_mem hb)
    exact hcond.symm.trans (hplain d hd hkind (hex.trans hexclusive))
  · intro j k b c hjk hb hc
    have hk : k < f.blocks.length := (List.getElem?_eq_some_iff.mp hc).1
    have hbehind := hnested.behind j k hjk hk (by rw [hclosed]; simp)
    rw [lastOf_eq hb, firstOf_eq hc, childrenOf_eq hb] at hbehind
    rcases hbehind with hlt | ⟨-, hin, i, hi, hik, hcovers⟩
    · exact Or.inl hlt
    · right
      obtain ⟨e, he⟩ : ∃ e, f.blocks[i]? = some e :=
        ⟨f.blocks[i], List.getElem?_eq_getElem (by omega)⟩
      unfold Covers at hin hcovers
      rw [firstOf_eq hb, lastOf_eq hb, firstOf_eq hc, lastOf_eq hc] at hin
      rw [firstOf_eq he, lastOf_eq he, firstOf_eq hc, lastOf_eq hc] at hcovers
      exact ⟨hin.1, hin.2, i, hi, e, he, hcovers⟩

theorem Arena.getElem?_index {bs : List Block} (h : Arena bs) {b : Block} (hb : b ∈ bs) :
    bs[b.index]? = some b := by
  obtain ⟨k, hk⟩ := List.mem_iff_getElem?.mp hb
  rwa [h.index k b hk]

theorem Arena.eq_of_index {bs : List Block} (h : Arena bs) {b c : Block} (hb : b ∈ bs)
    (hc : c ∈ bs) (heq : b.index = c.index) : b = c := by
  have hget := h.getElem?_index hb
  rw [heq, h.getElem?_index hc, Option.some.injEq] at hget
  exact hget.symm

theorem Arena.mem_take_iff {bs : List Block} (h : Arena bs) {k : Nat} {b : Block} :
    b ∈ bs.take k ↔ b ∈ bs ∧ b.index < k := by
  constructor
  · intro hb
    obtain ⟨i, hi⟩ := List.mem_iff_getElem?.mp hb
    rw [List.getElem?_take] at hi
    split at hi
    · rename_i hlt
      rw [h.index i b hi]
      exact ⟨List.mem_of_getElem? hi, hlt⟩
    · simp at hi
  · rintro ⟨hb, hlt⟩
    have hget := h.getElem?_index hb
    rw [← List.getElem?_take_of_lt hlt] at hget
    exact List.mem_of_getElem? hget

theorem Arena.increasing {bs : List Block} (h : Arena bs) : bs.Pairwise (·.index < ·.index) := by
  rw [List.pairwise_iff_getElem]
  intro i j hi hj hij
  rwa [h.index i _ (List.getElem?_eq_getElem hi), h.index j _ (List.getElem?_eq_getElem hj)]

theorem Arena.pairwise_index {bs : List Block} (h : Arena bs) :
    bs.Pairwise fun b c => b.index ≠ c.index :=
  h.increasing.imp Nat.ne_of_lt

/-- A line of a block that is in none of its children is in no later block. -/
theorem Arena.not_contains_later {bs : List Block} (h : Arena bs) {j k : Nat} {b c : Block}
    (hjk : j < k) (hb : bs[j]? = some b) (hc : bs[k]? = some c) {i : Nat}
    (hin : b.contains i = true) (hown : b.nests bs i = false) : c.contains i = false := by
  by_contra hcontains
  simp only [Bool.not_eq_false] at hcontains
  simp only [contains, Bool.and_eq_true, decide_eq_true_eq] at hin hcontains
  rcases h.nested j k b c hjk hb hc with hlt | ⟨-, -, m, hm, e, he, hfirst, hlast⟩
  · omega
  · have hnot := List.any_eq_false.mp hown m hm
    rw [he] at hnot
    simp only [Option.any_some, contains, Bool.not_eq_true, Bool.and_eq_false_iff,
      decide_eq_false_iff_not] at hnot
    omega

/-- One block lies around another that comes later. -/
structure Encloses (b c : Block) : Prop where
  before : b.index < c.index
  first_le : b.first ≤ c.first
  last_le : c.last ≤ b.last

instance (b c : Block) : Decidable (b.Encloses c) :=
  decidable_of_iff (b.index < c.index ∧ b.first ≤ c.first ∧ c.last ≤ b.last)
    ⟨fun h => ⟨h.1, h.2.1, h.2.2⟩, fun h => ⟨h.1, h.2, h.3⟩⟩

theorem Encloses.trans {b c e : Block} (h : b.Encloses c) (h' : c.Encloses e) : b.Encloses e where
  before := Nat.lt_trans h.before h'.before
  first_le := Nat.le_trans h.first_le h'.first_le
  last_le := Nat.le_trans h'.last_le h.last_le

theorem Encloses.contains {b c : Block} (h : b.Encloses c) {i : Nat}
    (hin : c.contains i = true) : b.contains i = true := by
  have hfirst := h.first_le
  have hlast := h.last_le
  simp only [Block.contains, Bool.and_eq_true, decide_eq_true_eq] at hin ⊢
  omega

/-- A block that shares a line with a later one lies around it. -/
theorem Arena.encloses_of_contains {bs : List Block} (h : Arena bs) {b c : Block} (hb : b ∈ bs)
    (hc : c ∈ bs) (hbefore : b.index < c.index) {i : Nat} (hin : b.contains i = true)
    (hin' : c.contains i = true) : b.Encloses c := by
  simp only [contains, Bool.and_eq_true, decide_eq_true_eq] at hin hin'
  rcases h.nested _ _ b c hbefore (h.getElem?_index hb) (h.getElem?_index hc) with
    hlt | ⟨hfirst, hlast, -⟩
  · omega
  · exact ⟨hbefore, hfirst, hlast⟩

end CommentToggle.Block
