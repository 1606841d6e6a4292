import CommentToggle.Proofs.Files.Tree
import Mathlib.Data.List.Perm.Subperm

/-!
Where a path leads. A walk and the search for a real path take the same steps; the walk
counts the links it follows, the search remembers those it is in the middle of. A link
that is met while it is being followed would have to take as many steps as itself and one
more, so a walk that arrives never meets one, and the real path is where it arrives. What
the files hold makes no difference to a walk.
-/
namespace CommentToggle

/-- A name that is a step down. -/
def Path.isStep (part : Text) : Bool := !isIdle part && !isUp part

/-- Made of steps down only, as the path of a working folder is. -/
def Path.Plain (p : Path) : Prop := ∀ part ∈ p, isStep part = true

instance (p : Path) : Decidable p.Plain := List.decidableBAll _ _

theorem Path.isStep_iff {part : Text} :
    isStep part = true ↔ isIdle part = false ∧ isUp part = false := by
  simp [isStep]

theorem Path.Plain.base {now : Path} (h : now.Plain) (t : Text) : (Path.base now t).Plain := by
  unfold Path.base
  split
  · exact fun _ hpart => absurd hpart List.not_mem_nil
  · exact h

namespace FileTree

/-- From the folder `now` the parts lead to `p`, with so many links followed. -/
inductive Leads (t : FileTree) : Path → List Text → Path → Nat → Prop
  | arrived (now : Path) : Leads t now [] now 0
  | idle {now p : Path} {part : Text} {rest : List Text} {k : Nat}
      (hidle : Path.isIdle part = true) (hrest : Leads t now rest p k) :
      Leads t now (part :: rest) p k
  | up {now p : Path} {part : Text} {rest : List Text} {k : Nat}
      (hidle : Path.isIdle part = false) (hup : Path.isUp part = true)
      (hrest : Leads t now.dropLast rest p k) : Leads t now (part :: rest) p k
  | down {now p : Path} {part : Text} {rest : List Text} {k : Nat}
      (hstep : Path.isStep part = true)
      (hnode : ∀ target, t.get? (now ++ [part]) ≠ some (.link target))
      (hrest : Leads t (now ++ [part]) rest p k) : Leads t now (part :: rest) p k
  | link {now mid p : Path} {part target : Text} {rest : List Text} {i j : Nat}
      (hstep : Path.isStep part = true) (hnode : t.get? (now ++ [part]) = some (.link target))
      (hlink : Leads t (Path.base now target) (Path.parts target) mid i)
      (hrest : Leads t mid rest p j) : Leads t now (part :: rest) p (i + j + 1)

namespace Leads

variable {t : FileTree} {now p q : Path} {parts : List Text} {k m : Nat}

/-- A way down, through something that is no link or through a link. -/
theorem step_cases {part : Text} {rest : List Text} (hstep : Path.isStep part = true)
    (h : Leads t now (part :: rest) p k) :
    ((∀ target, t.get? (now ++ [part]) ≠ some (.link target)) ∧
      Leads t (now ++ [part]) rest p k) ∨
    ∃ target mid i j, t.get? (now ++ [part]) = some (.link target) ∧
      Leads t (Path.base now target) (Path.parts target) mid i ∧ Leads t mid rest p j ∧
        k = i + j + 1 := by
  obtain ⟨hidle, hup⟩ := Path.isStep_iff.mp hstep
  cases h with
  | idle hidle' => simp [hidle] at hidle'
  | up _ hup' => simp [hup] at hup'
  | down _ hnode hrest => exact Or.inl ⟨hnode, hrest⟩
  | link _ hnode hlink hrest => exact Or.inr ⟨_, _, _, _, hnode, hlink, hrest, rfl⟩

/-- There is one way only, with one number of links. -/
theorem unique (h : Leads t now parts p k) (h' : Leads t now parts q m) : p = q ∧ k = m := by
  induction h generalizing q m with
  | arrived now =>
    cases h'
    exact ⟨rfl, rfl⟩
  | idle hidle _ ih =>
    cases h' with
    | idle _ hrest => exact ih hrest
    | up hnot => simp [hidle] at hnot
    | down hstep => simp [(Path.isStep_iff.mp hstep).1] at hidle
    | link hstep => simp [(Path.isStep_iff.mp hstep).1] at hidle
  | up hidle hup _ ih =>
    cases h' with
    | idle hnot => simp [hidle] at hnot
    | up _ _ hrest => exact ih hrest
    | down hstep => simp [(Path.isStep_iff.mp hstep).2] at hup
    | link hstep => simp [(Path.isStep_iff.mp hstep).2] at hup
  | down hstep hnode _ ih =>
    rcases step_cases hstep h' with ⟨-, hrest⟩ | ⟨target, -, -, -, hlink, -⟩
    · exact ih hrest
    · exact absurd hlink (hnode target)
  | link hstep hnode _ _ ihlink ihrest =>
    rcases step_cases hstep h' with ⟨hnot, -⟩ | ⟨target, mid, i, j, hnode', hlink, hrest, rfl⟩
    · exact absurd hnode (hnot _)
    · rw [hnode, Option.some.injEq, Node.link.injEq] at hnode'
      subst hnode'
      obtain ⟨rfl, rfl⟩ := ihlink hlink
      obtain ⟨rfl, rfl⟩ := ihrest hrest
      exact ⟨rfl, rfl⟩

/-- The way along two lists of parts goes by a place between them. -/
theorem split {front rest : List Text} (h : Leads t now (front ++ rest) p k) :
    ∃ mid i j, Leads t now front mid i ∧ Leads t mid rest p j ∧ k = i + j := by
  induction front generalizing now k with
  | nil => exact ⟨now, 0, k, .arrived now, h, (Nat.zero_add k).symm⟩
  | cons part front ih =>
    cases h with
    | idle hidle hrest =>
      obtain ⟨mid, i, j, hfront, hrest, hk⟩ := ih hrest
      exact ⟨mid, i, j, .idle hidle hfront, hrest, hk⟩
    | up hidle hup hrest =>
      obtain ⟨mid, i, j, hfront, hrest, hk⟩ := ih hrest
      exact ⟨mid, i, j, .up hidle hup hfront, hrest, hk⟩
    | down hstep hnode hrest =>
      obtain ⟨mid, i, j, hfront, hrest, hk⟩ := ih hrest
      exact ⟨mid, i, j, .down hstep hnode hfront, hrest, hk⟩
    | link hstep hnode hlink hbeyond =>
      obtain ⟨mid, i, j, hfront, hrest, rfl⟩ := ih hbeyond
      exact ⟨mid, _, j, .link hstep hnode hlink hfront, hrest, by omega⟩

theorem plain (h : Leads t now parts p k) (hnow : now.Plain) : p.Plain := by
  have hbelow : ∀ {q : Path} {part : Text}, q.Plain → Path.isStep part = true →
      Path.Plain (q ++ [part]) := by
    intro q part hq hpart other hother
    rcases List.mem_append.mp hother with hother | hother
    · exact hq other hother
    · rw [List.mem_singleton.mp hother]
      exact hpart
  induction h with
  | arrived now => exact hnow
  | idle _ _ ih => exact ih hnow
  | up _ _ _ ih => exact ih fun part hpart => hnow part ((List.dropLast_sublist _).subset hpart)
  | down hstep _ _ ih => exact ih (hbelow hnow hstep)
  | @link now _ _ _ target _ _ _ _ _ _ _ ihlink ihrest =>
    exact ihrest (ihlink (hnow.base target))

end Leads

def Place.path : Place → Path
  | .node p _ => p
  | .vacant p => p

theorem leads_of_walkBy {t : FileTree} {jump : Path → List Text → Except FileCause Place}
    (hjump : ∀ now parts place, jump now parts = .ok place → ∃ k, Leads t now parts place.path k)
    {now : Path} {parts : List Text} {place : Place} (h : t.walkBy jump now parts = .ok place) :
    ∃ k, Leads t now parts place.path k := by
  fun_induction walkBy t jump now parts with
  | case1 now =>
    cases h
    exact ⟨0, .arrived now⟩
  | case2 now part rest hidle ih =>
    obtain ⟨k, hk⟩ := ih h
    exact ⟨k, .idle hidle hk⟩
  | case3 now part rest hidle hup ih =>
    obtain ⟨k, hk⟩ := ih h
    exact ⟨k, .up (by simpa using hidle) hup hk⟩
  | case4 now part rest hidle hup hlong => cases h
  | case5 now part rest hidle hup hlong hnode hrest =>
    cases h
    rw [List.isEmpty_iff] at hrest
    subst hrest
    exact ⟨0, .down (by simp [Path.isStep, hidle, hup]) (by simp [hnode]) (.arrived _)⟩
  | case6 now part rest hidle hup hlong hnode hrest => cases h
  | case7 now part rest hidle hup hlong hnode ih =>
    obtain ⟨k, hk⟩ := ih h
    exact ⟨k, .down (by simp [Path.isStep, hidle, hup]) (by simp [hnode]) hk⟩
  | case8 now part rest hidle hup hlong bytes mode hnode hrest =>
    cases h
    rw [List.isEmpty_iff] at hrest
    subst hrest
    exact ⟨0, .down (by simp [Path.isStep, hidle, hup]) (by simp [hnode]) (.arrived _)⟩
  | case9 now part rest hidle hup hlong bytes mode hnode hrest => cases h
  | case10 now part rest hidle hup hlong target hnode =>
    obtain ⟨k, hk⟩ := hjump _ _ _ h
    obtain ⟨mid, i, j, hlink, hrest, -⟩ := hk.split
    exact ⟨i + j + 1, .link (by simp [Path.isStep, hidle, hup]) hnode hlink hrest⟩

/-- A walk that arrives has a way. -/
theorem leads_of_walk {t : FileTree} {links : Nat} {now : Path} {parts : List Text}
    {place : Place} (h : t.walk links now parts = .ok place) :
    ∃ k, Leads t now parts place.path k := by
  induction links generalizing now parts place with
  | zero => exact leads_of_walkBy (fun _ _ _ hjump => by cases hjump) h
  | succ left ih => exact leads_of_walkBy (fun _ _ _ hjump => ih hjump) h

/-- The search is in the middle of the links `visiting`, each of which takes at least as
many links as are still to come, and it has depth left for all others. -/
structure Pending (t : FileTree) (k depth : Nat) (visiting : List Path) : Prop where
  distinct : visiting.Nodup
  enough : depth + visiting.length = t.linkCount + 1
  outer : ∀ p ∈ visiting, ∃ now part target mid i, p = now ++ [part] ∧
    t.get? p = some (.link target) ∧ Leads t (Path.base now target) (Path.parts target) mid i ∧ k ≤ i

namespace Pending

variable {t : FileTree} {k depth : Nat} {visiting : List Path}

theorem start (t : FileTree) (k : Nat) : Pending t k (t.linkCount + 1) [] :=
  ⟨List.nodup_nil, rfl, by simp⟩

theorem mono (h : Pending t k depth visiting) {j : Nat} (hj : j ≤ k) :
    Pending t j depth visiting := by
  refine ⟨h.distinct, h.enough, fun p hp => ?_⟩
  obtain ⟨now, part, target, mid, i, heq, hnode, hlink, hle⟩ := h.outer p hp
  exact ⟨now, part, target, mid, i, heq, hnode, hlink, Nat.le_trans hj hle⟩

/-- A link that takes fewer links is not being followed yet. -/
theorem not_mem (h : Pending t k depth visiting) {now mid : Path} {part target : Text} {i : Nat}
    (hnode : t.get? (now ++ [part]) = some (.link target))
    (hlink : Leads t (Path.base now target) (Path.parts target) mid i) (hlt : i < k) :
    now ++ [part] ∉ visiting := by
  intro hmem
  obtain ⟨now', part', target', mid', i', heq, hnode', hlink', hle⟩ := h.outer _ hmem
  obtain ⟨rfl, -⟩ := List.append_inj' heq rfl
  rw [hnode, Option.some.injEq, Node.link.injEq] at hnode'
  subst hnode'
  obtain ⟨-, rfl⟩ := hlink.unique hlink'
  omega

/-- There is depth left as long as there are links left. -/
theorem depth_pos (h : Pending t k depth visiting) : 0 < depth := by
  have hle : visiting.length ≤ t.linkCount := by
    rw [linkCount, List.countP_eq_length_filter,
      ← @List.length_map _ _ (t.entries.filter _) Prod.fst]
    refine (List.subperm_of_subset h.distinct fun p hp => ?_).length_le
    obtain ⟨now, part, target, -, -, rfl, hnode, -⟩ := h.outer p hp
    refine List.mem_map.mpr ⟨(now ++ [part], .link target), ?_, rfl⟩
    exact List.mem_filter.mpr ⟨mem_of_get? hnode (by simp), rfl⟩
  have henough := h.enough
  omega

theorem enter {left : Nat} (h : Pending t k (left + 1) visiting) {now mid : Path}
    {part target : Text} {i : Nat} (hnode : t.get? (now ++ [part]) = some (.link target))
    (hlink : Leads t (Path.base now target) (Path.parts target) mid i) (hlt : i < k) :
    Pending t i left ((now ++ [part]) :: visiting) := by
  refine ⟨List.nodup_cons.mpr ⟨h.not_mem hnode hlink hlt, h.distinct⟩, ?_, fun p hp => ?_⟩
  · have henough := h.enough
    rw [List.length_cons]
    omega
  · rcases List.mem_cons.mp hp with rfl | hp
    · exact ⟨now, part, target, mid, i, rfl, hnode, hlink, Nat.le_refl i⟩
    · exact (h.mono (Nat.le_of_lt hlt)).outer p hp

end Pending

theorem follow_succ (t : FileTree) (left : Nat) :
    t.follow (left + 1) = t.followBy (t.follow left) := rfl

/-- The search for a real path takes the way there is. -/
theorem follow_of_leads {t : FileTree} {now p : Path} {parts : List Text} {k : Nat}
    (h : Leads t now parts p k) {depth : Nat} {visiting : List Path}
    (hpending : Pending t k depth visiting) : t.follow depth visiting now parts = (p, true) := by
  induction h generalizing depth visiting with
  | arrived now => cases depth <;> rfl
  | idle hidle _ ih =>
    obtain ⟨left, rfl⟩ := Nat.exists_eq_succ_of_ne_zero (Nat.ne_of_gt hpending.depth_pos)
    rw [follow_succ, followBy, if_pos hidle]
    exact ih hpending
  | up hidle hup _ ih =>
    obtain ⟨left, rfl⟩ := Nat.exists_eq_succ_of_ne_zero (Nat.ne_of_gt hpending.depth_pos)
    rw [follow_succ, followBy, if_neg (by simp [hidle]), if_pos hup]
    exact ih hpending
  | @down now p part rest k hstep hnode _ ih =>
    obtain ⟨left, rfl⟩ := Nat.exists_eq_succ_of_ne_zero (Nat.ne_of_gt hpending.depth_pos)
    obtain ⟨hidle, hup⟩ := Path.isStep_iff.mp hstep
    rw [follow_succ, followBy, if_neg (by simp [hidle]), if_neg (by simp [hup])]
    have hrest := ih hpending
    cases hget : t.get? (now ++ [part]) with
    | none =>
      simp only [hget]
      exact hrest
    | some n =>
      cases n with
      | file raw mode =>
        simp only [hget]
        exact hrest
      | link target => exact absurd hget (hnode target)
      | folder =>
        simp only [hget]
        exact hrest
  | @link now mid p part target rest i j hstep hnode hlink _ ihlink ihrest =>
    obtain ⟨left, rfl⟩ := Nat.exists_eq_succ_of_ne_zero (Nat.ne_of_gt hpending.depth_pos)
    obtain ⟨hidle, hup⟩ := Path.isStep_iff.mp hstep
    rw [follow_succ, followBy, if_neg (by simp [hidle]), if_neg (by simp [hup])]
    have hmem := hpending.not_mem hnode hlink (by omega)
    have hmid := ihlink (hpending.enter hnode hlink (by omega))
    have hrest := ihrest (hpending.mono (by omega))
    simp only [hnode, if_neg hmem, hmid]
    exact hrest

theorem straighten_of_plain {p : Path} (h : p.Plain) : straighten p = p := by
  have hfold : ∀ (q p : Path), p.Plain → p.foldl (fun p part =>
      if Path.isIdle part then p else if Path.isUp part then p.dropLast else p ++ [part]) q =
        q ++ p := by
    intro q p
    induction p generalizing q with
    | nil => simp
    | cons part p ih =>
      intro hp
      obtain ⟨hidle, hup⟩ := Path.isStep_iff.mp (hp part (by simp))
      rw [List.foldl_cons, if_neg (by simp [hidle]), if_neg (by simp [hup]),
        ih _ fun other hother => hp other (List.mem_cons_of_mem part hother)]
      simp
  exact hfold [] p h

theorem locate_eq_ok_iff {t : FileTree} {path : Text} {place : Place} :
    t.locate path = .ok place ↔ path.contains '\x00' = false ∧ path ≠ [] ∧
      byteCount path ≤ pathLimit ∧ t.walk linkLimit (t.origin path) (Path.parts path) = .ok place := by
  unfold locate
  cases hnull : path.contains '\x00' with
  | true => simp only [if_true, reduceCtorEq, Bool.true_eq_false, false_and]
  | false =>
    by_cases hempty : path = []
    · simp [hempty]
    · by_cases hlong : pathLimit < byteCount path
      · simp [hempty, hlong, Nat.not_le.mpr hlong]
      · simp [hempty, hlong, Nat.not_lt.mp hlong]

theorem find_eq_ok_iff {t : FileTree} {path : Text} {p : Path} {n : Node} :
    t.find path = .ok (p, n) ↔ t.locate path = .ok (.node p n) := by
  unfold find
  cases hlocate : t.locate path with
  | error cause => simp [bind, Except.bind]
  | ok place =>
    cases place with
    | node q m => simp [bind, Except.bind, pure, Except.pure]
    | vacant q => simp [bind, Except.bind]

/-- The real path of a path that leads to something is where it leads. -/
theorem realPath_of_find {t : FileTree} (hhere : t.here.Plain) {path : Text} {p : Path}
    {n : Node} (h : t.find path = .ok (p, n)) : t.realPath path = p := by
  obtain ⟨-, -, -, hwalk⟩ := locate_eq_ok_iff.mp (find_eq_ok_iff.mp h)
  obtain ⟨k, hk⟩ := leads_of_walk hwalk
  unfold realPath
  rw [follow_of_leads hk (.start t k)]
  exact straighten_of_plain (hk.plain (hhere.base path))

theorem get?_of_walkBy {t : FileTree} {jump : Path → List Text → Except FileCause Place}
    {p : Path} {raw : Bytes} {mode : Nat}
    (hjump : ∀ now parts, jump now parts = .ok (.node p (.file raw mode)) →
      t.get? p = some (.file raw mode))
    {now : Path} {parts : List Text} (h : t.walkBy jump now parts = .ok (.node p (.file raw mode))) :
    t.get? p = some (.file raw mode) := by
  fun_induction walkBy t jump now parts with
  | case8 now part rest hidle hup hlong bytes mode' hnode hrest =>
    cases h
    exact hnode
  | case2 now part rest hidle ih => exact ih h
  | case3 now part rest hidle hup ih => exact ih h
  | case7 now part rest hidle hup hlong hnode ih => exact ih h
  | case10 now part rest hidle hup hlong target hnode => exact hjump _ _ h
  | _ => cases h

theorem get?_of_walk {t : FileTree} {links : Nat} {now p : Path} {parts : List Text}
    {raw : Bytes} {mode : Nat} (h : t.walk links now parts = .ok (.node p (.file raw mode))) :
    t.get? p = some (.file raw mode) := by
  induction links generalizing now parts with
  | zero => exact get?_of_walkBy (fun _ _ hjump => by cases hjump) h
  | succ left ih => exact get?_of_walkBy (fun _ _ hjump => ih hjump) h

theorem get?_of_find {t : FileTree} {path : Text} {p : Path} {raw : Bytes} {mode : Nat}
    (h : t.find path = .ok (p, .file raw mode)) : t.get? p = some (.file raw mode) := by
  obtain ⟨-, -, -, hwalk⟩ := locate_eq_ok_iff.mp (find_eq_ok_iff.mp h)
  exact get?_of_walk hwalk

/-- The same place in another tree, with what a file holds there. -/
def Place.within (u : FileTree) : Place → Place
  | .node p (.file raw mode) => .node p ((u.get? p).getD (.file raw mode))
  | other => other

namespace Alike

variable {t u : FileTree}

theorem walkBy (h : Alike t u) {jump jump' : Path → List Text → Except FileCause Place}
    (hjump : ∀ now parts, jump' now parts = (jump now parts).map (Place.within u))
    (now : Path) (parts : List Text) :
    u.walkBy jump' now parts = (t.walkBy jump now parts).map (Place.within u) := by
  fun_induction FileTree.walkBy t jump now parts with
  | case1 now => rfl
  | case2 now part rest hidle ih =>
    rw [FileTree.walkBy, if_pos hidle]
    exact ih
  | case3 now part rest hidle hup ih =>
    rw [FileTree.walkBy, if_neg hidle, if_pos hup]
    exact ih
  | case4 now part rest hidle hup hlong =>
    rw [FileTree.walkBy, if_neg hidle, if_neg hup, if_pos hlong]
    rfl
  | case5 now part rest hidle hup hlong hnode hrest =>
    rw [FileTree.walkBy, if_neg hidle, if_neg hup, if_neg hlong, h.get?_none hnode]
    simp only [hrest, if_true]
    rfl
  | case6 now part rest hidle hup hlong hnode hrest =>
    rw [FileTree.walkBy, if_neg hidle, if_neg hup, if_neg hlong, h.get?_none hnode]
    simp only [hrest]
    rfl
  | case7 now part rest hidle hup hlong hnode ih =>
    rw [FileTree.walkBy, if_neg hidle, if_neg hup, if_neg hlong, h.get?_folder hnode]
    exact ih
  | case8 now part rest hidle hup hlong bytes mode hnode hrest =>
    obtain ⟨bytes', mode', hnode'⟩ := h.get?_file hnode
    rw [FileTree.walkBy, if_neg hidle, if_neg hup, if_neg hlong, hnode']
    simp only [hrest, if_true]
    simp [Except.map, Place.within, hnode']
  | case9 now part rest hidle hup hlong bytes mode hnode hrest =>
    obtain ⟨bytes', mode', hnode'⟩ := h.get?_file hnode
    rw [FileTree.walkBy, if_neg hidle, if_neg hup, if_neg hlong, hnode']
    simp only [hrest]
    rfl
  | case10 now part rest hidle hup hlong target hnode =>
    rw [FileTree.walkBy, if_neg hidle, if_neg hup, if_neg hlong, h.get?_link hnode]
    exact hjump _ _

/-- A walk does not look into files. -/
theorem walk (h : Alike t u) (links : Nat) (now : Path) (parts : List Text) :
    u.walk links now parts = (t.walk links now parts).map (Place.within u) := by
  induction links generalizing now parts with
  | zero =>
    have hnone : ∀ (now : Path) (parts : List Text), (Except.error FileCause.tooManyLinks) =
        Except.map (Place.within u) (Except.error FileCause.tooManyLinks) := fun _ _ => rfl
    exact h.walkBy hnone now parts
  | succ left ih => exact h.walkBy ih now parts

theorem locate (h : Alike t u) (path : Text) :
    u.locate path = (t.locate path).map (Place.within u) := by
  have horigin : u.origin path = t.origin path := by
    unfold origin
    rw [h.here]
  unfold FileTree.locate
  rw [horigin, h.walk]
  split_ifs <;> rfl

end Alike

end FileTree

end CommentToggle
