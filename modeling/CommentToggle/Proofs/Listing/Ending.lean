import CommentToggle.Proofs.Listing.Indentation
import Mathlib.Data.List.Perm.Subperm

/-!
The indentation of a row is counted by following names: from the name of the parent to the
first group of that name, to the name of its parent, and so on until a group has none. On
groups of any kind this may go round for ever, and it does exactly when no end is found
within one step more than there are groups. On the groups of a text it ends, since a parent
opens before its child and the first block of a name no later than any other.
-/
namespace CommentToggle

namespace Listing

variable {gs : List GroupInfo} {p : Option Text} {m n : Nat}

/-- Following names from a parent name ends, with the number of steps. -/
inductive Ends (gs : List GroupInfo) : Option Text → Nat → Prop
  | root : Ends gs none 0
  | named {name : Text} {n : Nat} : Ends gs (parentOf gs name) n → Ends gs (some name) (n + 1)

theorem Ends.unique (h : Ends gs p m) (h' : Ends gs p n) : m = n := by
  induction h generalizing n with
  | root => cases h'; rfl
  | named _ ih =>
    cases h' with
    | named h' => rw [ih h']

theorem depthWithin?_eq_some_iff : depthWithin? gs n p = some m ↔ Ends gs p m ∧ m ≤ n := by
  constructor
  · intro h
    fun_induction depthWithin? gs n p generalizing m with
    | case1 n =>
      obtain rfl := Option.some.inj h
      exact ⟨.root, Nat.zero_le n⟩
    | case2 name => cases h
    | case3 n name ih =>
      obtain ⟨k, hk, rfl⟩ := Option.map_eq_some_iff.mp h
      obtain ⟨hends, hle⟩ := ih hk
      exact ⟨.named hends, Nat.succ_le_succ hle⟩
  · rintro ⟨h, hle⟩
    induction h generalizing n with
    | root => cases n <;> rfl
    | named _ ih =>
      obtain ⟨n, rfl⟩ : ∃ k, n = k + 1 := ⟨n - 1, by omega⟩
      rw [depthWithin?, ih (Nat.le_of_succ_le_succ hle)]
      rfl

theorem mem_groups_of_parentOf {name parent : Text} (h : parentOf gs name = some parent) :
    name ∈ gs.map (·.group) := by
  obtain ⟨g, hg, -⟩ := Option.bind_eq_some_iff.mp h
  have hname := List.find?_some hg
  exact List.mem_map.mpr ⟨g, List.mem_of_find?_eq_some hg, by simpa using hname⟩

/-- From a name that leads back to itself there is no end. -/
theorem not_ends_of_parentOf {name : Text} (h : parentOf gs name = some name) :
    ¬ Ends gs (some name) m := by
  intro hends
  cases hends with
  | @named _ n hnext =>
    rw [h] at hnext
    have hsame := hnext.unique (.named (h ▸ hnext))
    omega

/-- No name is met twice on a way that ends, and all names but the last are those of groups
with a parent. -/
theorem Ends.exists_names (h : Ends gs p m) : ∃ names : List Text, names.Nodup ∧
    m ≤ names.length + 1 ∧
    ∀ name ∈ names, name ∈ gs.map (·.group) ∧ ∃ k ≤ m, Ends gs (some name) k := by
  induction h with
  | root => exact ⟨[], by simp⟩
  | @named name n h ih =>
    obtain ⟨names, hnodup, hlength, hnames⟩ := ih
    cases hparent : parentOf gs name with
    | none =>
      rw [hparent] at h
      cases h
      exact ⟨[], by simp⟩
    | some parent =>
      have hnew : name ∉ names := by
        intro hmem
        obtain ⟨-, k, hk, hends⟩ := hnames name hmem
        have hsame := hends.unique (.named h)
        omega
      refine ⟨name :: names, List.nodup_cons.mpr ⟨hnew, hnodup⟩, Nat.succ_le_succ hlength, ?_⟩
      intro x hx
      rcases List.mem_cons.mp hx with rfl | hx
      · exact ⟨mem_groups_of_parentOf hparent, n + 1, Nat.le_refl _, .named h⟩
      · obtain ⟨hgroup, k, hk, hends⟩ := hnames x hx
        exact ⟨hgroup, k, Nat.le_succ_of_le hk, hends⟩

theorem Ends.le_length (h : Ends gs p m) : m ≤ gs.length + 1 := by
  obtain ⟨names, hnodup, hlength, hnames⟩ := h.exists_names
  have hsub : names ⊆ gs.map (·.group) := fun name hname => (hnames name hname).1
  have hle := (List.subperm_of_subset hnodup hsub).length_le
  rw [List.length_map] at hle
  omega

/-- The depth of a row is found wherever following names ends, and nowhere else. -/
theorem depth?_eq_some_iff {g : GroupInfo} : depth? gs g = some m ↔ Ends gs g.parent m := by
  rw [depth?, depthWithin?_eq_some_iff]
  exact and_iff_left_of_imp Ends.le_length

end Listing

namespace Document

theorem OutByName.ends {d : Document} {b : Block} {m : Nat} (h : d.OutByName b m) :
    Listing.Ends d.describe (d.infoOf b).parent m :=
  (Listing.depthWithin?_eq_some_iff.mp (h.depthWithin? (Nat.le_refl m))).1

/-- Each row of the listing of a text gets its depth: following names ends, in no more steps
than there are rows above. On rows that belong to no text it need not end. -/
theorem describe_ends {s : Style} {t : Text} {d : Document} (h : read s t = .ok d) :
    (∀ (k : Nat) (g : GroupInfo), d.describe[k]? = some g → ∃ m ≤ k,
      Listing.Ends d.describe g.parent m ∧ Listing.depth? d.describe g = some m) ∧
    ∃ gs : List GroupInfo, ∃ g ∈ gs, ∀ m, ¬ Listing.Ends gs g.parent m := by
  constructor
  · intro k g hg
    rw [describe_eq_map, List.getElem?_map] at hg
    obtain ⟨b, hb, rfl⟩ := Option.map_eq_some_iff.mp hg
    have harena := (sound_of_read h).arena
    obtain ⟨m, hle, hout⟩ :=
      exists_outByName harena (family_of_read h) (List.mem_of_getElem? hb)
    rw [harena.index k b hb] at hle
    exact ⟨m, hle, hout.ends, Listing.depth?_eq_some_iff.mpr hout.ends⟩
  · refine ⟨[⟨['a'], "flag".toList, 1, some ['a'], true, true⟩], _, List.mem_singleton_self _, ?_⟩
    exact fun m => Listing.not_ends_of_parentOf rfl

/-- A group in one of its own name, whose name leads to a group elsewhere. -/
theorem describe_ends_namesakes :
    ∃ d g, read .hash ("# smc:flag o\nn\n# smc:line p\nx\n# smc:end\n# smc:flag q\nk\n" ++
        "# smc:begin p\nl\n# smc:line p\nz\n# smc:end\n# smc:end\n").toList = .ok d ∧
      d.describe[4]? = some g ∧ g.group = ['p'] ∧ g.parent = some ['p'] ∧
      Listing.Ends d.describe g.parent 2 := by
  obtain ⟨d, hread, hd⟩ := Outcome.exists_of_passes
    (x := read .hash ("# smc:flag o\nn\n# smc:line p\nx\n# smc:end\n# smc:flag q\nk\n" ++
      "# smc:begin p\nl\n# smc:line p\nz\n# smc:end\n# smc:end\n").toList)
    (p := fun d => (d.describe[4]?).any fun g => g.group = ['p'] && g.parent = some ['p'] &&
      Listing.depth? d.describe g = some 2) (by decide +kernel)
  simp only [Option.any_eq_true, Bool.and_eq_true, decide_eq_true_eq] at hd
  obtain ⟨g, hg, ⟨hgroup, hparent⟩, hdepth⟩ := hd
  obtain ⟨m, -, hends, hfound⟩ := (describe_ends hread).1 4 g hg
  obtain rfl := Option.some.inj (hdepth.symm.trans hfound)
  exact ⟨d, g, hread, hg, hgroup, hparent, hends⟩

end Document

end CommentToggle
