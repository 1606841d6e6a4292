import CommentToggle.Proofs.Config.Overlay
import CommentToggle.Proofs.Detect.Naming

/-!
Extensions that a user gives to a style. The user's lists of names are laid over the default
ones, which stay in their order, and the first style that lists an extension is the one that is
taken. So the user's choice holds, unless one of the default styles before it lists the extension
too and has no list in the user's configuration: that one is taken instead.
-/
namespace CommentToggle.Detect

open Text

/-- The style that is found before the one of that name: the first of those in front of it that
lists the key and that the user's lists leave alone. -/
def rival? (base formats : Table) (name key : Text) : Option Text :=
  ((base.takeWhile (·.1 ≠ name)).find? fun e =>
    (Table.get? formats e.1).isNone && listsName key e.2).map (·.1)

/-- The user gives the extension to the style of that name and to no other, and no style lists
the full name of the file. A table holds each key once. -/
structure Mapped (user formats : Table) (name path ext : Text) : Prop where
  keys : (Table.keys user).Nodup
  present : Table.get? user "supported_formats".toList = some (.table formats)
  styles : (Table.keys formats).Nodup
  extension : extension? (baseName path) = some ext
  listed : ∃ v, Table.get? formats name = some v ∧ listsName (lower ext) v = true
  alone : ∀ e ∈ formats, e.1 ≠ name → listsName (lower ext) e.2 = false
  unnamed : ∀ e ∈ Table.merge Config.defaultFormats formats,
    listsName (lower (baseName path)) e.2 = false

section Lookup

variable {base formats : Table} {name key : Text} {v : Value}

/-- What is laid over a value lists what it lists by itself. -/
theorem listsName_over (key : Text) (old : Option Value) (v : Value) :
    listsName key (v.over old) = listsName key v := by
  cases v with
  | table entries =>
    unfold Value.over
    split <;> rfl
  | _ => rfl

theorem listsName_revised (formats : Table) (key : Text) (e : Text × Value) :
    listsName key (formats.revised e).2 = listsName key ((Table.get? formats e.1).getD e.2) := by
  unfold Table.revised
  cases Table.get? formats e.1 with
  | none => rfl
  | some v => exact listsName_over key (some e.2) v

theorem lookupFormat_table (formats : Table) (key : Text) : lookupFormat (.table formats) key =
    .ok (given ((formats.find? fun e => listsName (lower key) e.2).map (·.1))) := rfl

theorem rival?_cons_of_eq {e : Text × Value} (h : e.1 = name) (base : Table) :
    rival? (e :: base) formats name key = none := by
  simp [rival?, h]

theorem rival?_cons_of_ne {e : Text × Value} (h : e.1 ≠ name) (base : Table) :
    rival? (e :: base) formats name key =
      if (Table.get? formats e.1).isNone && listsName key e.2 then some e.1
      else rival? base formats name key := by
  rw [rival?, List.takeWhile_cons_of_pos (by simpa using h), List.find?_cons]
  cases (Table.get? formats e.1).isNone && listsName key e.2 <;> rfl

theorem rival?_eq_none_iff : rival? base formats name key = none ↔
    ∀ e ∈ base.takeWhile (·.1 ≠ name), Table.get? formats e.1 = none → listsName key e.2 = false := by
  simp [rival?]

theorem exists_of_rival? {other : Text} (h : rival? base formats name key = some other) :
    other ∈ Table.keys base ∧ other ≠ name := by
  obtain ⟨e, he, rfl⟩ := Option.map_eq_some_iff.mp h
  have hmem := List.mem_of_find?_eq_some he
  exact ⟨List.mem_map_of_mem ((List.takeWhile_sublist _).subset hmem),
    by simpa using List.mem_takeWhile_imp hmem⟩

/-- All names are in basic Latin characters, and none is the key once it is lowered. -/
def misses (key : Text) : Value → Bool
  | .list vs => vs.all fun v => v.display.all (·.toNat < 128) && v.display.map Char.toLower ≠ key
  | _ => true

theorem listsName_of_misses (h : misses key v = true) : listsName key v = false := by
  cases v with
  | list vs =>
    rw [misses, List.all_eq_true] at h
    rw [listsName, List.any_eq_false]
    intro w hw
    have hw := h w hw
    rw [Bool.and_eq_true, List.all_eq_true, decide_eq_true_eq] at hw
    rw [lower_latin fun c hc => by simpa using hw.1 c hc]
    simpa using hw.2
  | _ => rfl

variable (hlisted : Table.get? formats name = some v) (hlists : listsName key v = true)
  (halone : ∀ e ∈ formats, e.1 ≠ name → listsName key e.2 = false)

include hlisted hlists halone

/-- Among the default styles, that name is found unless it has a rival. -/
theorem find?_revised (base : Table) :
    ((base.map formats.revised).find? fun e => listsName key e.2).map (·.1) =
      (rival? base formats name key).or (if name ∈ Table.keys base then some name else none) := by
  induction base with
  | nil => rfl
  | cons e rest ih =>
    have hrevised := listsName_revised formats key e
    rw [List.map_cons, List.find?_cons, hrevised]
    by_cases hname : e.1 = name
    · rw [hname, hlisted, Option.getD_some, hlists, rival?_cons_of_eq hname, Option.none_or,
        if_pos (by simp [Table.keys, hname]), Option.map_some, Table.revised, hname]
    · have hmem : name ∈ Table.keys (e :: rest) ↔ name ∈ Table.keys rest := by
        simp [Table.keys, Ne.symm hname]
      rw [rival?_cons_of_ne hname]
      simp only [hmem]
      cases hget : Table.get? formats e.1 with
      | some w =>
        rw [Option.getD_some, halone _ (Table.mem_of_get? hget) hname]
        exact ih
      | none =>
        rw [Option.getD_none]
        cases listsName key e.2 with
        | true => rfl
        | false => exact ih

theorem find?_merge (hbase : (Table.keys base).Nodup) (hformats : (Table.keys formats).Nodup) :
    ((Table.merge base formats).find? fun e => listsName key e.2).map (·.1) =
      some ((rival? base formats name key).getD name) := by
  rw [Table.merge_eq hbase hformats, List.find?_append, Option.map_or,
    find?_revised hlisted hlists halone]
  cases rival? base formats name key with
  | some other => rfl
  | none =>
    by_cases hname : name ∈ Table.keys base
    · simp [hname]
    · -- The name is new: of the user's styles, only this one lists the key.
      have hmem : (name, v) ∈ formats.filter (·.1 ∉ Table.keys base) :=
        List.mem_filter.mpr ⟨Table.mem_of_get? hlisted, by simpa using hname⟩
      cases hfind : (formats.filter (·.1 ∉ Table.keys base)).find? fun e => listsName key e.2 with
      | none => exact absurd hlists (List.find?_eq_none.mp hfind _ hmem)
      | some e =>
        have he := (List.mem_filter.mp (List.mem_of_find?_eq_some hfind)).1
        have hkey := List.find?_some (p := fun e : Text × Value => listsName key e.2) hfind
        have hsame : e.1 = name := by
          by_contra hne
          rw [halone e he hne] at hkey
          cases hkey
        simp [hname, hsame]

end Lookup

section Path

variable {comments : Value} {formats : Table} {lexers : Text → Option Lexer} {path key ext : Text}
  {s : Style}

/-- A listed key leads to the style of that name, but an empty name to none. -/
theorem outcome_fromFormat {found : Option Text}
    (h : (formats.find? fun e => listsName (lower key) e.2).map (·.1) = found) :
    (fromFormat comments (.table formats) key).outcome =
      (given found).elim (.ok none) fun name => (fromTable comments name).outcome := by
  unfold fromFormat
  rw [Logged.outcome_bind, lookupFormat_table, h]
  change Except.bind (.ok (given found)) _ = _
  cases given found <;> rfl

/-- An extension is read where the full name of the file says nothing, and the lexer behind it. -/
theorem outcome_byPath_iff
    (hfile : (fromFormat comments (.table formats) (baseName path)).outcome = .ok none)
    (hext : extension? (baseName path) = some ext) :
    (byPath comments (.table formats) lexers path).outcome = .ok s ↔
      (fromFormat comments (.table formats) ext).outcome = .ok (some s) ∨
      (fromFormat comments (.table formats) ext).outcome = .ok none ∧
        (fromLexer comments lexers (baseName path)).outcome = .ok (some s) := by
  have hbyExtension : byExtension comments (.table formats) (baseName path) =
      fromFormat comments (.table formats) ext := by rw [byExtension, hext]
  rw [← hbyExtension]
  constructor
  · intro h
    rcases (Logged.outcome_first_iff (by exact fun _ => rfl)).mp h with hfound | ⟨-, h⟩
    · rw [hfile] at hfound
      cases hfound
    · rcases (Logged.outcome_first_iff (by exact fun _ => rfl)).mp h with hfound | ⟨hnone, h⟩
      · exact Or.inl hfound
      · rcases (Logged.outcome_first_iff (by exact fun _ => rfl)).mp h with hlexer | ⟨-, h⟩
        · exact Or.inr ⟨hnone, hlexer⟩
        · cases h
  · intro h
    refine (Logged.outcome_first_iff (by exact fun _ => rfl)).mpr (Or.inr ⟨hfile, ?_⟩)
    refine (Logged.outcome_first_iff (by exact fun _ => rfl)).mpr ?_
    rcases h with hfound | ⟨hnone, hlexer⟩
    · exact Or.inl hfound
    · refine Or.inr ⟨hnone, ?_⟩
      exact (Logged.outcome_first_iff (by exact fun _ => rfl)).mpr (Or.inl hlexer)

end Path

theorem nodup_default : (Table.keys Config.defaultFormats).Nodup := by
  decide +kernel

theorem default_names : ((Table.keys Config.defaultFormats).all fun name =>
    !name.isEmpty && name.all fun c => c.toNat < 128 && c.toLower = c) = true := by
  decide +kernel

theorem small_default {name : Text} (h : name ∈ Table.keys Config.defaultFormats) :
    name ≠ [] ∧ lower name = name := by
  have hname : name ≠ [] ∧ ∀ c ∈ name, c.toNat < 128 ∧ c.toLower = c := by
    simpa using List.all_eq_true.mp default_names name h
  obtain ⟨hne, hletters⟩ := hname
  refine ⟨hne, ?_⟩
  rw [lower_latin fun c hc => (hletters c hc).1,
    List.map_congr_left fun c hc => (hletters c hc).2, List.map_id']

/-- A style that is found through the extension has a name and no rival: the rival's own style
would have the rival's name. -/
theorem free_of_found {comments : Value} {formats : Table} {name key : Text} {s : Style}
    (hown : s.name = name)
    (h : (given (some ((rival? Config.defaultFormats formats name key).getD name))).elim
      (.ok none) (fun found => (fromTable comments found).outcome) = .ok (some s)) :
    name ≠ [] ∧ rival? Config.defaultFormats formats name key = none := by
  cases hgiven : given (some ((rival? Config.defaultFormats formats name key).getD name)) with
  | none =>
    rw [hgiven] at h
    cases h
  | some found =>
    rw [hgiven] at h
    have hname : s.name = lower found := name_of_fromTable h
    obtain ⟨hsome, hne⟩ := given_eq_some_iff.mp hgiven
    obtain rfl := Option.some.inj hsome
    cases hrival : rival? Config.defaultFormats formats name key with
    | none =>
      rw [hrival] at hne
      exact ⟨hne, rfl⟩
    | some other =>
      obtain ⟨hdefault, hother⟩ := exists_of_rival? hrival
      rw [hrival, Option.getD_some, (small_default hdefault).2] at hname
      exact absurd (hname.symm.trans hown) hother

section Answer

variable {user formats entries entry : Table} {name path ext : Text} {q : Question} {s : Style}
  {lexers : Text → Option Lexer}

namespace Mapped

variable (h : Mapped user formats name path ext)

include h

theorem merged_formats : Table.get? (Table.merge Config.default user) "supported_formats".toList =
    some (.table (Table.merge Config.defaultFormats formats)) := by
  rw [Table.get?_merge h.keys, h.present]
  rfl

theorem path_ne : path ≠ [] ∧ path ≠ ['-'] := by
  constructor
  · rintro rfl
    cases h.extension
  · rintro rfl
    cases h.extension

theorem outcome_file (comments : Value) : (fromFormat comments
    (.table (Table.merge Config.defaultFormats formats)) (baseName path)).outcome = .ok none := by
  have hnone : (Table.merge Config.defaultFormats formats).find?
      (fun e => listsName (lower (baseName path)) e.2) = none := by
    rw [List.find?_eq_none]
    intro e he
    rw [h.unnamed e he]
    exact Bool.false_ne_true
  exact outcome_fromFormat (congrArg (Option.map (·.1)) hnone)

/-- The extension leads to the rival, or else to the style that the user gave it to. -/
theorem outcome_extension (comments : Value) : (fromFormat comments
    (.table (Table.merge Config.defaultFormats formats)) ext).outcome =
      (given (some ((rival? Config.defaultFormats formats name (lower ext)).getD name))).elim
        (.ok none) fun found => (fromTable comments found).outcome := by
  obtain ⟨v, hlisted, hlists⟩ := h.listed
  exact outcome_fromFormat (find?_merge hlisted hlists h.alone nodup_default h.styles)

theorem detect_eq_byPath (lexers : Text → Option Lexer) (hpath : q.path = some path)
    (hleader : given q.leader = none) (hname : given q.styleName = none)
    (hcomments : Table.get? (Table.merge Config.default user) "comments".toList =
      some (.table entries)) :
    detect (Table.merge Config.default user) lexers q =
      byPath (.table entries) (.table (Table.merge Config.defaultFormats formats)) lexers path := by
  obtain ⟨hne, hinput⟩ := h.path_ne
  have hgiven : given q.path = some path := given_eq_some_iff.mpr ⟨hpath, hne⟩
  unfold detect
  rw [hcomments, h.merged_formats, hleader, hname, hgiven]
  exact if_neg hinput

end Mapped

/-- A file with an extension that the user gave to a style is in that style, if the style has a
name and no rival. A rival with a style gives its own instead; and a style that does not come from
the lexer is found in no other way. -/
theorem detect_mapped_iff (h : Mapped user formats name path ext) (lexers : Text → Option Lexer)
    (hpath : q.path = some path) (hleader : given q.leader = none)
    (hname : given q.styleName = none)
    (hcomments : Table.get? (Table.merge Config.default user) "comments".toList =
      some (.table entries))
    (hentry : Table.get? entries name = some (.table entry))
    (hstyle : Style.Gives name entry s) (hsmall : lower name = name) :
    (name ≠ [] → rival? Config.defaultFormats formats name (lower ext) = none →
      (detect (Table.merge Config.default user) lexers q).outcome = .ok s) ∧
    (∀ other entry' t, rival? Config.defaultFormats formats name (lower ext) = some other →
      Table.get? entries other = some (.table entry') →
      Style.Gives other entry' t →
        (detect (Table.merge Config.default user) lexers q).outcome = .ok t) ∧
    ((∀ l, lexers (baseName path) = some l → ∀ n ∈ l.name :: l.aliases, lower n ≠ name) →
      (detect (Table.merge Config.default user) lexers q).outcome = .ok s →
        name ≠ [] ∧ rival? Config.defaultFormats formats name (lower ext) = none) := by
  have hown : s.name = name := (Style.of_readEntry (Style.gives_iff.mp hstyle)).1
  rw [h.detect_eq_byPath lexers hpath hleader hname hcomments]
  simp only [outcome_byPath_iff (h.outcome_file _) h.extension, h.outcome_extension]
  refine ⟨fun hne hrival => Or.inl ?_, fun other entry' t hrival hentry' hstyle' => Or.inl ?_,
    fun hlexers hfound => ?_⟩
  · rw [hrival, Option.getD_none, given_eq_some_iff.mpr ⟨rfl, hne⟩]
    exact fromTable_iff.mpr ⟨entry, hsmall.symm ▸ ⟨hentry, hstyle⟩⟩
  · have hdefault := (exists_of_rival? hrival).1
    rw [hrival, Option.getD_some, given_eq_some_iff.mpr ⟨rfl, (small_default hdefault).1⟩]
    exact fromTable_iff.mpr ⟨entry', (small_default hdefault).2.symm ▸ ⟨hentry', hstyle'⟩⟩
  · rcases hfound with hfound | ⟨-, hlexer⟩
    · exact free_of_found hown hfound
    · obtain ⟨l, hl, n, hn, hfound⟩ := exists_of_fromLexer hlexer
      refine absurd ?_ (hlexers l hl n hn)
      rw [← hown, name_of_fromTable hfound, lower_lower]

end Answer

/-- A new style with an extension of its own and one that another style has too. -/
def mineComments : Table :=
  [("mine".toList, .table [("line_prefix".toList, .text "// ".toList)])]

def mineFormats : Table := [("mine".toList, .list [.text "MN".toList, .text "py".toList])]

def mineConfig : Table :=
  [("comments".toList, .table mineComments), ("supported_formats".toList, .table mineFormats)]

def mine : Style := ⟨"mine".toList, ["//".toList], none, by decide⟩

def python : Style := ⟨"python".toList, ["#".toList], none, by decide⟩

theorem mapped_mine {path ext : Text} (hext : extension? (baseName path) = some ext)
    (hlists : ∀ v ∈ Table.get? mineFormats "mine".toList, listsName (lower ext) v = true)
    (hunnamed : ∀ e ∈ Table.merge Config.defaultFormats mineFormats,
      misses (lower (baseName path)) e.2 = true) :
    Mapped mineConfig mineFormats "mine".toList path ext where
  keys := by decide
  present := rfl
  styles := by decide
  extension := hext
  listed := ⟨_, rfl, hlists _ rfl⟩
  alone := by
    intro e he hne
    rw [mineFormats, List.mem_singleton] at he
    exact absurd (congrArg Prod.fst he) hne
  unnamed := fun e he => listsName_of_misses (hunnamed e he)

/-- The extension of its own leads to the new style, the other one to the style that had it. -/
theorem detect_mapped_mine :
    (detect (Table.merge Config.default mineConfig) (fun _ => none)
      ⟨some "src/a.mn".toList, none, none, none⟩).outcome = .ok mine ∧
    (detect (Table.merge Config.default mineConfig) (fun _ => none)
      ⟨some "src/a.py".toList, none, none, none⟩).outcome = .ok python := by
  have hcomments : Table.get? (Table.merge Config.default mineConfig) "comments".toList =
      some (.table (Table.merge Config.defaultComments mineComments)) := by
    rw [Table.get?_merge (by decide)]
    rfl
  have hmine : Table.get? (Table.merge Config.defaultComments mineComments) "mine".toList =
      some (.table [("line_prefix".toList, .text "// ".toList)]) := by
    rw [Table.get?_merge (by decide)]
    rfl
  have hpython : Table.get? (Table.merge Config.defaultComments mineComments) "python".toList =
      some (.table [("line_prefix".toList, .text "# ".toList)]) := by
    rw [Table.get?_merge (by decide)]
    rfl
  have hstyle : Style.Gives "mine".toList [("line_prefix".toList, .text "// ".toList)] mine :=
    Style.gives_iff.mpr rfl
  have hsmall : lower "mine".toList = "mine".toList := by decide +kernel
  have hmn : Mapped mineConfig mineFormats "mine".toList "src/a.mn".toList "mn".toList :=
    mapped_mine rfl (by decide +kernel) (by decide +kernel)
  have hpy : Mapped mineConfig mineFormats "mine".toList "src/a.py".toList "py".toList :=
    mapped_mine rfl (by decide +kernel) (by decide +kernel)
  constructor
  · refine (detect_mapped_iff hmn _ rfl rfl rfl hcomments hmine hstyle hsmall).1 (by decide) ?_
    rw [rival?_eq_none_iff]
    intro e he _
    have hfree : ∀ e ∈ Config.defaultFormats, misses (lower "mn".toList) e.2 = true := by
      decide +kernel
    exact listsName_of_misses (hfree e ((List.takeWhile_sublist _).subset he))
  · refine (detect_mapped_iff hpy _ rfl rfl rfl hcomments hmine hstyle hsmall).2.1 "python".toList _ _
      ?_ hpython (Style.gives_iff.mpr rfl)
    decide +kernel

end CommentToggle.Detect
