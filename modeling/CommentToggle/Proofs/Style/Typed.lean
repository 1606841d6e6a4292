import CommentToggle.Proofs.Style.Trimmed

/-!
Entries of the comment table whose values are of the kinds that are meant for them. Each of them
can be read. It gives a style whenever a leader is left once trimmed, or else both of its two
delimiters, so a style is never asked for with leaders that it cannot have.
-/
namespace CommentToggle

/-- A list of texts and of nothing else. -/
def Value.IsTexts (v : Value) : Prop := ∃ ts : List Text, v = .list (ts.map .text)

namespace Style

open Text

/-- Leaders are one text or several, delimiters are several. -/
structure Typed (entry : Table) : Prop where
  leaders : ∀ v ∈ Table.get? entry "line_prefix".toList, (∃ t, v = .text t) ∨ v.IsTexts
  delimiters : ∀ v ∈ Table.get? entry "block_delims".toList, v.IsTexts

/-- What is left of the leaders of an entry. -/
def leadersOf : Option Value → List Text
  | some (.text t) => trimmed [t]
  | some (.list vs) => trimmed (vs.map Value.display)
  | _ => []

/-- What is left of the delimiters of an entry, if there are two and something is left of both. -/
def delimitersOf? : Option Value → Option (Text × Text)
  | some (.list [opener, closer]) =>
    if trim opener.display = [] ∨ trim closer.display = [] then none
    else some (trim opener.display, trim closer.display)
  | _ => none

/-- The leaders and the closer that an entry leaves for a style. -/
def partsOf? (entry : Table) : Option (List Text × Option Text) :=
  match leadersOf (Table.get? entry "line_prefix".toList) with
  | [] => (delimitersOf? (Table.get? entry "block_delims".toList)).map fun d => ([d.1], some d.2)
  | leaders => some (leaders, none)

def parts (s : Style) : List Text × Option Text := (s.leaders, s.closer)

variable {name : Text} {entry : Table} {leaders : List Text} {closer : Option Text}

theorem ofParts?_of_usable (name : Text) (closer : Option Text) (h : Usable leaders) :
    ofParts? name leaders closer = some ⟨name, leaders, closer, h⟩ := dif_pos h

theorem ofParts?_nil (name : Text) (closer : Option Text) : ofParts? name [] closer = none :=
  dif_neg fun h => h.1 rfl

theorem ofLeaders?_of_texts {o : Option Value}
    (h : ∀ v ∈ o, (∃ t, v = .text t) ∨ v.IsTexts) (name : Text) :
    ofLeaders? name (o.getD .null) = .ok (ofParts? name (leadersOf o) none) := by
  cases o with
  | none => exact congrArg Except.ok (ofParts?_nil name none).symm
  | some v =>
    rcases h v rfl with ⟨t, rfl⟩ | ⟨ts, rfl⟩
    · cases t with
      | nil => exact congrArg Except.ok (ofParts?_nil name none).symm
      | cons c rest => rfl
    · cases ts with
      | nil => exact congrArg Except.ok (ofParts?_nil name none).symm
      | cons t rest => rfl

theorem usable_singleton {p : Text} (h : p ≠ []) : Usable [p] :=
  ⟨List.cons_ne_nil p [], by simpa using Ne.symm h⟩

/-- Two delimiters give what is left of them, if something is left of both. -/
theorem ofDelimiters?_pair (name opener closer : Text) :
    ofDelimiters? name (.list [.text opener, .text closer]) =
      .ok (if trim opener = [] ∨ trim closer = [] then none
        else ofParts? name [trim opener] (some (trim closer))) := by
  change (if (trim closer).isEmpty then Except.ok none
    else Except.ok (ofParts? name [trim opener] (some (trim closer)))) = _
  by_cases hcloser : trim closer = []
  · rw [if_pos (List.isEmpty_iff.mpr hcloser), if_pos (Or.inr hcloser)]
  · rw [if_neg (by simpa using hcloser)]
    by_cases hopener : trim opener = []
    · rw [if_pos (Or.inl hopener), hopener]
      exact congrArg Except.ok (dif_neg fun h => h.2 List.mem_cons_self)
    · rw [if_neg (not_or.mpr ⟨hopener, hcloser⟩)]

theorem ofDelimiters?_of_texts {o : Option Value} (h : ∀ v ∈ o, v.IsTexts) (name : Text) :
    ofDelimiters? name (o.getD .null) =
      .ok ((delimitersOf? o).bind fun d => ofParts? name [d.1] (some d.2)) := by
  cases o with
  | none => rfl
  | some v =>
    obtain ⟨ts, rfl⟩ := h v rfl
    match ts with
    | [] => rfl
    | [_] => rfl
    | [opener, closer] =>
      refine (ofDelimiters?_pair name opener closer).trans (congrArg Except.ok ?_)
      change _ = Option.bind (if trim opener = [] ∨ trim closer = [] then none
        else some (trim opener, trim closer)) _
      split <;> rfl
    | _ :: _ :: _ :: _ => rfl

theorem usable_leadersOf {o : Option Value} (h : leadersOf o ≠ []) : Usable (leadersOf o) := by
  unfold leadersOf at h ⊢
  split at h
  · exact usable_trimmed h
  · exact usable_trimmed h
  · exact absurd rfl h

theorem delimitersOf?_ne_nil {o : Option Value} {d : Text × Text}
    (h : delimitersOf? o = some d) : d.1 ≠ [] ∧ d.2 ≠ [] := by
  unfold delimitersOf? at h
  split at h
  · split at h
    · cases h
    · rename_i hne
      cases h
      exact not_or.mp hne
  · cases h

/-- The entry gives a style with the parts that are left, and none when none are. -/
theorem readEntry_of_typed (h : Typed entry) (name : Text) :
    ∃ found, readEntry name entry = .ok found ∧ found.map parts = partsOf? entry := by
  unfold readEntry partsOf?
  rw [ofLeaders?_of_texts h.leaders, ofDelimiters?_of_texts h.delimiters]
  cases hleaders : leadersOf (Table.get? entry "line_prefix".toList) with
  | nil =>
    rw [ofParts?_nil]
    cases hdelimiters : delimitersOf? (Table.get? entry "block_delims".toList) with
    | none => exact ⟨none, rfl, rfl⟩
    | some d =>
      have husable := usable_singleton (delimitersOf?_ne_nil hdelimiters).1
      exact ⟨some ⟨name, [d.1], some d.2, husable⟩,
        congrArg Except.ok (ofParts?_of_usable name (some d.2) husable), rfl⟩
  | cons p ps =>
    have husable : Usable (p :: ps) :=
      hleaders ▸ usable_leadersOf (hleaders ▸ List.cons_ne_nil p ps)
    rw [ofParts?_of_usable name none husable]
    exact ⟨_, rfl, rfl⟩

end Style

end CommentToggle
