import CommentToggle.Encoding.Codec
import CommentToggle.Proofs.Encoding.Utf8
import Mathlib.Data.List.TakeWhile

/-!
No two texts have the same bytes in one of the encodings described here. In an encoding
with one byte for each character that is so because every byte comes from one character,
in UTF-8 and UTF-16 because what is written can be read back.
-/
namespace CommentToggle

namespace SingleByte

variable {s : SingleByte}

theorem map_some_filterMap {t : Text} (h : ∀ c ∈ t, (s.byteOf c).isSome = true) :
    (t.filterMap s.byteOf).map some = t.map s.byteOf := by
  induction t with
  | nil => rfl
  | cons c t ih =>
    obtain ⟨hc, ht⟩ := List.forall_mem_cons.mp h
    obtain ⟨b, hb⟩ := Option.isSome_iff_exists.mp hc
    rw [List.filterMap_cons_some hb, List.map_cons, List.map_cons, ih ht, hb]

/-- A text has bytes when each of its characters has one. -/
theorem encode_eq_ok_iff {t : Text} {raw : Bytes} :
    s.encode t = .ok raw ↔ t.map s.byteOf = raw.map some := by
  have hgood : (∀ c ∈ t, (s.byteOf c).isSome = true) ↔
      t.drop (t.takeWhile fun c => (s.byteOf c).isSome).length = [] := by
    rw [← List.takeWhile_eq_self_iff, List.drop_eq_nil_iff]
    constructor
    · intro h
      rw [h]
    · exact fun h => (List.takeWhile_prefix _).eq_of_length_le h
  unfold encode
  simp only
  split
  · rename_i hrest
    have hall := hgood.mpr hrest
    rw [← map_some_filterMap hall, Except.ok.injEq]
    exact (List.map_inj_right fun _ _ => Option.some.inj).symm
  · rename_i c rest hrest
    simp only [reduceCtorEq, false_iff]
    intro hmap
    have hall : ∀ c ∈ t, (s.byteOf c).isSome = true := by
      intro d hd
      have hmem : s.byteOf d ∈ raw.map some := hmap ▸ List.mem_map_of_mem hd
      obtain ⟨b, -, hb⟩ := List.mem_map.mp hmem
      rw [← hb]
      rfl
    rw [hgood.mp hall] at hrest
    cases hrest

/-- Every byte that is written stands for one character. -/
def OneToOne (s : SingleByte) : Prop :=
  ∀ c d b, s.byteOf c = some b → s.byteOf d = some b → c = d

theorem OneToOne.encode_inj (hs : s.OneToOne) {t u : Text} {raw : Bytes}
    (ht : s.encode t = .ok raw) (hu : s.encode u = .ok raw) : t = u := by
  rw [encode_eq_ok_iff] at ht hu
  induction raw generalizing t u with
  | nil =>
    rw [List.map_eq_nil_iff.mp ht, List.map_eq_nil_iff.mp hu]
  | cons b raw ih =>
    obtain ⟨c, t, rfl, hc, ht⟩ := List.map_eq_cons_iff.mp ht
    obtain ⟨d, u, rfl, hd, hu⟩ := List.map_eq_cons_iff.mp hu
    rw [hs c d b hc hd, ih ht hu]

theorem oneToOne_below {bound : Nat} (hbound : bound ≤ 256) (name : String) :
    (below bound name).OneToOne := by
  intro c d b hc hd
  simp only [below, Option.ite_none_right_eq_some, Option.some.injEq] at hc hd
  have heq : c.toNat = d.toNat := by
    have hbyte := congrArg UInt8.toNat (hc.2.trans hd.2.symm)
    rwa [Utf8.toNat_byte (by omega), Utf8.toNat_byte (by omega)] at hbyte
  exact Char.toNat_inj.mp heq

/-- A byte of the table stands for the character that it was written for. -/
theorem windowsPoint?_of_windowsByte? {n m : Nat} (h : windowsByte? n = some m) :
    m < 256 ∧ windowsPoint? m = some n := by
  unfold windowsByte? at h
  split at h
  · rename_i hplain
    simp only [Bool.or_eq_true, decide_eq_true_eq, Bool.and_eq_true] at hplain
    cases h
    refine ⟨by omega, if_pos ?_⟩
    simp only [Bool.or_eq_true, decide_eq_true_eq]
    omega
  · rename_i hplain
    simp only [Bool.or_eq_true, decide_eq_true_eq, Bool.and_eq_true] at hplain
    obtain ⟨i, hi, rfl⟩ := Option.map_eq_some_iff.mp h
    obtain ⟨hlt, hpoint, -⟩ := List.findIdx?_eq_some_iff_getElem.mp hi
    have hlength : windowsPoints.length = 32 := rfl
    refine ⟨by omega, ?_⟩
    unfold windowsPoint?
    rw [if_neg (by simp; omega), Nat.add_sub_cancel, List.getElem?_eq_getElem hlt,
      of_decide_eq_true hpoint, Option.filter_some, if_pos (by simp; omega)]

theorem oneToOne_windows1252 : windows1252.OneToOne := by
  intro c d b hc hd
  obtain ⟨m, hm, rfl⟩ := Option.map_eq_some_iff.mp hc
  obtain ⟨m', hm', hsame⟩ := Option.map_eq_some_iff.mp hd
  obtain ⟨hlt, hpoint⟩ := windowsPoint?_of_windowsByte? hm
  obtain ⟨hlt', hpoint'⟩ := windowsPoint?_of_windowsByte? hm'
  have heq : m' = m := by
    have hbyte := congrArg UInt8.toNat hsame
    rwa [Utf8.toNat_byte hlt, Utf8.toNat_byte hlt'] at hbyte
  rw [heq, hpoint, Option.some.injEq] at hpoint'
  exact Char.toNat_inj.mp hpoint'

end SingleByte

namespace Utf16

theorem unit_little {n : Nat} (h : n < 0x10000) :
    ByteOrder.little.unit (UInt8.ofNat (n % 256)) (UInt8.ofNat (n / 256)) = n := by
  have hlow := Utf8.toNat_byte (n := n % 256) (by omega)
  have hhigh := Utf8.toNat_byte (n := n / 256) (by omega)
  simp only [ByteOrder.unit]
  omega

/-- One unit that is no surrogate is a character. -/
theorem decodeFrom_unit {n : Nat} (h : n < 0xd800 ∨ 0xdfff < n ∧ n < 0x10000) (pos : Nat)
    (done : Text) (rest : Bytes) : decodeFrom .little pos done none (unit n ++ rest) =
      decodeFrom .little (pos + 2) (Char.ofNat n :: done) none rest := by
  have hhigh : isHigh n = false := by
    simp only [isHigh, Bool.and_eq_false_iff, decide_eq_false_iff_not]
    omega
  have hlow : isLow n = false := by
    simp only [isLow, Bool.and_eq_false_iff, decide_eq_false_iff_not]
    omega
  unfold unit
  rw [List.cons_append, List.cons_append, List.nil_append, decodeFrom]
  simp only [unit_little (n := n) (by omega), hhigh, hlow, Bool.false_eq_true, if_false]

/-- Two surrogates are one character. -/
theorem decodeFrom_pair {n m : Nat} (hn : n < 1024) (hm : m < 1024) (pos : Nat) (done : Text)
    (rest : Bytes) :
    decodeFrom .little pos done none (unit (0xd800 + n) ++ (unit (0xdc00 + m) ++ rest)) =
      decodeFrom .little (pos + 2 + 2) (Char.ofNat (0x10000 + 1024 * n + m) :: done) none rest := by
  have hhigh : isHigh (0xd800 + n) = true := by
    simp only [isHigh, Bool.and_eq_true, decide_eq_true_eq]
    omega
  have hlow : isLow (0xdc00 + m) = true := by
    simp only [isLow, Bool.and_eq_true, decide_eq_true_eq]
    omega
  unfold unit
  simp only [List.cons_append, List.nil_append]
  rw [decodeFrom]
  simp only [unit_little (n := 0xd800 + n) (by omega), hhigh, if_true]
  rw [decodeFrom]
  simp only [unit_little (n := 0xdc00 + m) (by omega), hlow, if_true, Nat.add_sub_cancel_left]

theorem decodeFrom_encodeChar (pos : Nat) (done : Text) (c : Char) (rest : Bytes) :
    ∃ next, decodeFrom .little pos done none (encodeChar c ++ rest) =
      decodeFrom .little next (c :: done) none rest := by
  have hvalid : c.toNat < 0xd800 ∨ 0xdfff < c.toNat ∧ c.toNat < 0x110000 := c.valid
  unfold encodeChar
  simp only
  split
  · refine ⟨pos + 2, ?_⟩
    rw [decodeFrom_unit (by omega), Char.ofNat_toNat]
  · refine ⟨pos + 2 + 2, ?_⟩
    rw [List.append_assoc, decodeFrom_pair (by omega) (by omega),
      show 0x10000 + 1024 * ((c.toNat - 0x10000) / 1024) + (c.toNat - 0x10000) % 1024 = c.toNat by
        omega, Char.ofNat_toNat]

theorem decodeFrom_encoded (pos : Nat) (done t : Text) :
    decodeFrom .little pos done none (t.flatMap encodeChar) = .ok (done.reverse ++ t) := by
  induction t generalizing pos done with
  | nil => simp [decodeFrom]
  | cons c t ih =>
    obtain ⟨next, hnext⟩ := decodeFrom_encodeChar pos done c (t.flatMap encodeChar)
    rw [List.flatMap_cons, hnext, ih]
    simp

theorem decode_encode (t : Text) : decode (encode t) = .ok t := decodeFrom_encoded 2 [] t

end Utf16

namespace Charset

/-- No two texts have the same bytes. -/
def Injective (c : Charset) : Prop :=
  ∀ t u raw, c.encode t = .ok raw → c.encode u = .ok raw → t = u

end Charset

namespace Codec

/-- What is written in one of the encodings described here has been written for one text. -/
theorem injective (c : Codec) : c.charset.Injective := by
  intro t u raw ht hu
  cases c with
  | utf8 =>
    have hread : Utf8.decode raw = .ok t := Utf8.decode_eq_ok_iff.mpr (Except.ok.inj ht)
    rw [Utf8.decode_eq_ok_iff.mpr (Except.ok.inj hu)] at hread
    exact (Except.ok.inj hread).symm
  | utf16 =>
    have hsame : Utf16.encode t = Utf16.encode u := Except.ok.inj (ht.trans hu.symm)
    have hread := Utf16.decode_encode t
    rw [hsame, Utf16.decode_encode] at hread
    exact (Except.ok.inj hread).symm
  | ascii => exact (SingleByte.oneToOne_below (by decide) "ascii").encode_inj ht hu
  | latin1 => exact (SingleByte.oneToOne_below (by decide) "latin-1").encode_inj ht hu
  | windows1252 => exact SingleByte.oneToOne_windows1252.encode_inj ht hu

variable [Charsets]

/-- No two texts have the same bytes in an encoding described here, nor in a further one of
which that is known. -/
theorem encodeBy_inj {name t u : Text} {raw : Bytes}
    (hfurther : ∀ c ∈ Charsets.find? name, c.Injective) (ht : encodeBy name t = .ok raw)
    (hu : encodeBy name u = .ok raw) : t = u := by
  unfold encodeBy byName at ht hu
  cases hname : ofName? name with
  | some c =>
    simp only [hname] at ht hu
    exact c.injective t u raw ht hu
  | none =>
    cases hfind : Charsets.find? name with
    | some c =>
      simp only [hname, hfind] at ht hu
      exact hfurther c hfind t u raw ht hu
    | none =>
      simp only [hname, hfind] at ht
      cases ht

end Codec

end CommentToggle
