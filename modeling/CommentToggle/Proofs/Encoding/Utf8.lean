import CommentToggle.Encoding.Utf8
import Mathlib.Algebra.Group.Nat.Defs
import Mathlib.Data.List.Basic

/-!
UTF-8 is read exactly where it was written: reading succeeds on the bytes of a text and on
no others, and gives that text. An unfinished character stands for all numbers that begin
with its value; the bytes still missing are the last sextets of the number.
-/
namespace CommentToggle.Utf8

/-- The last `m` groups of six bits of a number, as continuation bytes. -/
def sextets : Nat → Nat → Bytes
  | 0, _ => []
  | m + 1, n => UInt8.ofNat (0x80 + n / 64 ^ m % 64) :: sextets m n

theorem toNat_ofNat {n : Nat} (h : n.isValidChar) : (Char.ofNat n).toNat = n := by
  unfold Char.ofNat
  rw [dif_pos h]
  rfl

section Forms
variable {c : Char}

theorem encodeChar_one (h : c.toNat < 0x80) : encodeChar c = [UInt8.ofNat c.toNat] := by
  simp [encodeChar, h]

theorem encodeChar_two (h : 0x80 ≤ c.toNat) (h' : c.toNat < 0x800) :
    encodeChar c = UInt8.ofNat (0xc0 + c.toNat / 64) :: sextets 1 c.toNat := by
  simp [encodeChar, sextets, Nat.not_lt.mpr h, h']

theorem encodeChar_three (h : 0x800 ≤ c.toNat) (h' : c.toNat < 0x10000) :
    encodeChar c = UInt8.ofNat (0xe0 + c.toNat / 64 ^ 2) :: sextets 2 c.toNat := by
  have hne : ¬ c.toNat < 0x80 := by omega
  simp [encodeChar, sextets, hne, Nat.not_lt.mpr h, h']

theorem encodeChar_four (h : 0x10000 ≤ c.toNat) :
    encodeChar c = UInt8.ofNat (0xf0 + c.toNat / 64 ^ 3) :: sextets 3 c.toNat := by
  have hone : ¬ c.toNat < 0x80 := by omega
  have htwo : ¬ c.toNat < 0x800 := by omega
  simp [encodeChar, sextets, hone, htwo, Nat.not_lt.mpr h]

end Forms

/-- The number begins with the value read so far, and its next byte is within the bounds. -/
structure Pending.Admits (p : Pending) (n : Nat) : Prop where
  value : n / 64 ^ p.missing = p.value
  low_le : p.low ≤ 0x80 + n / 64 ^ (p.missing - 1) % 64
  le_high : 0x80 + n / 64 ^ (p.missing - 1) % 64 ≤ p.high

/-- Every number that is admitted is a character whose bytes begin with those read. -/
structure Pending.Sound (p : Pending) : Prop where
  missing : 0 < p.missing
  low : 0x80 ≤ p.low
  high : p.high ≤ 0xbf
  bytes : ∀ n, p.Admits n → n.isValidChar ∧
    encodeChar (Char.ofNat n) = p.bytes.reverse ++ sextets p.missing n

/-- A byte that begins a character: how many more there are, and which numbers it admits. -/
inductive Leads (b : UInt8) : Pending → Prop
  | two (h : 0xc2 ≤ b.toNat) (h' : b.toNat < 0xe0) : Leads b ⟨[b], b.toNat - 0xc0, 1, 0x80, 0xbf⟩
  | three (h : 0xe0 ≤ b.toNat) (h' : b.toNat < 0xf0) {low high : Nat}
      (hlow : b.toNat = 0xe0 ∧ low = 0xa0 ∨ b.toNat ≠ 0xe0 ∧ low = 0x80)
      (hhigh : b.toNat = 0xed ∧ high = 0x9f ∨ b.toNat ≠ 0xed ∧ high = 0xbf) :
      Leads b ⟨[b], b.toNat - 0xe0, 2, low, high⟩
  | four (h : 0xf0 ≤ b.toNat) (h' : b.toNat < 0xf5) {low high : Nat}
      (hlow : b.toNat = 0xf0 ∧ low = 0x90 ∨ b.toNat ≠ 0xf0 ∧ low = 0x80)
      (hhigh : b.toNat = 0xf4 ∧ high = 0x8f ∨ b.toNat ≠ 0xf4 ∧ high = 0xbf) :
      Leads b ⟨[b], b.toNat - 0xf0, 3, low, high⟩

theorem lead_eq_pending_iff {b : UInt8} {p : Pending} : lead b = .pending p ↔ Leads b p := by
  constructor
  · intro h
    unfold lead at h
    simp only at h
    split at h
    · cases h
    split at h
    · cases h
    split at h
    · cases h
      exact .two (by omega) (by omega)
    split at h
    · cases h
      rw [show (0 : Nat) = b.toNat - 0xe0 by omega]
      exact .three (by omega) (by omega) (by omega) (by omega)
    split at h
    · cases h
      rw [show (0xd : Nat) = b.toNat - 0xe0 by omega]
      exact .three (by omega) (by omega) (by omega) (by omega)
    split at h
    · cases h
      exact .three (by omega) (by omega) (by omega) (by omega)
    split at h
    · cases h
      rw [show (0 : Nat) = b.toNat - 0xf0 by omega]
      exact .four (by omega) (by omega) (by omega) (by omega)
    split at h
    · cases h
      exact .four (by omega) (by omega) (by omega) (by omega)
    split at h
    · cases h
      rw [show (4 : Nat) = b.toNat - 0xf0 by omega]
      exact .four (by omega) (by omega) (by omega) (by omega)
    · cases h
  · intro h
    unfold lead
    cases h <;> grind

theorem lead_eq_char_iff {b : UInt8} {c : Char} :
    lead b = .char c ↔ b.toNat = c.toNat ∧ c.toNat < 0x80 := by
  unfold lead
  simp only
  split
  · rename_i h
    have hb := toNat_ofNat (n := b.toNat) (.inl (by omega))
    rw [Lead.char.injEq]
    constructor
    · rintro rfl
      omega
    · rintro ⟨h, -⟩
      rw [h, Char.ofNat_toNat]
  · grind

theorem Leads.sound {b : UInt8} {p : Pending} (h : Leads b p) : p.Sound := by
  cases h with
  | two hlo hhi =>
    refine ⟨Nat.one_pos, Nat.le_refl _, Nat.le_refl _, fun n hn => ?_⟩
    have hvalue : n / 64 = b.toNat - 0xc0 := hn.value
    have hvalid : n.isValidChar := .inl (by omega)
    have hn := toNat_ofNat hvalid
    refine ⟨hvalid, ?_⟩
    rw [encodeChar_two (by omega) (by omega), hn, show 0xc0 + n / 64 = b.toNat by omega,
      UInt8.ofNat_toNat]
    rfl
  | three hlo hhi hlow hhigh =>
    refine ⟨Nat.two_pos, by simp only; omega, by simp only; omega, fun n hn => ?_⟩
    have hvalue : n / 4096 = b.toNat - 0xe0 := hn.value
    have hge := hn.low_le
    have hle := hn.le_high
    simp only [Nat.reduceSub, Nat.reducePow] at hge hle
    have hvalid : n.isValidChar := by
      unfold Nat.isValidChar
      omega
    have hn := toNat_ofNat hvalid
    refine ⟨hvalid, ?_⟩
    rw [encodeChar_three (by omega) (by omega), hn,
      show 0xe0 + n / 64 ^ 2 = b.toNat by omega, UInt8.ofNat_toNat]
    rfl
  | four hlo hhi hlow hhigh =>
    refine ⟨Nat.succ_pos _, by simp only; omega, by simp only; omega, fun n hn => ?_⟩
    have hvalue : n / 262144 = b.toNat - 0xf0 := hn.value
    have hge := hn.low_le
    have hle := hn.le_high
    simp only [Nat.reduceSub, Nat.reducePow] at hge hle
    have hvalid : n.isValidChar := by
      unfold Nat.isValidChar
      omega
    have hn := toNat_ofNat hvalid
    refine ⟨hvalid, ?_⟩
    rw [encodeChar_four (by omega), hn, show 0xf0 + n / 64 ^ 3 = b.toNat by omega,
      UInt8.ofNat_toNat]
    rfl

theorem toNat_byte {n : Nat} (h : n < 256) : (UInt8.ofNat n).toNat = n := by
  rw [UInt8.toNat_ofNat']
  omega

theorem exists_bound (b k low low' : Nat) : ∃ n, b = k ∧ n = low ∨ b ≠ k ∧ n = low' := by
  by_cases h : b = k
  · exact ⟨low, .inl ⟨h, rfl⟩⟩
  · exact ⟨low', .inr ⟨h, rfl⟩⟩

/-- The first byte of a character is the whole of it, or it admits its number. -/
theorem encodeChar_cases (c : Char) :
    (∃ b, encodeChar c = [b] ∧ lead b = .char c) ∨
      ∃ b p, encodeChar c = b :: sextets p.missing c.toNat ∧ lead b = .pending p ∧
        p.Admits c.toNat := by
  have hvalid : c.toNat < 0xd800 ∨ 0xdfff < c.toNat ∧ c.toNat < 0x110000 := c.valid
  by_cases hone : c.toNat < 0x80
  · left
    refine ⟨_, encodeChar_one hone, lead_eq_char_iff.mpr ⟨?_, hone⟩⟩
    rw [toNat_byte (by omega)]
  right
  by_cases htwo : c.toNat < 0x800
  · have hb := toNat_byte (n := 0xc0 + c.toNat / 64) (by omega)
    refine ⟨_, _, encodeChar_two (by omega) htwo, lead_eq_pending_iff.mpr (.two ?_ ?_), ?_⟩
    · omega
    · omega
    · constructor <;> simp only [hb] <;> omega
  by_cases hthree : c.toNat < 0x10000
  · have hb := toNat_byte (n := 0xe0 + c.toNat / 64 ^ 2) (by omega)
    obtain ⟨low, hlow⟩ := exists_bound (UInt8.ofNat (0xe0 + c.toNat / 64 ^ 2)).toNat 0xe0 0xa0 0x80
    obtain ⟨high, hhigh⟩ :=
      exists_bound (UInt8.ofNat (0xe0 + c.toNat / 64 ^ 2)).toNat 0xed 0x9f 0xbf
    refine ⟨_, _, encodeChar_three (by omega) hthree,
      lead_eq_pending_iff.mpr (.three ?_ ?_ hlow hhigh), ?_⟩
    · omega
    · omega
    · constructor <;> simp only [hb] <;> omega
  · have hb := toNat_byte (n := 0xf0 + c.toNat / 64 ^ 3) (by omega)
    obtain ⟨low, hlow⟩ := exists_bound (UInt8.ofNat (0xf0 + c.toNat / 64 ^ 3)).toNat 0xf0 0x90 0x80
    obtain ⟨high, hhigh⟩ :=
      exists_bound (UInt8.ofNat (0xf0 + c.toNat / 64 ^ 3)).toNat 0xf4 0x8f 0xbf
    refine ⟨_, _, encodeChar_four (by omega),
      lead_eq_pending_iff.mpr (.four ?_ ?_ hlow hhigh), ?_⟩
    · omega
    · omega
    · constructor <;> simp only [hb] <;> omega

section Reading
variable {p : Pending} {b : UInt8} {n : Nat}

/-- One byte fewer is missing. -/
def Pending.next (p : Pending) (b : UInt8) : Pending :=
  ⟨b :: p.bytes, p.value * 64 + (b.toNat - 0x80), p.missing - 1, 0x80, 0xbf⟩

theorem Pending.Sound.admits (h : p.Sound) (hlow : p.low ≤ b.toNat) (hhigh : b.toNat ≤ p.high)
    (hn : n / 64 ^ (p.missing - 1) = p.value * 64 + (b.toNat - 0x80)) :
    p.Admits n ∧ 0x80 + n / 64 ^ (p.missing - 1) % 64 = b.toNat := by
  have hlo := h.low
  have hhi := h.high
  have hvalue : n / 64 ^ p.missing = n / 64 ^ (p.missing - 1) / 64 := by
    conv_lhs => rw [← Nat.sub_add_cancel h.missing, Nat.pow_succ, ← Nat.div_div_eq_div_mul]
  refine ⟨⟨?_, ?_, ?_⟩, ?_⟩ <;> omega

theorem sextets_pos (h : 0 < p.missing) : sextets p.missing n =
    UInt8.ofNat (0x80 + n / 64 ^ (p.missing - 1) % 64) :: sextets (p.missing - 1) n := by
  conv_lhs => rw [← Nat.sub_add_cancel h]
  rfl

theorem Pending.Sound.next (h : p.Sound) (hlow : p.low ≤ b.toNat) (hhigh : b.toNat ≤ p.high)
    (hmore : p.missing ≠ 1) : (p.next b).Sound where
  missing := by
    have hpos := h.missing
    simp only [Pending.next]
    omega
  low := Nat.le_refl _
  high := Nat.le_refl _
  bytes := by
    intro n hn
    obtain ⟨hadmits, hbyte⟩ := h.admits hlow hhigh hn.value
    obtain ⟨hvalid, hbytes⟩ := h.bytes n hadmits
    refine ⟨hvalid, ?_⟩
    rw [hbytes, sextets_pos h.missing, hbyte, UInt8.ofNat_toNat]
    simp [Pending.next]

/-- The last missing byte completes the character. -/
theorem Pending.Sound.complete (h : p.Sound) (hlow : p.low ≤ b.toNat) (hhigh : b.toNat ≤ p.high)
    (hlast : p.missing = 1) :
    encodeChar (Char.ofNat (p.value * 64 + (b.toNat - 0x80))) = p.bytes.reverse ++ [b] := by
  have hadmits := h.admits (n := p.value * 64 + (b.toNat - 0x80)) hlow hhigh (by simp [hlast])
  obtain ⟨-, hbytes⟩ := h.bytes _ hadmits.1
  rw [hbytes, sextets_pos h.missing, hadmits.2, UInt8.ofNat_toNat, hlast]
  rfl

theorem encode_cons (c : Char) (t : Text) : encode (c :: t) = encodeChar c ++ encode t := rfl

theorem encode_append (t u : Text) : encode (t ++ u) = encode t ++ encode u := List.flatMap_append

/-- What is read was written: the characters so far, the bytes held back and the rest. -/
theorem encode_of_decodeFrom {pos : Nat} {done t : Text} {held : Option Pending} {raw : Bytes}
    (hheld : ∀ p ∈ held, p.Sound) (h : decodeFrom pos done held raw = .ok t) :
    encode t = encode done.reverse ++ ((held.map (·.bytes.reverse)).getD [] ++ raw) := by
  fun_induction decodeFrom pos done held raw with
  | case1 =>
    cases h
    simp
  | case2 => cases h
  | case3 pos done b rest c hlead ih =>
    obtain ⟨hb, hc⟩ := lead_eq_char_iff.mp hlead
    rw [ih (by simp) h]
    rw [List.reverse_cons, encode_append, encode_cons, encodeChar_one hc, ← hb, UInt8.ofNat_toNat]
    simp [encode]
  | case4 pos done b rest p hlead ih =>
    have hleads := lead_eq_pending_iff.mp hlead
    rw [ih (by simpa using hleads.sound) h]
    cases hleads <;> rfl
  | case5 => cases h
  | case6 pos done b rest p hbounds value hlast ih =>
    have hsound := hheld p rfl
    rw [ih (by simp) h, List.reverse_cons, encode_append]
    simp [encode, value, hsound.complete hbounds.1 hbounds.2 hlast]
  | case7 pos done b rest p hbounds value hmore ih =>
    have hsound := hheld p rfl
    have hnext := hsound.next hbounds.1 hbounds.2 hmore
    rw [ih (by rintro q ⟨⟩; exact hnext) h]
    simp
  | case8 => cases h

theorem Pending.Admits.next {m : Nat} (hn : p.Admits n) (hmissing : p.missing = m + 2) :
    (p.next (UInt8.ofNat (0x80 + n / 64 ^ (m + 1) % 64))).Admits n := by
  have hvalue := hn.value
  have hbyte := toNat_byte (n := 0x80 + n / 64 ^ (m + 1) % 64) (by omega)
  rw [hmissing, Nat.pow_succ, ← Nat.div_div_eq_div_mul] at hvalue
  constructor <;>
    simp only [Pending.next, hmissing, Nat.add_sub_cancel, hbyte,
      show m + 2 - 1 = m + 1 by omega] <;> omega

theorem decodeFrom_held (hlow : p.low ≤ b.toNat) (hhigh : b.toNat ≤ p.high) (pos : Nat)
    (done : Text) (rest : Bytes) : decodeFrom pos done (some p) (b :: rest) =
      if p.missing = 1 then
        decodeFrom (pos + 1) (Char.ofNat (p.value * 64 + (b.toNat - 0x80)) :: done) none rest
      else decodeFrom (pos + 1) done (some (p.next b)) rest := by
  rw [decodeFrom, if_pos ⟨hlow, hhigh⟩]
  rfl

theorem decodeFrom_sextets {m : Nat} (hmissing : p.missing = m + 1) (hn : p.Admits n) (pos : Nat)
    (done : Text) (rest : Bytes) :
    decodeFrom pos done (some p) (sextets (m + 1) n ++ rest) =
      decodeFrom (pos + (m + 1)) (Char.ofNat n :: done) none rest := by
  induction m generalizing p pos with
  | zero =>
    have hbyte := toNat_byte (n := 0x80 + n / 64 ^ 0 % 64) (by omega)
    obtain ⟨hvalue, hlow, hhigh⟩ := hn
    rw [hmissing] at hvalue hlow hhigh
    have hnumber : p.value * 64 + ((UInt8.ofNat (0x80 + n / 64 ^ 0 % 64)).toNat - 0x80) = n := by
      omega
    rw [sextets, List.cons_append, decodeFrom_held (by omega) (by omega), if_pos hmissing, hnumber]
    rfl
  | succ m ih =>
    have hbyte := toNat_byte (n := 0x80 + n / 64 ^ (m + 1) % 64) (by omega)
    have hnext := hn.next hmissing
    obtain ⟨-, hlow, hhigh⟩ := hn
    rw [hmissing, Nat.add_sub_cancel] at hlow hhigh
    rw [sextets, List.cons_append, decodeFrom_held (by omega) (by omega), if_neg (by omega),
      ih (by simp [Pending.next, hmissing]) hnext]
    congr 1
    omega

end Reading

/-- A character that was written is read. -/
theorem decodeFrom_encodeChar (pos : Nat) (done : Text) (c : Char) (rest : Bytes) :
    ∃ next, decodeFrom pos done none (encodeChar c ++ rest) =
      decodeFrom next (c :: done) none rest := by
  rcases encodeChar_cases c with ⟨b, hbytes, hlead⟩ | ⟨b, p, hbytes, hlead, hadmits⟩
  · refine ⟨pos + 1, ?_⟩
    rw [hbytes, List.singleton_append, decodeFrom]
    simp only [hlead]
  · have hpos := (lead_eq_pending_iff.mp hlead).sound.missing
    obtain ⟨m, hm⟩ := Nat.exists_eq_succ_of_ne_zero (Nat.ne_of_gt hpos)
    refine ⟨pos + 1 + (m + 1), ?_⟩
    rw [hbytes, List.cons_append, decodeFrom]
    simp only [hlead]
    rw [hm, decodeFrom_sextets hm hadmits, Char.ofNat_toNat]

theorem decodeFrom_encode (pos : Nat) (done t : Text) :
    decodeFrom pos done none (encode t) = .ok (done.reverse ++ t) := by
  induction t generalizing pos done with
  | nil => simp [encode, decodeFrom]
  | cons c t ih =>
    obtain ⟨next, hnext⟩ := decodeFrom_encodeChar pos done c (encode t)
    rw [encode_cons, hnext, ih]
    simp

/-- The bytes of a text are read as that text, and no others are. -/
theorem decode_eq_ok_iff {raw : Bytes} {t : Text} : decode raw = .ok t ↔ encode t = raw := by
  constructor
  · intro h
    have hall := encode_of_decodeFrom (by simp) h
    simpa [encode] using hall
  · rintro rfl
    exact decodeFrom_encode 0 [] t

/-- The bytes of a character are those of the standard library. -/
theorem encodeChar_eq (c : Char) : encodeChar c = String.utf8EncodeChar c := by
  have hvalid : c.toNat < 0xd800 ∨ 0xdfff < c.toNat ∧ c.toNat < 0x110000 := c.valid
  have hvalue : c.val.toNat = c.toNat := rfl
  unfold encodeChar String.utf8EncodeChar
  simp only [hvalue]
  generalize c.toNat = n at hvalid
  by_cases hone : n < 0x80
  · rw [if_pos hone, if_pos (by omega)]
  rw [if_neg hone, if_neg (show ¬ n ≤ 127 by omega)]
  by_cases htwo : n < 0x800
  · rw [if_pos htwo, if_pos (show n ≤ 2047 by omega),
      show 0xc0 + n / 64 = n / 64 % 32 + 192 by omega, Nat.add_comm 0x80]
  rw [if_neg htwo, if_neg (show ¬ n ≤ 2047 by omega)]
  by_cases hthree : n < 0x10000
  · rw [if_pos hthree, if_pos (by omega), show 0xe0 + n / 4096 = n / 4096 % 16 + 224 by omega,
      Nat.add_comm 0x80, Nat.add_comm 0x80]
  · rw [if_neg hthree, if_neg (by omega), show 0xf0 + n / 262144 = n / 262144 % 8 + 240 by omega,
      Nat.add_comm 0x80, Nat.add_comm 0x80, Nat.add_comm 0x80]

/-- Bytes can be read exactly when they are valid to the standard library. -/
theorem exists_decode_iff {raw : Bytes} :
    (∃ t, decode raw = .ok t) ↔ ByteArray.IsValidUTF8 raw.toByteArray := by
  have hencode : ∀ t : Text, (encode t).toByteArray = t.utf8Encode := by
    intro t
    rw [encode, funext encodeChar_eq]
    rfl
  constructor
  · rintro ⟨t, ht⟩
    rw [← decode_eq_ok_iff.mp ht, hencode]
    exact ⟨t, rfl⟩
  · rintro ⟨t, ht⟩
    refine ⟨t, decode_eq_ok_iff.mpr ?_⟩
    rw [← hencode] at ht
    have := congrArg ByteArray.data ht
    simpa using this.symm

end CommentToggle.Utf8
