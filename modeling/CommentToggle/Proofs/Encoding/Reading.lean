import CommentToggle.Encoding.Reading
import CommentToggle.Proofs.Encoding.Codec
import CommentToggle.Proofs.Outcome

/-!
Reading loses no byte. Whatever the detector says, the text that is read gives the bytes
back when it is written in the encoding that is reported with it: valid UTF-8 because it is
read exactly where it was written, a guess because it is tried, and Latin-1 because every
byte is a character of it.
-/
namespace CommentToggle

namespace Codec

variable [Charsets]

theorem encodeBy_utf8 (t : Text) : encodeBy "utf-8".toList t = .ok (Utf8.encode t) := by
  have hname : ofName? "utf-8".toList = some .utf8 := by decide
  unfold encodeBy byName
  rw [hname]
  rfl

theorem encodeBy_latin1 (t : Text) :
    encodeBy "latin-1".toList t = SingleByte.latin1.encode t := by
  have hname : ofName? "latin-1".toList = some .latin1 := by decide
  unfold encodeBy byName
  rw [hname]
  rfl

end Codec

namespace Reading

theorem encode_latin1Text (raw : Bytes) : SingleByte.latin1.encode (latin1Text raw) = .ok raw := by
  rw [SingleByte.encode_eq_ok_iff, latin1Text, List.map_map]
  refine List.map_congr_left fun b _ => ?_
  have hbyte : b.toNat < 256 := b.toNat_lt
  have hchar := Utf8.toNat_ofNat (n := b.toNat) (.inl (by omega))
  simp [SingleByte.latin1, SingleByte.below, hchar, hbyte]

section Decode
variable [Charsets]

/-- A text read in the named encoding is taken only if it gives the bytes back. -/
theorem encodeBy_of_roundTrip {name t : Text} {raw : Bytes}
    (h : roundTrip name raw = .ok (some t)) : Codec.encodeBy name t = .ok raw := by
  obtain ⟨text, -, h⟩ := Outcome.bind_eq_ok_iff.mp h
  obtain ⟨bytes, hbytes, h⟩ := Outcome.bind_eq_ok_iff.mp h
  split at h
  · rename_i heq
    cases h
    rw [hbytes, heq]
  · cases h

theorem of_tryGuess {source t name : Text} {raw : Bytes} {g : Guess} {records : List Record}
    (h : tryGuess source raw g = (records, some (t, name))) :
    g.encoding = some name ∧ Codec.encodeBy name t = .ok raw := by
  unfold tryGuess at h
  split at h
  · cases h
  · rename_i guessed hguessed
    split at h
    · cases h
    · split at h
      · rename_i found hfound
        rw [Prod.mk.injEq] at h
        obtain ⟨text, rfl, hpair⟩ := Option.map_eq_some_iff.mp h.2
        cases hpair
        exact ⟨hguessed, encodeBy_of_roundTrip hfound⟩
      · cases h

theorem decode_of_valid {raw : Bytes} (h : ByteArray.IsValidUTF8 raw.toByteArray) :
    ∃ t, Utf8.encode t = raw ∧ ∀ (detector : Bytes → Guess) (source : Text),
      decode detector source raw = ([], ⟨t, "utf-8".toList, none⟩) := by
  obtain ⟨t, ht⟩ := Utf8.exists_decode_iff.mpr h
  refine ⟨t, Utf8.decode_eq_ok_iff.mp ht, fun detector source => ?_⟩
  unfold decode
  rw [ht]

theorem decode_of_invalid {raw : Bytes} (h : ¬ ByteArray.IsValidUTF8 raw.toByteArray)
    (detector : Bytes → Guess) (source : Text) : ∃ records t name,
      decode detector source raw = (records, ⟨t, name, some (raw.take sampleSize)⟩) ∧
      Codec.encodeBy name t = .ok raw ∧
      (name = "latin-1".toList ∨ (detector (raw.take sampleSize)).encoding = some name) := by
  unfold decode
  cases hread : Utf8.decode raw with
  | ok t => exact absurd (Utf8.exists_decode_iff.mp ⟨t, hread⟩) h
  | error fault =>
    simp only
    cases hguess : tryGuess source raw (detector (raw.take sampleSize)) with
    | mk records found =>
      cases found with
      | none =>
        refine ⟨_, _, _, rfl, ?_, .inl rfl⟩
        rw [Codec.encodeBy_latin1]
        exact encode_latin1Text raw
      | some pair =>
        obtain ⟨hname, hback⟩ := of_tryGuess hguess
        exact ⟨_, _, _, rfl, hback, .inr hname⟩

theorem encodeBy_decode (detector : Bytes → Guess) (source : Text) (raw : Bytes) :
    Codec.encodeBy (decode detector source raw).2.encoding (decode detector source raw).2.text =
      .ok raw := by
  by_cases h : ByteArray.IsValidUTF8 raw.toByteArray
  · obtain ⟨t, ht, hdecode⟩ := decode_of_valid h
    rw [hdecode, Codec.encodeBy_utf8, ht]
  · obtain ⟨records, t, name, hdecode, hback, -⟩ := decode_of_invalid h detector source
    rw [hdecode]
    exact hback

/-- What the bytes come from is told and nothing more. -/
theorem decode_source (detector : Bytes → Guess) (source source' : Text) (raw : Bytes) :
    (decode detector source' raw).2 = (decode detector source raw).2 := by
  have hguess (g : Guess) : (tryGuess source' raw g).2 = (tryGuess source raw g).2 := by
    unfold tryGuess
    cases g.encoding with
    | none => rfl
    | some name =>
      simp only
      split
      · rfl
      · cases roundTrip name raw <;> rfl
  unfold decode
  cases Utf8.decode raw with
  | ok text => rfl
  | error fault =>
    have hsame := hguess (detector (raw.take sampleSize))
    cases h : tryGuess source raw (detector (raw.take sampleSize)) with
    | mk rs found =>
      cases h' : tryGuess source' raw (detector (raw.take sampleSize)) with
      | mk rs' found' =>
        rw [h, h'] at hsame
        simp only at hsame
        subst hsame
        cases found' with
        | none => simp only [h, h']
        | some pair => simp only [h, h']

/-- Bytes are always read, and what is read gives them back. The detector is asked only
where they are not valid UTF-8. -/
theorem decode_lossless (detector : Bytes → Guess) (source : Text) (raw : Bytes) :
    ∃ records text encoding sample,
      decode detector source raw = (records, ⟨text, encoding, sample⟩) ∧
      Codec.encodeBy encoding text = .ok raw ∧
      (ByteArray.IsValidUTF8 raw.toByteArray → encoding = "utf-8".toList ∧ sample = none ∧
        ∀ other, decode other source raw = decode detector source raw) ∧
      (¬ ByteArray.IsValidUTF8 raw.toByteArray → sample = some (raw.take sampleSize) ∧
        (encoding = "latin-1".toList ∨
          (detector (raw.take sampleSize)).encoding = some encoding)) := by
  by_cases h : ByteArray.IsValidUTF8 raw.toByteArray
  · obtain ⟨t, ht, hdecode⟩ := decode_of_valid h
    refine ⟨_, _, _, _, hdecode detector source, ?_, fun _ => ⟨rfl, rfl, fun other => ?_⟩,
      fun hnot => absurd h hnot⟩
    · rw [Codec.encodeBy_utf8, ht]
    · rw [hdecode, hdecode]
  · obtain ⟨records, t, name, hdecode, hback, hname⟩ := decode_of_invalid h detector source
    exact ⟨_, _, _, _, hdecode, hback, fun hvalid => absurd hvalid h, fun _ => ⟨rfl, hname⟩⟩

end Decode

section Plain

attribute [local instance] Charsets.none

/-- UTF-16 with the high byte first is read but not written, so the guess is not taken. -/
example : (decode (fun _ => ⟨some "utf-16".toList, some 1⟩) []
    [0xfe, 0xff, 0xd8, 0x3d, 0xde, 0x00]).2.encoding = "latin-1".toList := by decide

end Plain

end Reading

end CommentToggle
